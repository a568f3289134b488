import QueryShell.Dictionary

/-! JSON values, with each number as the text it is written with. -/

namespace QueryShell

/-- The entries of an object are sorted by key. -/
inductive Json where
  | null
  | boolean (flag : Bool)
  | number (text : List Char)
  | string (text : String)
  | array (items : List Json)
  | object (entries : List (String × Json))

end QueryShell
