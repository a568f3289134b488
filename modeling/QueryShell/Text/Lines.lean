/-! Lines of a text. A line ends at a line feed or at a carriage return with a line feed; what
follows the last line feed is a line unless it is empty. -/

namespace QueryShell.Text

def lines : List Char → List (List Char)
  | [] => []
  | '\n' :: cs => [] :: lines cs
  | '\r' :: '\n' :: cs => [] :: lines cs
  | c :: cs =>
    match lines cs with
    | [] => [[c]]
    | line :: rest => (c :: line) :: rest

def join (separator : List Char) : List (List Char) → List Char
  | [] => []
  | [t] => t
  | t :: ts => t ++ separator ++ join separator ts

def joinStrings (separator : String) (texts : List String) : String :=
  String.ofList (join separator.toList (texts.map String.toList))

end QueryShell.Text
