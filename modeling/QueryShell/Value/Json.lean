import QueryShell.Decimal.Text
import QueryShell.Error
import QueryShell.Json.Read
import QueryShell.Json.Write
import QueryShell.Value.Basic

/-! Values and JSON. Exceptions alone have no JSON form. -/

namespace QueryShell.Value

/-- A number is taken for the JSON number that its text is. -/
def numberToJson (n : Decimal) : Except Error Json :=
  match Json.readNumber n.toText with
  | .ok text => .ok (.number text)
  | .error fault => .error (.json (fault.locate n.toText))

mutual

/-- The JSON form, or else the first exception that stands in its way. -/
def toJsonCanonical : Value → Except Error Json
  | .exception name _ => .error (.notSerializable name)
  | .null => .ok .null
  | .boolean flag => .ok (.boolean flag)
  | .number n => numberToJson n
  | .string text => .ok (.string text)
  | .array items => .array <$> itemsToJson items
  | .object entries => .object <$> entriesToJson entries

def itemsToJson : List Value → Except Error (List Json)
  | [] => .ok []
  | v :: vs => do return (← toJsonCanonical v) :: (← itemsToJson vs)

def entriesToJson : List (String × Value) → Except Error (List (String × Json))
  | [] => .ok []
  | (key, v) :: rest => do return (key, ← toJsonCanonical v) :: (← entriesToJson rest)

end

def toJson (v : Value) : Except Error Json := v.canonical.toJsonCanonical

def toJsonText (v : Value) : Except Error (List Char) := Json.text <$> v.toJson

mutual

def ofJson : Json → Except Error Value
  | .null => .ok .null
  | .boolean flag => .ok (.boolean flag)
  | .number text =>
    match Decimal.ofText text with
    | .ok n => .ok (.number n)
    | .error e => .error (.internal ("bad number " ++ String.ofList text ++ ": " ++ e.message))
  | .string text => .ok (.string text)
  | .array items => .array <$> ofJsonItems items
  | .object entries => .object <$> ofJsonEntries entries

def ofJsonItems : List Json → Except Error (List Value)
  | [] => .ok []
  | j :: js => do return (← ofJson j) :: (← ofJsonItems js)

def ofJsonEntries : List (String × Json) → Except Error (List (String × Value))
  | [] => .ok []
  | (key, j) :: rest => do return (key, ← ofJson j) :: (← ofJsonEntries rest)

end

/-- A faulty place is told by the whole text. Every value takes a character, so as many steps as
there are characters are enough. -/
def readStreamWithin (text : List Char) : Nat → List Char → Except Error (List Value)
  | 0, _ => .ok []
  | steps + 1, cs =>
    match Json.nextOfStream cs with
    | .error fault => .error (.json (fault.locate text))
    | .ok none => .ok []
    | .ok (some (json, rest)) => do
      let v ← ofJson json
      return v :: (← readStreamWithin text steps rest)

def readStream (text : List Char) : Except Error (List Value) :=
  readStreamWithin text (text.length + 1) text

end QueryShell.Value
