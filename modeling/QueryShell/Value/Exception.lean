import QueryShell.Value.Basic
import QueryShell.Text.Lines

/-! The exceptions that the language itself raises, and the lines that report an uncaught
exception. -/

namespace QueryShell.Exception

def named (name : String) : Exception := ⟨name, []⟩

def withField (e : Exception) (key : String) (value : Value) : Exception :=
  { e with fields := Dictionary.insert key value e.fields }

def withText (e : Exception) (key text : String) : Exception := e.withField key (.string text)

def withCount (e : Exception) (key : String) (n : Nat) : Exception :=
  e.withField key (.number (.ofNat n))

def undefinedName (missing : String) : Exception := (named "name").withText "missing_name" missing

/-- No function of the name takes so many arguments. -/
def argumentCount (expected : List Nat) (received : Nat) : Exception :=
  ((named "numArgs").withField "expected"
    (.array (expected.map fun n => .number (.ofNat n)))).withCount "received" received

def wrongType : Exception := named "type"

def notInteger : Exception := named "integer"

/-- The code point is no Unicode character. -/
def notUnicode : Exception := named "unicode"

def noSuchPosition : Exception := named "numValues"

/-- A stream that should tell a position is empty. -/
def noPosition : Exception := named "empty"

/-- The filter stands for nothing that a value could be bound to. -/
def assignment (targetKind targetSource : String) : Exception :=
  ((named "assignment").withText "target_kind" targetKind).withText "target_filter" targetSource

def commandNotFound (command : String) : Exception := (named "path").withText "command" command

def commandNotPermitted (command : String) : Exception :=
  (named "permission").withText "command" command

def commandOutput (detail : String) : Exception := (named "commandOutput").withText "detail" detail

def internal (message : String) : Exception := (named "internal").withText "message" message

/-- The sequence would be too long to build. -/
def tooLong (length times : Nat) : Exception :=
  ((named "size").withCount "length" length).withCount "times" times

/-- A filter that should name something does not yield exactly one string. -/
def noSensibleString (reason : String) : Exception :=
  (named "sensibleString").withText "reason" reason

end QueryShell.Exception

namespace QueryShell

/-- What a report may need of a field: its text, and the texts of its items if it is an array. -/
structure FieldText where
  text : List Char
  items : Option (List (List Char))

namespace FieldText

def textOf (key : String) (fields : List (String × FieldText)) : List (List Char) :=
  match Dictionary.find? key fields with
  | some field => [field.text]
  | none => []

def argumentCountLine (expected : List (List Char)) (received : List Char) : List Char :=
  "wrong number of function arguments: received ".toList ++ received ++ ", expected ".toList
    ++ (if 1 < expected.length then "any of ".toList else []) ++ Text.join [',', ' '] expected

/-- The lines that say more than the exception's name, for the names that the language raises. -/
def details (name : String) (fields : List (String × FieldText)) : List (List Char) :=
  match name with
  | "name" =>
    (textOf "missing_name" fields).map fun missing =>
      "name ".toList ++ missing ++ " is not defined".toList
  | "numArgs" =>
    match (Dictionary.find? "expected" fields).bind FieldText.items,
      Dictionary.find? "received" fields with
    | some expected, some received => [argumentCountLine expected received.text]
    | _, _ => []
  | "assignment" =>
    (textOf "target_kind" fields).map ("cannot assign to filter of type ".toList ++ ·)
  | "internal" => (textOf "message" fields).flatMap Text.lines
  | "size" =>
    match Dictionary.find? "length" fields, Dictionary.find? "times" fields with
    | some length, some times =>
      ["cannot repeat a sequence of length ".toList ++ length.text ++ ' ' :: times.text ++
        " times".toList]
    | _, _ => []
  | "path" | "permission" => (textOf "command" fields).map ("cannot run command ".toList ++ ·)
  | "commandOutput" => textOf "detail" fields
  | "sensibleString" => textOf "reason" fields
  | _ => []

def report (name : String) (fields : List (String × FieldText)) : List (List Char) :=
  ("jqsh: uncaught exception: ".toList ++ name.toList) :: details name fields

end FieldText
end QueryShell
