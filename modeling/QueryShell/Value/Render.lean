import QueryShell.Decimal.Text
import QueryShell.Text.Escaped
import QueryShell.Text.Quoted
import QueryShell.Value.Exception

/-! Values as text, on one line or with each item on a line of its own. An exception is written as
its report. -/

namespace QueryShell

/-- Spaces for each level of nesting; none puts a value on one line. -/
structure Layout where
  indent : Nat

namespace Layout

def compact : Layout := ⟨0⟩

def newline (layout : Layout) (depth : Nat) : List Char :=
  if layout.indent = 0 then [] else '\n' :: List.replicate (layout.indent * depth) ' '

def comma (layout : Layout) : List Char := if layout.indent = 0 then [',', ' '] else [',']

end Layout

namespace Value

mutual

def text (layout : Layout) (depth : Nat) : Value → List Char
  | .exception name fields => Text.join ['\n'] (FieldText.report name (fieldTexts fields))
  | .null => ['n', 'u', 'l', 'l']
  | .boolean true => ['t', 'r', 'u', 'e']
  | .boolean false => ['f', 'a', 'l', 's', 'e']
  | .number n => n.toText
  | .string s => Text.quoted s.toList
  | .array [] => ['[', ']']
  | .array (v :: vs) =>
    '[' :: layout.newline (depth + 1) ++ text layout (depth + 1) v ++ itemsTail layout depth vs
  | .object [] => ['\x7b', '\x7d']
  | .object ((key, v) :: rest) =>
    '\x7b' :: layout.newline (depth + 1) ++ Text.quoted key.toList ++
      ':' :: ' ' :: text layout (depth + 1) v
      ++ entriesTail layout depth rest

def itemsTail (layout : Layout) (depth : Nat) : List Value → List Char
  | [] => layout.newline depth ++ [']']
  | v :: vs =>
    layout.comma ++ layout.newline (depth + 1) ++ text layout (depth + 1) v ++
      itemsTail layout depth vs

def entriesTail (layout : Layout) (depth : Nat) : List (String × Value) → List Char
  | [] => layout.newline depth ++ ['\x7d']
  | (key, v) :: rest =>
    layout.comma ++ layout.newline (depth + 1) ++ Text.quoted key.toList ++
      ':' :: ' ' :: text layout (depth + 1) v
      ++ entriesTail layout depth rest

/-- A string field gives its characters, any other its text on one line. -/
def fieldTexts : List (String × Value) → List (String × FieldText)
  | [] => []
  | (key, .string s) :: rest => (key, ⟨s.toList, none⟩) :: fieldTexts rest
  | (key, .array items) :: rest =>
    (key, ⟨text .compact 0 (.array items), some (itemTexts items)⟩) :: fieldTexts rest
  | (key, v) :: rest => (key, ⟨text .compact 0 v, none⟩) :: fieldTexts rest

def itemTexts : List Value → List (List Char)
  | [] => []
  | v :: vs => text .compact 0 v :: itemTexts vs

end

def render (layout : Layout) (v : Value) : String := String.ofList (v.canonical.text layout 0)

def display (v : Value) : String := v.render .compact

/-- An exception by its name alone, and any other value as it is displayed. -/
def summary : Value → String
  | .exception name _ => "Exception(" ++ name ++ ")"
  | v => v.display

end Value

/-- The lines shown for an exception that nobody caught. -/
def Exception.report (e : Exception) : List String :=
  (FieldText.report e.name (Value.fieldTexts (Value.canonicalFields e.fields))).map String.ofList

def Exception.describe (e : Exception) : String :=
  "Exception \x7b name: " ++ Text.escape e.name ++ ", fields: \x7b"
    ++ Text.joinStrings ", " (e.fields.map fun (key, v) => Text.escape key ++ ": " ++ v.summary)
    ++ "\x7d \x7d"

end QueryShell
