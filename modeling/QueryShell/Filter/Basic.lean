/-! Filters: the expressions of the language. -/

namespace QueryShell

inductive Filter where
  | empty
  | parens (body : Filter)
  | array (body : Filter)
  | object (body : Filter)
  | name (name : String)
  /-- A decimal number, kept as it is written. -/
  | number (text : String)
  | string (text : String)
  | pipe (left right : Filter)
  /-- Filters side by side: the identity, a number written in two halves, or a call. -/
  | apply (attributes : List Filter)
  | comma (left right : Filter)
  | add (left right : Filter)
  | multiply (left right : Filter)
  | assign (left right : Filter)
  | semicolon (left right : Filter)
  | pair (left right : Filter)
  | command (program : Filter)
  | globalVariable (label : Filter)

namespace Filter

def kind : Filter → String
  | .empty => "empty"
  | .parens _ => "parens"
  | .array _ => "array"
  | .object _ => "object"
  | .name _ => "name"
  | .number _ => "number"
  | .string _ => "string"
  | .pipe .. => "pipe"
  | .apply _ => "apply"
  | .comma .. => "comma"
  | .add .. => "add"
  | .multiply .. => "multiply"
  | .assign .. => "assign"
  | .semicolon .. => "semicolon"
  | .pair .. => "pair"
  | .command _ => "command"
  | .globalVariable _ => "global"

def isEmpty : Filter → Bool
  | .empty => true
  | _ => false

def identity : Filter := .apply []

/-- Side by side, empty filters alone make the identity. -/
def isIdentity : Filter → Bool
  | .apply attributes => attributes.all isEmpty
  | _ => false

def splitDecimal? : List Filter → Option String
  | [.number whole, .number fraction] => some (whole ++ "." ++ fraction)
  | _ => none

/-- The name that a filter stands for without being run. -/
def literalName? : Filter → Option String
  | .name n => some n
  | .string text => some text
  | _ => none

end Filter
end QueryShell
