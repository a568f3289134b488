import QueryShell.Text.Escaped
import QueryShell.Value.Order

/-! What travels beside the values of a stream: two scopes of variables, the format strings and the
context. -/

namespace QueryShell

/-- Each variable stands for a list of values. -/
abbrev Scope := List (String × List Value)

abbrev Formats := List (String × String)

namespace Scope

def bind (scope : Scope) (name : String) (values : List Value) : Scope :=
  Dictionary.insert name values scope

def get? (scope : Scope) (name : String) : Option (List Value) := Dictionary.find? name scope

def contains (scope : Scope) (name : String) : Bool := Dictionary.contains name scope

def names (scope : Scope) : List String := Dictionary.keys scope

def describe (scope : Scope) : String := Text.escapeSet scope.names

def equal : Scope → Scope → Bool
  | [], [] => true
  | (a, vs) :: first, (b, ws) :: second =>
    a = b && (Value.array vs).cmp (.array ws) = .eq && equal first second
  | _, _ => false

end Scope

/-- The arguments given to the program, and whether a filter runs as the main one. -/
structure Context where
  arguments : List String
  isMain : Bool

def Context.standard : Context := ⟨[], true⟩

structure Namespaces where
  globals : Scope
  locals : Scope
  formats : Formats
  context : Context

def Namespaces.empty : Namespaces := ⟨[], [], [], .standard⟩

end QueryShell
