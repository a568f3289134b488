import QueryShell.Proofs.Dictionary
import QueryShell.Proofs.Stream.FirstException

/-! Scopes after a binding, and scopes in which no variable holds an exception. -/

namespace QueryShell

namespace Scope

theorem get?_bind (scope : Scope) (name other : String) (values : List Value) :
    (scope.bind name values).get? other = if other = name then some values else scope.get? other :=
  Dictionary.find?_insert name other values scope

theorem get?_bind_of_ne (scope : Scope) {name other : String} (h : other ≠ name)
    (values : List Value) : (scope.bind name values).get? other = scope.get? other :=
  Dictionary.find?_insert_of_ne h values scope

theorem contains_bind {scope : Scope} {other : String} (name : String) (values : List Value)
    (h : scope.contains other = true) : (scope.bind name values).contains other = true :=
  Dictionary.contains_insert_of_contains name values h

/-- No variable holds an exception. -/
def Plain (scope : Scope) : Prop :=
  ∀ name values, scope.get? name = some values → Stream.raises values = false

theorem plain_nil : Plain [] := nofun

theorem Plain.bind {scope : Scope} (h : scope.Plain) (name : String) {values : List Value}
    (hv : Stream.raises values = false) : (scope.bind name values).Plain := by
  intro other stored hs
  rw [get?_bind] at hs
  by_cases ho : other = name
  · rw [if_pos ho, Option.some.injEq] at hs
    exact hs ▸ hv
  · rw [if_neg ho] at hs
    exact h other stored hs

end Scope

/-- Neither scope has a variable that holds an exception. -/
structure Namespaces.Plain (namespaces : Namespaces) : Prop where
  globals : namespaces.globals.Plain
  locals : namespaces.locals.Plain

theorem Namespaces.plain_empty : Namespaces.empty.Plain := ⟨Scope.plain_nil, Scope.plain_nil⟩

end QueryShell
