import Mathlib.Data.List.Forall2
import QueryShell.Filter.Basic
import QueryShell.Stream.Namespaces

/-! Arrays as views on queues. What an array literal makes keeps the token under which it was
collected: once that token has fired, what has been read of the array by then is all that can be
read of it. -/

namespace QueryShell

namespace Value

mutual

/-- What a value may read as when the token has fired under which its arrays were collected. -/
inductive Lapses : Value → Value → Prop where
  | same (v : Value) : Lapses v v
  | array {items left : List Value} (h : ItemsLapse items left) :
    Lapses (.array items) (.array left)
  | object {entries left : List (String × Value)} (h : EntriesLapse entries left) :
    Lapses (.object entries) (.object left)
  | exception (name : String) {fields left : List (String × Value)} (h : EntriesLapse fields left) :
    Lapses (.exception name fields) (.exception name left)

/-- The items that have been read are left. -/
inductive ItemsLapse : List Value → List Value → Prop where
  | unread (items : List Value) : ItemsLapse items []
  | read {v w : Value} (h : Lapses v w) {items left : List Value} (hrest : ItemsLapse items left) :
    ItemsLapse (v :: items) (w :: left)

inductive EntriesLapse : List (String × Value) → List (String × Value) → Prop where
  | nil : EntriesLapse [] []
  | cons (key : String) {v w : Value} (h : Lapses v w) {entries left : List (String × Value)}
    (hrest : EntriesLapse entries left) : EntriesLapse ((key, v) :: entries) ((key, w) :: left)

end

mutual

/-- There is an array with items somewhere in the value. -/
def mayLapse : Value → Bool
  | .exception _ fields => entriesMayLapse fields
  | .array items => !items.isEmpty
  | .object entries => entriesMayLapse entries
  | .null => false
  | .boolean _ => false
  | .number _ => false
  | .string _ => false

def entriesMayLapse : List (String × Value) → Bool
  | [] => false
  | (_, v) :: rest => mayLapse v || entriesMayLapse rest

end

end Value

def Scope.Lapses : Scope → Scope → Prop :=
  List.Forall₂ fun before left => left.1 = before.1 ∧ List.Forall₂ Value.Lapses before.2 left.2

def Scope.mayLapse (scope : Scope) : Bool := scope.any fun (_, values) => values.any Value.mayLapse

namespace Namespaces

structure Lapses (before left : Namespaces) : Prop where
  globals : before.globals.Lapses left.globals
  locals : before.locals.Lapses left.locals
  formats : left.formats = before.formats
  context : left.context = before.context

def mayLapse (namespaces : Namespaces) : Bool :=
  namespaces.globals.mayLapse || namespaces.locals.mayLapse

end Namespaces

namespace Filter

mutual

/-- There is an array literal somewhere in the filter. -/
def collects : Filter → Bool
  | .empty => false
  | .parens f => collects f
  | .array _ => true
  | .object f => collects f
  | .name _ => false
  | .number _ => false
  | .string _ => false
  | .pipe l r => collects l || collects r
  | .apply attributes => anyCollects attributes
  | .comma l r => collects l || collects r
  | .add l r => collects l || collects r
  | .multiply l r => collects l || collects r
  | .assign l r => collects l || collects r
  | .semicolon l r => collects l || collects r
  | .pair l r => collects l || collects r
  | .command f => collects f
  | .globalVariable f => collects f

def anyCollects : List Filter → Bool
  | [] => false
  | f :: fs => collects f || anyCollects fs

end

end Filter
end QueryShell
