import QueryShell.Value.Basic

/-! The total order of values. Kinds come first; exceptions compare by name, numbers by value,
strings by code points, arrays by their items, objects by their keys and then by what the keys
hold. -/

namespace QueryShell.Value

mutual

def cmpCanonical : Value → Value → Ordering
  | .exception a _, .exception b _ => compare a b
  | .boolean a, .boolean b => compare a b
  | .number a, .number b => a.cmp b
  | .string a, .string b => compare a b
  | .array a, .array b => cmpItems a b
  | .object a, .object b => (compare (Dictionary.keys a) (Dictionary.keys b)).then (cmpEntries a b)
  | a, b => compare a.kind.rank b.kind.rank

def cmpItems : List Value → List Value → Ordering
  | [], [] => .eq
  | [], _ :: _ => .lt
  | _ :: _, [] => .gt
  | a :: as, b :: bs => (cmpCanonical a b).then (cmpItems as bs)

def cmpEntries : List (String × Value) → List (String × Value) → Ordering
  | [], [] => .eq
  | [], _ :: _ => .lt
  | _ :: _, [] => .gt
  | (_, a) :: as, (_, b) :: bs => (cmpCanonical a b).then (cmpEntries as bs)

end

def cmp (a b : Value) : Ordering := cmpCanonical a.canonical b.canonical

/-- Equality as an observer sees it. -/
def Equal (a b : Value) : Prop := a.cmp b = .eq

instance (a b : Value) : Decidable (a.Equal b) := inferInstanceAs (Decidable (a.cmp b = .eq))

def max (a b : Value) : Value := if a.cmp b = .gt then a else b

def insertSorted (v : Value) : List Value → List Value
  | [] => [v]
  | w :: ws => if v.cmp w = .gt then w :: insertSorted v ws else v :: w :: ws

/-- Equal values keep their order. -/
def sort : List Value → List Value
  | [] => []
  | v :: vs => insertSorted v (sort vs)

end QueryShell.Value
