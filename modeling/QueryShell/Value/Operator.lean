import QueryShell.Value.Exception

/-! The binary operators on values, and their use on two streams, of which the shorter is
repeated. -/

namespace QueryShell

namespace Value

/-- Machine counts are below this bound. -/
def countBound : Nat := 0x10000000000000000

/-- The longest sequence that repetition may build. -/
def repetitionLimit : Nat := 0x1000000

def add : Value → Value → Except Exception Value
  | .number a, .number b => .ok (.number (a.add b))
  | .string a, .string b => .ok (.string (a ++ b))
  | .array a, .array b => .ok (.array (a ++ b))
  | .object a, .object b =>
    .ok (.object (Dictionary.union (Dictionary.ofEntries a) (Dictionary.ofEntries b)))
  | _, _ => .error .wrongType

/-- How often a factor repeats a sequence. A negative factor repeats it zero times. -/
def repetitions (n : Decimal) : Except Exception Nat :=
  if !n.isInteger then .error .notInteger
  else if n.isNegative then .ok 0
  else
    match n.toNat? (countBound - 1) with
    | some times => .ok times
    | none => .error .notInteger

def repeated {α : Type} (items : List α) (times : Nat) : List α :=
  if items.isEmpty then [] else (List.replicate times items).flatten

def repetition {α : Type} (items : List α) (n : Decimal) : Except Exception (List α) := do
  let times ← repetitions n
  if items.length * times ≤ repetitionLimit then .ok (repeated items times)
  else .error (.tooLong items.length times)

def repeatText (text : String) (n : Decimal) : Except Exception Value :=
  (fun cs => .string (String.ofList cs)) <$> repetition text.toList n

def repeatItems (items : List Value) (n : Decimal) : Except Exception Value :=
  .array <$> repetition items n

def multiply : Value → Value → Except Exception Value
  | .number a, .number b => .ok (.number (a.mul b))
  | .string text, .number n => repeatText text n
  | .number n, .string text => repeatText text n
  | .array items, .number n => repeatItems items n
  | .number n, .array items => repeatItems items n
  | _, _ => .error .wrongType

def pair (left right : Value) : Except Exception Value := .ok (.array [left, right])

end Value

inductive Operator where
  | add
  | multiply
  | pair
  deriving DecidableEq

namespace Operator

def apply : Operator → Value → Value → Except Exception Value
  | .add => Value.add
  | .multiply => Value.multiply
  | .pair => Value.pair

/-- The result as a stream shows it, where a failure is an exception value. -/
def outcome (op : Operator) (left right : Value) : Value :=
  match op.apply left right with
  | .ok v => v
  | .error e => e.toValue

/-- The item at a position of the endless repetition of a list. -/
def cyclic {α : Type} (items : List α) (nonempty : items ≠ []) (i : Nat) : α :=
  items.get ⟨i % items.length, Nat.mod_lt i (List.length_pos_iff.2 nonempty)⟩

/-- Position by position, as often as the longer list has items. Beside an empty list the other
passes unchanged. -/
def pairwise (op : Operator) (left right : List Value) : List Value :=
  if hl : left = [] then right
  else if hr : right = [] then left
  else
    (List.range (max left.length right.length)).map fun i =>
      op.outcome (cyclic left hl i) (cyclic right hr i)

end Operator
end QueryShell
