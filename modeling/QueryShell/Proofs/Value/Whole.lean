import QueryShell.Eval.Builtin
import QueryShell.Proofs.Decimal.Value

/-! Values that are integers. Functions that want one take it from any form of the number, and raise
an exception for a value that is none. -/

namespace QueryShell

namespace Value

/-- The integer that a value is, in whatever form. -/
def whole? : Value → Option Int
  | .number n => if n.value.den = 1 then some n.value.num else none
  | _ => none

/-- What is raised for a value that is no integer. -/
def wholeFault : Value → Exception
  | .number _ => .named "integer"
  | _ => .named "type"

variable {v : Value} {n : Decimal} {k : Int}

theorem whole?_number_eq_some_iff : (Value.number n).whole? = some k ↔ n.value = k := by
  rw [whole?]
  constructor
  · intro h
    split at h
    · next hden =>
      rw [← Option.some.inj h]
      exact (Rat.coe_int_num_of_den_eq_one hden).symm
    · cases h
  · intro h
    rw [h, Rat.den_intCast, Rat.num_intCast, if_pos rfl]

theorem exists_of_whole? (h : v.whole? = some k) : ∃ n, v = .number n ∧ n.value = k := by
  cases v with
  | number n => exact ⟨n, rfl, whole?_number_eq_some_iff.mp h⟩
  | _ => cases h

theorem isInteger_eq_isSome : n.isInteger = (Value.number n).whole?.isSome := by
  rw [Bool.eq_iff_iff, Decimal.isInteger_iff, Option.isSome_iff_exists]
  exact exists_congr fun k => whole?_number_eq_some_iff.symm

end Value

namespace Builtin

variable {v : Value}

theorem integerOf_of_whole? {k : Int} (h : v.whole? = some k) :
    ∃ n, integerOf v = .ok n ∧ n.value = k := by
  obtain ⟨n, rfl, hvalue⟩ := Value.exists_of_whole? h
  have hinteger : n.isInteger = true := Decimal.isInteger_iff.mpr ⟨k, hvalue⟩
  exact ⟨n, if_pos hinteger, hvalue⟩

theorem integerOf_of_not_whole (h : v.whole? = none) : integerOf v = .error v.wholeFault := by
  cases v with
  | number n =>
    have hfractional : n.isInteger = false := by
      rw [Value.isInteger_eq_isSome, h, Option.isSome_none]
    rw [integerOf, hfractional]
    rfl
  | _ => rfl

end Builtin
end QueryShell
