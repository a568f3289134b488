import QueryShell.Proofs.Decimal.Arithmetic
import QueryShell.Proofs.Value.Order
import QueryShell.Value.Operator

/-! The laws of addition and multiplication. On numbers they are those of the rational numbers, up
to the equality of values, which does not tell the forms of a number apart. -/

namespace QueryShell.Value

/-- The same as far as comparison goes: equal values, or exceptions of one name. -/
inductive Alike : Except Exception Value → Except Exception Value → Prop where
  | ok {v w : Value} (h : v.Equal w) : Alike (.ok v) (.ok w)
  | error {e f : Exception} (h : e.name = f.name) : Alike (.error e) (.error f)

theorem Alike.refl (outcome : Except Exception Value) : Alike outcome outcome := by
  cases outcome with
  | ok v => exact .ok (Std.ReflCmp.compare_self : v.cmp v = .eq)
  | error e => exact .error rfl

theorem equal_number_iff {a b : Decimal} : (number a).Equal (number b) ↔ a.value = b.value :=
  Decimal.cmp_eq_eq_iff

theorem alike_numbers {a b : Decimal} (h : a.value = b.value) :
    Alike (.ok (.number a)) (.ok (.number b)) :=
  .ok (equal_number_iff.mpr h)

/-- Only for two numbers does the order tell, and then only in the form of the product. -/
theorem multiply_comm (v w : Value) : Alike (multiply v w) (multiply w v) := by
  cases v with
  | number a =>
    cases w with
    | number b =>
      refine alike_numbers ?_
      rw [Decimal.value_mul, Decimal.value_mul, mul_comm]
    | _ => exact .refl _
  | _ => cases w <;> exact .refl _

/-- The sum and the product of two numbers of any form are numbers of exactly the value that the sum
and the product of their values have. So addition and multiplication of numbers are commutative and
associative, and multiplication distributes over addition, up to the equality of values.
Multiplication is commutative on all values. -/
theorem arithmetic_exact :
    (∀ a b : Decimal,
      (∃ sum, add (.number a) (.number b) = .ok (.number sum) ∧ sum.value = a.value + b.value) ∧
      ∃ product, multiply (.number a) (.number b) = .ok (.number product) ∧
      product.value = a.value * b.value) ∧
    (∀ a b c : Decimal,
      let x := number a
      let y := number b
      let z := number c
      Alike (add x y) (add y x) ∧
      Alike (do add (← add x y) z) (do add x (← add y z)) ∧
      Alike (do multiply (← multiply x y) z) (do multiply x (← multiply y z)) ∧
      Alike (do multiply x (← add y z)) (do add (← multiply x y) (← multiply x z))) ∧
    ∀ v w : Value, Alike (multiply v w) (multiply w v) := by
  refine ⟨fun a b => ⟨⟨a.add b, rfl, Decimal.value_add a b⟩, a.mul b, rfl, Decimal.value_mul a b⟩,
    ?_, multiply_comm⟩
  intro a b c x y z
  -- Numbers never fail, so either side is one number, and the law is that of the rational numbers.
  refine ⟨alike_numbers ?_, alike_numbers ?_, alike_numbers ?_, alike_numbers ?_⟩
  · rw [Decimal.value_add, Decimal.value_add, add_comm]
  · simp only [Decimal.value_add, add_assoc]
  · simp only [Decimal.value_mul, mul_assoc]
  · simp only [Decimal.value_add, Decimal.value_mul, mul_add]

end QueryShell.Value
