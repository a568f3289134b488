import Mathlib.Order.Compare
import Mathlib.Tactic.Linarith
import QueryShell.Decimal.Basic
import QueryShell.Proofs.Decimal.Numeral

/-! The order of decimal numbers is that of their digits at a common scale, so it heeds the value
alone. -/

namespace QueryShell.Decimal

open Numeral (powerOfTen powerOfTen_pos powerOfTen_add)

theorem digitsAt_eq_mul {d : Decimal} {s t : Int} (hs : d.scale ≤ s) (ht : s ≤ t) :
    d.digitsAt t = d.digitsAt s * powerOfTen (t - s).toNat := by
  have hplaces : (t - d.scale).toNat = (s - d.scale).toNat + (t - s).toNat := by omega
  rw [digitsAt, digitsAt, hplaces, powerOfTen_add, Nat.cast_mul, Int.mul_assoc]

theorem natAbs_digitsAt (d : Decimal) (s : Int) :
    (d.digitsAt s).natAbs = d.digits.natAbs * powerOfTen (s - d.scale).toNat := by
  rw [digitsAt, Int.natAbs_mul, Int.natAbs_natCast]

theorem sign_digitsAt (d : Decimal) (s : Int) : (d.digitsAt s).sign = d.digits.sign := by
  have hpos := powerOfTen_pos (s - d.scale).toNat
  rw [digitsAt, Int.sign_mul, Int.sign_natCast_of_ne_zero (by omega), Int.mul_one]

/-- The leading digit decides when it stands at different positions. -/
theorem natAbs_digitsAt_lt {a b : Decimal} (hb : b.digits ≠ 0) {s : Int} (has : a.scale ≤ s)
    (hbs : b.scale ≤ s) (h : a.magnitude < b.magnitude) :
    (a.digitsAt s).natAbs < (b.digitsAt s).natAbs := by
  rw [natAbs_digitsAt, natAbs_digitsAt]
  have hbpos : 0 < b.digits.natAbs := by omega
  have hlength := Numeral.length_pos b.digits.natAbs
  have hplaces : Numeral.length a.digits.natAbs + (s - a.scale).toNat ≤
      Numeral.length b.digits.natAbs - 1 + (s - b.scale).toNat := by
    unfold magnitude at h
    omega
  calc a.digits.natAbs * powerOfTen (s - a.scale).toNat
      < powerOfTen (Numeral.length a.digits.natAbs) * powerOfTen (s - a.scale).toNat :=
        Nat.mul_lt_mul_of_pos_right (Numeral.lt_powerOfTen_length _) (powerOfTen_pos _)
    _ = powerOfTen (Numeral.length a.digits.natAbs + (s - a.scale).toNat) :=
      (powerOfTen_add _ _).symm
    _ ≤ powerOfTen (Numeral.length b.digits.natAbs - 1 + (s - b.scale).toNat) :=
        Nat.pow_le_pow_right (by omega) hplaces
    _ = powerOfTen (Numeral.length b.digits.natAbs - 1) * powerOfTen (s - b.scale).toNat :=
      powerOfTen_add _ _
    _ ≤ b.digits.natAbs * powerOfTen (s - b.scale).toNat :=
        Nat.mul_le_mul_right _ (Numeral.powerOfTen_le hbpos)

theorem compare_mul_right (x y : Nat) {k : Nat} (hk : 0 < k) :
    compare (x * k) (y * k) = compare x y := by
  rcases Nat.lt_trichotomy x y with h | rfl | h
  · rw [Nat.compare_eq_lt.mpr h, Nat.compare_eq_lt.mpr (Nat.mul_lt_mul_of_pos_right h hk)]
  · rw [Nat.compare_eq_eq.mpr rfl, Nat.compare_eq_eq.mpr rfl]
  · rw [Nat.compare_eq_gt.mpr h, Nat.compare_eq_gt.mpr (Nat.mul_lt_mul_of_pos_right h hk)]

theorem cmpMagnitude_eq_compare {a b : Decimal} (ha : a.digits ≠ 0) (hb : b.digits ≠ 0) {s : Int}
    (has : a.scale ≤ s) (hbs : b.scale ≤ s) :
    a.cmpMagnitude b = compare (a.digitsAt s).natAbs (b.digitsAt s).natAbs := by
  unfold cmpMagnitude
  rcases Int.lt_trichotomy a.magnitude b.magnitude with h | h | h
  · rw [Int.compare_eq_lt.mpr h, Nat.compare_eq_lt.mpr (natAbs_digitsAt_lt hb has hbs h)]
    rfl
  · have haligned : ∀ d : Decimal, d.scale ≤ max a.scale b.scale →
        (d.digitsAt s).natAbs =
          (d.digitsAt (max a.scale b.scale)).natAbs *
            powerOfTen (s - max a.scale b.scale).toNat := by
      intro d hd
      rw [digitsAt_eq_mul hd (by omega), Int.natAbs_mul, Int.natAbs_natCast]
    rw [Int.compare_eq_eq.mpr h, haligned a (by omega), haligned b (by omega),
      compare_mul_right _ _ (powerOfTen_pos _)]
    rfl
  · rw [Int.compare_eq_gt.mpr h, Nat.compare_eq_gt.mpr (natAbs_digitsAt_lt ha hbs has h)]
    rfl

theorem compare_natAbs {x y u v : Int} (hlt : x < y ↔ u.natAbs < v.natAbs)
    (hgt : y < x ↔ v.natAbs < u.natAbs) :
    compare u.natAbs v.natAbs = compare x y := by
  rcases Int.lt_trichotomy x y with h | rfl | h
  · rw [Int.compare_eq_lt.mpr h, Nat.compare_eq_lt.mpr (hlt.mp h)]
  · rw [Int.compare_eq_eq.mpr rfl, Nat.compare_eq_eq]
    omega
  · rw [Int.compare_eq_gt.mpr h, Nat.compare_eq_gt.mpr (hgt.mp h)]

theorem sign_cases (x : Int) :
    (0 < x ∧ x.sign = 1) ∨ (x = 0 ∧ x.sign = 0) ∨ (x < 0 ∧ x.sign = -1) := by
  rcases Int.lt_trichotomy x 0 with h | h | h
  · exact .inr (.inr ⟨h, Int.sign_eq_neg_one_of_neg h⟩)
  · exact .inr (.inl ⟨h, Int.sign_eq_zero_iff_zero.mpr h⟩)
  · exact .inl ⟨h, Int.sign_eq_one_of_pos h⟩

theorem compare_eq_sign_then (x y : Int) :
    compare x y = (compare x.sign y.sign).then
      (if x = 0 then .eq else if 0 < x then compare x.natAbs y.natAbs
        else compare y.natAbs x.natAbs) := by
  have hx := sign_cases x
  have hy := sign_cases y
  rcases Int.lt_trichotomy x.sign y.sign with h | h | h
  · rw [Int.compare_eq_lt.mpr h, Int.compare_eq_lt.mpr (by omega)]
    rfl
  · rw [Int.compare_eq_eq.mpr h, Ordering.then]
    split_ifs with hzero hpos
    · exact Int.compare_eq_eq.mpr (by omega)
    · exact (compare_natAbs (by omega) (by omega)).symm
    · exact (compare_natAbs (by omega) (by omega)).symm
  · rw [Int.compare_eq_gt.mpr h, Int.compare_eq_gt.mpr (by omega)]
    rfl

/-- Two numbers compare as their digits do at any scale at which both have digits. -/
theorem cmp_eq_compare {a b : Decimal} {s : Int} (has : a.scale ≤ s) (hbs : b.scale ≤ s) :
    a.cmp b = compare (a.digitsAt s) (b.digitsAt s) := by
  have hzero : a.digitsAt s = 0 ↔ a.digits = 0 := by
    rw [← Int.sign_eq_zero_iff_zero, sign_digitsAt, Int.sign_eq_zero_iff_zero]
  have hpos : 0 < a.digitsAt s ↔ 0 < a.digits := by
    rw [← Int.sign_eq_one_iff_pos, sign_digitsAt, Int.sign_eq_one_iff_pos]
  rw [compare_eq_sign_then, sign_digitsAt, sign_digitsAt, cmp]
  simp only [hzero, hpos]
  by_cases hsign : a.digits.sign = b.digits.sign
  · by_cases ha : a.digits = 0
    · simp only [if_pos ha]
    · have hb : b.digits ≠ 0 :=
        fun h => ha (by rwa [h, Int.sign_zero, Int.sign_eq_zero_iff_zero] at hsign)
      simp only [if_neg ha, cmpMagnitude_eq_compare ha hb has hbs,
        cmpMagnitude_eq_compare hb ha hbs has]
  · have hne : compare a.digits.sign b.digits.sign ≠ .eq := fun h => hsign (Int.compare_eq_eq.mp h)
    cases hcmp : compare a.digits.sign b.digits.sign with
    | eq => exact absurd hcmp hne
    | lt => rfl
    | gt => rfl

instance : Std.OrientedCmp Decimal.cmp where
  eq_swap {a b} := by
    rw [cmp_eq_compare (le_max_left a.scale b.scale) (le_max_right _ _),
      cmp_eq_compare (le_max_right a.scale b.scale) (le_max_left _ _)]
    exact Std.OrientedCmp.eq_swap

instance : Std.TransCmp Decimal.cmp where
  isLE_trans {a b c} hab hbc := by
    have ha : a.scale ≤ max a.scale (max b.scale c.scale) := by omega
    have hb : b.scale ≤ max a.scale (max b.scale c.scale) := by omega
    have hc : c.scale ≤ max a.scale (max b.scale c.scale) := by omega
    rw [cmp_eq_compare ha hb] at hab
    rw [cmp_eq_compare hb hc] at hbc
    rw [cmp_eq_compare ha hc]
    exact Std.TransCmp.isLE_trans hab hbc

end QueryShell.Decimal
