import QueryShell.Proofs.Decimal.Value

/-! Sums and products of decimal numbers are exact. The forms that a result takes when an operand is
zero or one have the same value as the digits that would be worked out at a common scale. -/

namespace QueryShell.Decimal

/-- More places than a number has do not change its value. -/
theorem value_digitsAt {d : Decimal} {s : Int} (h : d.scale ≤ s) :
    value ⟨d.digitsAt s, s⟩ = d.value :=
  (value_eq_digitsAt h).symm

theorem value_widen (d : Decimal) (s : Int) : (d.widen s).value = d.value := by
  have hzeros : 0 ≤ min zeroPadding (max 0 (s - d.scale)) := le_min (by decide) (le_max_left 0 _)
  exact value_digitsAt (by omega)

theorem value_add (a b : Decimal) : (a.add b).value = a.value + b.value := by
  by_cases hb : b.digits = 0
  · rw [add, if_pos hb, value_widen, value_eq_zero_iff.mpr hb, add_zero]
  · by_cases ha : a.digits = 0
    · rw [add, if_neg hb, if_pos ha, value_widen, value_eq_zero_iff.mpr ha, zero_add]
    · rw [add, if_neg hb, if_neg ha, value_eq_digitsAt (le_max_left a.scale b.scale),
        value_eq_digitsAt (le_max_right a.scale b.scale), ← add_mul, ← Int.cast_add]
      rfl

/-- A number without its last digit has the same value if that digit is zero. -/
theorem value_dropZero {d : Decimal} (h : d.digits % 10 = 0) :
    value ⟨d.digits / 10, d.scale - 1⟩ = d.value := by
  have hplaces : d.scale - (d.scale - 1) = 1 := by omega
  have hdigits : digitsAt ⟨d.digits / 10, d.scale - 1⟩ d.scale = d.digits := by
    rw [digitsAt, hplaces]
    exact Int.ediv_mul_cancel (Int.dvd_of_emod_eq_zero h)
  rw [← value_digitsAt (show d.scale - 1 ≤ d.scale by omega), hdigits]

theorem value_normalized (d : Decimal) : d.normalized.value = d.value := by
  fun_induction normalized d with
  | case1 d hzero => exact (value_eq_zero_iff.mpr rfl).trans (value_eq_zero_iff.mpr hzero).symm
  | case2 d _ hlast ih => exact ih.trans (value_dropZero hlast)
  | case3 => rfl

theorem value_of_isOne {d : Decimal} (h : d.isOne = true) : d.value = 1 := by
  simp only [isOne, Bool.and_eq_true, decide_eq_true_eq] at h
  obtain ⟨⟨hscale, _⟩, hdigits⟩ := h
  rw [value, hdigits, Int.cast_natCast, cast_powerOfTen_toNat hscale, ← zpow_add₀ (by norm_num),
    add_neg_cancel, zpow_zero]

theorem value_mul (a b : Decimal) : (a.mul b).value = a.value * b.value := by
  by_cases ha : a.isOne = true
  · rw [mul, if_pos ha, value_normalized, value_of_isOne ha, one_mul]
  · by_cases hb : b.isOne = true
    · rw [mul, if_neg ha, if_pos hb, value_normalized, value_of_isOne hb, mul_one]
    · rw [mul, if_neg ha, if_neg hb, value, value, value, neg_add, zpow_add₀ (by norm_num),
        Int.cast_mul]
      ring

/-- Two forms compare as equal if they are forms of one number. -/
theorem cmp_eq_eq_iff {a b : Decimal} : a.cmp b = .eq ↔ a.value = b.value := by
  have hpower : (10 : ℚ) ^ (-max a.scale b.scale) ≠ 0 := zpow_ne_zero _ (by norm_num)
  rw [cmp_eq_compare (le_max_left a.scale b.scale) (le_max_right a.scale b.scale),
    Int.compare_eq_eq, value_eq_digitsAt (le_max_left a.scale b.scale),
    value_eq_digitsAt (le_max_right a.scale b.scale),
    mul_left_inj' hpower, Int.cast_inj]

theorem cmp_eq_lt_iff {a b : Decimal} : a.cmp b = .lt ↔ a.value < b.value := by
  have hpower : (0 : ℚ) < 10 ^ (-max a.scale b.scale) := zpow_pos (by norm_num) _
  rw [cmp_eq_compare (le_max_left a.scale b.scale) (le_max_right a.scale b.scale),
    Int.compare_eq_lt, value_eq_digitsAt (le_max_left a.scale b.scale),
    value_eq_digitsAt (le_max_right a.scale b.scale),
    mul_lt_mul_iff_left₀ hpower, Int.cast_lt]

theorem value_ofNat (n : Nat) : (ofNat n).value = n := by
  simp [value, ofNat]

/-- The next natural number keeps the form, also behind zero, which takes places from the other
operand. -/
theorem ofNat_add_one (n : Nat) : (ofNat n).add (ofNat 1) = ofNat (n + 1) := by
  cases n with
  | zero => rfl
  | succ n =>
    have hdigits : ∀ m : Nat, (ofNat m).digitsAt 0 = m :=
      fun m => by simp [digitsAt, ofNat, Numeral.powerOfTen_eq]
    have hone : (ofNat 1).digits ≠ 0 := by decide
    have hself : (ofNat (n + 1)).digits ≠ 0 := by simp [ofNat]; omega
    have hscale : max (ofNat (n + 1)).scale (ofNat 1).scale = 0 := rfl
    rw [add, if_neg hone, if_neg hself, hscale]
    dsimp only
    rw [hdigits, hdigits]
    rfl

end QueryShell.Decimal
