import Mathlib.Algebra.Order.Field.Power
import Mathlib.Data.Rat.Cast.Order
import QueryShell.Proofs.Decimal.Order

/-! The rational number that a decimal number stands for. Whether a number is an integer, and which
one, depends on this value alone: no form of a number is taken for another number. -/

namespace QueryShell.Decimal

open Numeral (powerOfTen powerOfTen_pos powerOfTen_add)

def value (d : Decimal) : ℚ := d.digits * 10 ^ (-d.scale)

variable {d : Decimal}

theorem cast_powerOfTen_toNat {places : Int} (h : 0 ≤ places) :
    (powerOfTen places.toNat : ℚ) = 10 ^ places := by
  rw [Numeral.powerOfTen_eq, Nat.cast_pow, Nat.cast_ofNat, ← zpow_natCast, Int.toNat_of_nonneg h]

theorem value_eq_digitsAt {s : Int} (h : d.scale ≤ s) : d.value = d.digitsAt s * 10 ^ (-s) := by
  rw [value, digitsAt, Int.cast_mul, Int.cast_natCast, cast_powerOfTen_toNat (by omega), mul_assoc,
    ← zpow_add₀ (by norm_num)]
  congr 2
  omega

/-- An integer is met by the digits at a scale at which both have digits. -/
theorem value_eq_intCast_iff {k : Int} :
    d.value = k ↔ d.digitsAt (max d.scale 0) = k * powerOfTen d.scale.toNat := by
  have hplaces : (10 : ℚ) ^ (max d.scale 0) = powerOfTen d.scale.toNat := by
    rw [Numeral.powerOfTen_eq, Nat.cast_pow, Nat.cast_ofNat, ← zpow_natCast, Int.toNat_eq_max]
  have hpos : (powerOfTen d.scale.toNat : ℚ) ≠ 0 := Nat.cast_ne_zero.mpr (powerOfTen_pos _).ne'
  rw [value_eq_digitsAt (le_max_left d.scale 0), zpow_neg, hplaces, ← div_eq_mul_inv,
    div_eq_iff hpos, ← Int.cast_natCast, ← Int.cast_mul, Int.cast_inj]

theorem value_neg_iff : d.value < 0 ↔ d.digits < 0 := by
  have hpower : (0 : ℚ) < 10 ^ (-d.scale) := zpow_pos (by norm_num) _
  rw [value, ← not_le, ← not_le, mul_nonneg_iff_of_pos_right hpower, Int.cast_nonneg_iff]

theorem value_eq_zero_iff : d.value = 0 ↔ d.digits = 0 := by
  have hpower : (10 : ℚ) ^ (-d.scale) ≠ 0 := (zpow_pos (by norm_num) _).ne'
  rw [value, mul_eq_zero, or_iff_left hpower, Int.cast_eq_zero]

/-- The leading digit of an integer stands before the point, and tells how large the integer is at
least. -/
theorem powerOfTen_magnitude_le {k : Int} (h : d.value = k) (hk : k ≠ 0) :
    0 < d.magnitude ∧ powerOfTen (d.magnitude - 1).toNat ≤ k.natAbs := by
  have hdigits : d.digits ≠ 0 := by
    rw [ne_eq, ← value_eq_zero_iff, h, Int.cast_eq_zero]
    exact hk
  have hnat := congrArg Int.natAbs (value_eq_intCast_iff.mp h)
  rw [natAbs_digitsAt, Int.natAbs_mul, Int.natAbs_natCast] at hnat
  have hlength := Numeral.length_pos d.digits.natAbs
  have hbelow := Numeral.lt_powerOfTen_length d.digits.natAbs
  have habove := Numeral.powerOfTen_le (Int.natAbs_pos.mpr hdigits)
  have hpadding := powerOfTen_pos (max d.scale 0 - d.scale).toNat
  have hplaces := powerOfTen_pos d.scale.toNat
  have hmagnitude : 0 < d.magnitude := by
    have hlt : powerOfTen d.scale.toNat <
        powerOfTen (Numeral.length d.digits.natAbs + (max d.scale 0 - d.scale).toNat) :=
      calc powerOfTen d.scale.toNat
          ≤ k.natAbs * powerOfTen d.scale.toNat := Nat.le_mul_of_pos_left _ (Int.natAbs_pos.mpr hk)
        _ = d.digits.natAbs * powerOfTen (max d.scale 0 - d.scale).toNat := hnat.symm
        _ < powerOfTen (Numeral.length d.digits.natAbs) *
            powerOfTen (max d.scale 0 - d.scale).toNat :=
          Nat.mul_lt_mul_of_pos_right hbelow hpadding
        _ = _ := (powerOfTen_add _ _).symm
    have hexponents := (Nat.pow_lt_pow_iff_right (by omega)).mp hlt
    rw [magnitude]
    omega
  refine ⟨hmagnitude, Nat.le_of_mul_le_mul_right ?_ hplaces⟩
  rw [magnitude] at hmagnitude ⊢
  calc powerOfTen (Numeral.length d.digits.natAbs - d.scale - 1).toNat * powerOfTen d.scale.toNat
      = powerOfTen (Numeral.length d.digits.natAbs - 1) *
          powerOfTen (max d.scale 0 - d.scale).toNat := by
        rw [← powerOfTen_add, ← powerOfTen_add]
        congr 1
        omega
    _ ≤ d.digits.natAbs * powerOfTen (max d.scale 0 - d.scale).toNat :=
      Nat.mul_le_mul_right _ habove
    _ = k.natAbs * powerOfTen d.scale.toNat := hnat

theorem isInteger_iff : d.isInteger = true ↔ ∃ k : Int, d.value = k := by
  by_cases hscale : d.scale ≤ 0
  · have hplaces : d.scale.toNat = 0 := by omega
    have hvalue : ∃ k : Int, d.value = k := by
      refine ⟨d.digitsAt (max d.scale 0), value_eq_intCast_iff.mpr ?_⟩
      rw [hplaces, Numeral.powerOfTen_eq, Nat.pow_zero, Nat.cast_one, mul_one]
    simp [isInteger, hscale, hvalue]
  · have hmax : max d.scale 0 = d.scale := by omega
    have hdigits : d.digitsAt (max d.scale 0) = d.digits := by
      rw [hmax, digitsAt, Int.sub_self, Int.toNat_zero, Numeral.powerOfTen_eq, Nat.pow_zero,
        Nat.cast_one, mul_one]
    have hdvd : (∃ k : Int, d.value = k) ↔ (powerOfTen d.scale.toNat : Int) ∣ d.digits := by
      simp only [value_eq_intCast_iff, hdigits, dvd_def, mul_comm]
    rw [hdvd]
    by_cases hzero : d.digits = 0
    · simp [isInteger, hzero]
    · simp only [isInteger, hscale, hzero, decide_false, Bool.false_or, Bool.and_eq_true,
        decide_eq_true_eq, Int.dvd_iff_emod_eq_zero]
      refine and_iff_right_of_imp fun hmod => ?_
      obtain ⟨k, hk⟩ := hdvd.mpr (Int.dvd_iff_emod_eq_zero.mpr hmod)
      refine (powerOfTen_magnitude_le hk ?_).1
      rintro rfl
      exact hzero (value_eq_zero_iff.mp (by rw [hk, Int.cast_zero]))

theorem truncated_of_value {k : Int} (h : d.value = k) : d.truncated = k := by
  by_cases hk : k = 0
  · have hzero : d.digits = 0 := value_eq_zero_iff.mp (by rw [h, hk, Int.cast_zero])
    simp [truncated, hzero, hk]
  · have hdigits : d.digits ≠ 0 := by
      rw [ne_eq, ← value_eq_zero_iff, h, Int.cast_eq_zero]
      exact hk
    have hmagnitude := (powerOfTen_magnitude_le h hk).1
    have hequal := value_eq_intCast_iff.mp h
    have hplaces := powerOfTen_pos d.scale.toNat
    rw [truncated, if_neg (by simp [hdigits, hmagnitude])]
    split
    · next hscale =>
      have hmax : max d.scale 0 = 0 := by omega
      have hnone : d.scale.toNat = 0 := by omega
      simpa [hmax, hnone, digitsAt, Numeral.powerOfTen_eq] using hequal
    · next hscale =>
      have hmax : max d.scale 0 = d.scale := by omega
      have hself : d.digits = k * powerOfTen d.scale.toNat := by
        simpa [hmax, digitsAt, Numeral.powerOfTen_eq] using hequal
      rw [hself, Int.mul_tdiv_cancel _ (by omega)]

/-- A natural number of any form is found if it is not above the limit. -/
theorem toNat?_of_value {k : Nat} (h : d.value = k) (limit : Nat) :
    d.toNat? limit = if k ≤ limit then some k else none := by
  have hint : d.value = (k : Int) := by rw [h, Int.cast_natCast]
  have hsign : ¬ d.digits < 0 := by
    rw [← value_neg_iff, h]
    exact not_lt.mpr (Nat.cast_nonneg k)
  have htruncated : d.truncated.toNat = k := by rw [truncated_of_value hint, Int.toNat_natCast]
  rw [toNat?, if_neg hsign]
  split
  · next hlong =>
    have hlong : d.digits ≠ 0 ∧ (Numeral.length limit : Int) < d.magnitude := by simpa using hlong
    have hk : (k : Int) ≠ 0 := by
      rintro hk
      exact hlong.1 (value_eq_zero_iff.mp (by rw [hint, hk, Int.cast_zero]))
    have hlarge : limit < k :=
      calc limit
          < powerOfTen (Numeral.length limit) := Numeral.lt_powerOfTen_length limit
        _ ≤ powerOfTen (d.magnitude - 1).toNat := Nat.pow_le_pow_right (by omega) (by omega)
        _ ≤ k := (powerOfTen_magnitude_le hint hk).2
    rw [if_neg (by omega)]
  · simp only [htruncated]

end QueryShell.Decimal
