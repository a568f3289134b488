import Mathlib.Data.List.Basic
import Mathlib.Data.List.Induction
import Mathlib.Data.List.TakeDrop
import Mathlib.Tactic.Ring
import QueryShell.Decimal.Numeral

/-! Numerals and the numbers they stand for: writing and reading back, and how long a numeral is. -/

namespace QueryShell.Numeral

theorem powerOfTen_eq (n : Nat) : powerOfTen n = 10 ^ n := rfl

theorem powerOfTen_pos (n : Nat) : 0 < powerOfTen n := Nat.pow_pos (by omega)

theorem powerOfTen_add (m n : Nat) : powerOfTen (m + n) = powerOfTen m * powerOfTen n :=
  Nat.pow_add 10 m n

theorem powerOfTen_succ (n : Nat) : powerOfTen (n + 1) = 10 * powerOfTen n := Nat.pow_succ'

theorem write_of_lt {n : Nat} (h : n < 10) : write n = [digitChar n] := by
  rw [write, if_pos h]

theorem write_of_le {n : Nat} (h : 10 ≤ n) : write n = write (n / 10) ++ [digitChar (n % 10)] := by
  rw [write, if_neg (by omega)]

/-- Digit by digit, the last one first. -/
@[elab_as_elim]
theorem induction {motive : Nat → Prop} (digit : ∀ n, n < 10 → motive n)
    (more : ∀ n, 10 ≤ n → motive (n / 10) → motive n) (n : Nat) : motive n := by
  induction n using Nat.strong_induction_on with
  | _ n ih =>
    by_cases h : n < 10
    · exact digit n h
    · exact more n (by omega) (ih (n / 10) (by omega))

theorem toNat_digitChar {d : Nat} (h : d < 10) : (digitChar d).toNat = 48 + d := by
  revert d
  decide

theorem isDigit_iff {c : Char} : isDigit c = true ↔ 48 ≤ c.toNat ∧ c.toNat ≤ 57 := by
  simp only [isDigit, Bool.and_eq_true, decide_eq_true_eq]
  exact Iff.rfl

theorem isDigit_digitChar {d : Nat} (h : d < 10) : isDigit (digitChar d) = true := by
  rw [isDigit_iff, toNat_digitChar h]
  omega

theorem digitValue_digitChar {d : Nat} (h : d < 10) : digitValue (digitChar d) = d := by
  rw [digitValue, toNat_digitChar h]
  omega

theorem digitChar_ne_zero {d : Nat} (h : d < 10) (hpos : 0 < d) : digitChar d ≠ '0' := by
  intro heq
  have hnat := congrArg Char.toNat heq
  rw [toNat_digitChar h] at hnat
  have hzero : '0'.toNat = 48 := rfl
  omega

theorem isDigit_of_mem_write {n : Nat} {c : Char} (h : c ∈ write n) : isDigit c = true := by
  induction n using induction with
  | digit n hn =>
    rw [write_of_lt hn, List.mem_singleton] at h
    exact h ▸ isDigit_digitChar hn
  | more n hn ih =>
    rw [write_of_le hn, List.mem_append, List.mem_singleton] at h
    rcases h with h | rfl
    · exact ih h
    · exact isDigit_digitChar (Nat.mod_lt n (by omega))

theorem write_ne_nil (n : Nat) : write n ≠ [] := by
  induction n using induction with
  | digit n hn => simp [write_of_lt hn]
  | more n hn ih => simp [write_of_le hn]

/-- Numerals as the language of the proofs has them. -/
theorem write_eq_toDigits (n : Nat) : write n = Nat.toDigits 10 n := by
  have hdigit : ∀ d < 10, digitChar d = Nat.digitChar d := by decide
  induction n using induction with
  | digit n hn => rw [write_of_lt hn, Nat.toDigits_of_lt_base hn, hdigit n hn]
  | more n hn ih =>
    rw [write_of_le hn, Nat.toDigits_of_base_le (by omega) hn, ih,
      hdigit (n % 10) (Nat.mod_lt n (by omega))]

theorem length_pos (n : Nat) : 0 < length n := List.length_pos_iff.mpr (write_ne_nil n)

theorem head?_write_ne_zero {n : Nat} (h : 0 < n) : (write n).head? ≠ some '0' := by
  induction n using induction with
  | digit n hn =>
    rw [write_of_lt hn]
    simpa using digitChar_ne_zero hn h
  | more n hn ih =>
    rw [write_of_le hn, List.head?_append_of_ne_nil _ (write_ne_nil _)]
    exact ih (by omega)

theorem value_append (first second : List Char) :
    value (first ++ second) = value first * 10 ^ second.length + value second := by
  induction second using List.reverseRecOn with
  | nil => simp [value]
  | append_singleton second c ih =>
    have hlast : ∀ cs, value (cs ++ [c]) = 10 * value cs + digitValue c := fun cs => by
      simp [value]
    rw [← List.append_assoc, hlast, hlast, ih, List.length_append, List.length_singleton]
    ring

theorem value_singleton (c : Char) : value [c] = digitValue c := by simp [value]

theorem value_replicate_zero (n : Nat) : value (List.replicate n '0') = 0 := by
  induction n with
  | zero => rfl
  | succ n ih =>
    have hdigit : digitValue '0' = 0 := rfl
    rw [List.replicate_succ, ← List.singleton_append, value_append, ih, value_singleton, hdigit]
    omega

theorem value_write (n : Nat) : value (write n) = n := by
  induction n using induction with
  | digit n hn => rw [write_of_lt hn, value_singleton, digitValue_digitChar hn]
  | more n hn ih =>
    rw [write_of_le hn, value_append, value_singleton,
      digitValue_digitChar (Nat.mod_lt n (by omega)), ih, List.length_singleton]
    omega

theorem lt_powerOfTen_length (n : Nat) : n < powerOfTen (length n) := by
  induction n using induction with
  | digit n hn => simpa [length, write_of_lt hn, powerOfTen_eq] using hn
  | more n hn ih =>
    have hlength : length n = length (n / 10) + 1 := by simp [length, write_of_le hn]
    rw [hlength, powerOfTen_succ]
    omega

theorem powerOfTen_le {n : Nat} (h : 0 < n) : powerOfTen (length n - 1) ≤ n := by
  induction n using induction with
  | digit n hn =>
    have hlength : length n = 1 := by simp [length, write_of_lt hn]
    rw [hlength]
    exact h
  | more n hn ih =>
    have hlength : length n - 1 = length (n / 10) - 1 + 1 := by
      have hpos := length_pos (n / 10)
      have hmore : length n = length (n / 10) + 1 := by simp [length, write_of_le hn]
      omega
    rw [hlength, powerOfTen_succ]
    have hshorter := ih (by omega)
    omega

theorem span_append {p : Char → Bool} {cs rest : List Char} (hcs : ∀ c ∈ cs, p c = true)
    (hrest : ∀ c ∈ rest.head?, p c = false) : (cs ++ rest).span p = (cs, rest) := by
  rw [List.span_eq_takeWhile_dropWhile, List.takeWhile_append_of_pos hcs,
    List.dropWhile_append_of_pos hcs]
  cases rest with
  | nil => rw [List.takeWhile_nil, List.dropWhile_nil, List.append_nil]
  | cons c rest =>
    have hc : ¬ p c = true := by simpa using hrest c rfl
    rw [List.takeWhile_cons_of_neg hc, List.dropWhile_cons_of_neg hc, List.append_nil]

theorem write_mul_powerOfTen {n : Nat} (h : 0 < n) (zeros : Nat) :
    write (n * powerOfTen zeros) = write n ++ List.replicate zeros '0' := by
  induction zeros with
  | zero => rw [powerOfTen_eq, Nat.pow_zero, Nat.mul_one, List.replicate_zero, List.append_nil]
  | succ zeros ih =>
    have hpos := Nat.mul_pos h (powerOfTen_pos zeros)
    have hsplit : n * powerOfTen (zeros + 1) = n * powerOfTen zeros * 10 := by
      rw [powerOfTen_succ]
      ring
    have hzero : digitChar 0 = '0' := rfl
    rw [hsplit, write_of_le (by omega), Nat.mul_div_cancel _ (by omega), Nat.mul_mod_left, ih,
      hzero, List.append_assoc, List.replicate_succ']

theorem ne_of_isDigit {c d : Char} (h : isDigit c = true) (hd : isDigit d = false) : c ≠ d := by
  rintro rfl
  rw [h] at hd
  cases hd

end QueryShell.Numeral
