import QueryShell.Proofs.Decimal.Value
import QueryShell.Value.Operator

/-! Sequences times numbers: how many copies there are depends on the value of the number alone, and
no sequence gets longer than the limit. A number beyond all machine counts is refused as if it were
no integer. -/

namespace QueryShell.Value

/-- How many code points a string has, or elements an array. -/
def sequenceLength? : Value → Option Nat
  | .string text => some text.toList.length
  | .array items => some items.length
  | _ => none

/-- So many copies of a sequence in a row. -/
def copies (times : Nat) : Value → Value
  | .string text => .string (String.ofList (List.replicate times text.toList).flatten)
  | .array items => .array (List.replicate times items).flatten
  | v => v

variable {s : Value} {n : Decimal} {length : Nat}

theorem length_flatten_replicate {α : Type} (items : List α) (times : Nat) :
    (List.replicate times items).flatten.length = items.length * times := by
  rw [List.length_flatten, List.map_replicate, List.sum_replicate_nat, Nat.mul_comm]

theorem sequenceLength?_copies (hs : s.sequenceLength? = some length) (times : Nat) :
    (s.copies times).sequenceLength? = some (length * times) := by
  cases s with
  | string text =>
    obtain rfl := Option.some.inj hs
    rw [copies, sequenceLength?, String.toList_ofList, length_flatten_replicate]
  | array items =>
    obtain rfl := Option.some.inj hs
    rw [copies, sequenceLength?, length_flatten_replicate]
  | _ => cases hs

theorem copies_of_length_zero (hs : s.sequenceLength? = some 0) (times : Nat) :
    s.copies times = s.copies 0 := by
  cases s with
  | string text =>
    have htext : text.toList = [] := List.length_eq_zero_iff.mp (Option.some.inj hs)
    rw [copies, copies, htext, List.flatten_replicate_nil, List.replicate_zero, List.flatten_nil]
  | array items =>
    have hitems : items = [] := List.length_eq_zero_iff.mp (Option.some.inj hs)
    rw [copies, copies, hitems, List.flatten_replicate_nil, List.replicate_zero, List.flatten_nil]
  | _ => cases hs

/-! ### Numbers of copies -/

theorem repetitions_of_fractional (h : ¬ ∃ k : Int, n.value = k) :
    repetitions n = .error .notInteger := by
  rw [← Decimal.isInteger_iff, Bool.not_eq_true] at h
  simp [repetitions, h]

theorem repetitions_of_negative {k : Int} (h : n.value = k) (hk : k < 0) :
    repetitions n = .ok 0 := by
  have hinteger := Decimal.isInteger_iff.mpr ⟨k, h⟩
  have hnegative : n.digits < 0 := by
    rw [← Decimal.value_neg_iff, h]
    exact Int.cast_lt_zero.mpr hk
  simp [repetitions, hinteger, Decimal.isNegative, hnegative]

theorem repetitions_of_natCast {k : Nat} (h : n.value = k) :
    repetitions n = if k < 2 ^ 64 then .ok k else .error .notInteger := by
  have hinteger := Decimal.isInteger_iff.mpr ⟨k, by rw [h, Int.cast_natCast]⟩
  have hnegative : ¬ n.digits < 0 := by
    rw [← Decimal.value_neg_iff, h]
    exact not_lt.mpr (Nat.cast_nonneg k)
  have hbound : k ≤ countBound - 1 ↔ k < 2 ^ 64 := by
    rw [countBound]
    omega
  rw [repetitions, hinteger, Decimal.isNegative, decide_eq_false hnegative,
    Decimal.toNat?_of_value h]
  simp only [hbound]
  by_cases hk : k < 2 ^ 64
  · rw [if_pos hk, if_pos hk]
    rfl
  · rw [if_neg hk, if_neg hk]
    rfl

theorem repeated_eq_flatten {α : Type} (items : List α) (times : Nat) :
    repeated items times = (List.replicate times items).flatten := by
  cases items with
  | nil => rw [List.flatten_replicate_nil]; rfl
  | cons item items => rfl

theorem repetitionLimit_eq : repetitionLimit = 2 ^ 24 := rfl

/-- The order of the factors does not matter. -/
theorem multiply_of_sequenceLength? (hs : s.sequenceLength? = some length) (n : Decimal) :
    multiply s (.number n) = (do
      let times ← repetitions n
      if length * times ≤ repetitionLimit then .ok (s.copies times)
      else .error (.tooLong length times)) ∧
    multiply (.number n) s = multiply s (.number n) := by
  cases s with
  | string text =>
    obtain rfl := Option.some.inj hs
    refine ⟨?_, rfl⟩
    rw [multiply, repeatText, repetition]
    cases repetitions n with
    | error e => rfl
    | ok times =>
      simp only [bind, Except.bind, repeated_eq_flatten]
      split <;> rfl
  | array items =>
    obtain rfl := Option.some.inj hs
    refine ⟨?_, rfl⟩
    rw [multiply, repeatItems, repetition]
    cases repetitions n with
    | error e => rfl
    | ok times =>
      simp only [bind, Except.bind, repeated_eq_flatten]
      split <;> rfl
  | _ => cases hs

theorem multiply_of_fractional (hs : s.sequenceLength? = some length)
    (h : ¬ ∃ k : Int, n.value = k) :
    multiply s (.number n) = .error .notInteger := by
  rw [(multiply_of_sequenceLength? hs n).1, repetitions_of_fractional h]
  rfl

theorem multiply_of_negative (hs : s.sequenceLength? = some length) {k : Int} (h : n.value = k)
    (hk : k < 0) :
    multiply s (.number n) = .ok (s.copies 0) := by
  rw [(multiply_of_sequenceLength? hs n).1, repetitions_of_negative h hk]
  rfl

theorem multiply_of_natCast (hs : s.sequenceLength? = some length) {k : Nat} (h : n.value = k)
    (hk : k < 2 ^ 64) :
    multiply s (.number n) =
      if length * k ≤ repetitionLimit then .ok (s.copies k) else .error (.tooLong length k) := by
  rw [(multiply_of_sequenceLength? hs n).1, repetitions_of_natCast h, if_pos hk]
  rfl

theorem multiply_of_uncountable (hs : s.sequenceLength? = some length) {k : Nat} (h : n.value = k)
    (hk : 2 ^ 64 ≤ k) :
    multiply s (.number n) = .error .notInteger := by
  rw [(multiply_of_sequenceLength? hs n).1, repetitions_of_natCast h, if_neg (by omega)]
  rfl

/-- The length of a product is that of the sequence times the number, and never more than the
limit. -/
theorem length_le_of_multiply {r : Value} (hs : s.sequenceLength? = some length)
    (h : multiply s (.number n) = .ok r) :
    ∃ k, r = s.copies k ∧ r.sequenceLength? = some (length * k) ∧ length * k ≤ repetitionLimit := by
  rw [(multiply_of_sequenceLength? hs n).1] at h
  cases hrepetitions : repetitions n with
  | error e =>
    rw [hrepetitions] at h
    cases h
  | ok k =>
    rw [hrepetitions] at h
    replace h :
      (if length * k ≤ repetitionLimit then Except.ok (s.copies k)
        else .error (Exception.tooLong length k)) = .ok r := h
    split at h
    · next hfits =>
      obtain rfl := Except.ok.inj h
      exact ⟨k, rfl, sequenceLength?_copies hs k, hfits⟩
    · cases h

/-! ### The law of repetition -/

/-- What a sequence of some length times a number should give: the number counts by its value,
whatever its form is. -/
structure RepeatsBy (s : Value) (length : Nat) (n : Decimal) (outcome : Except Exception Value) :
    Prop where
  fractional : outcome = .error .notInteger ↔ ¬ ∃ k : Int, n.value = k
  empty : ∀ k : Int, n.value = k → k ≤ 0 ∨ length = 0 → outcome = .ok (s.copies 0)
  full : ∀ k : Nat, n.value = k → length * k ≤ 2 ^ 24 → outcome = .ok (s.copies k)
  tooLong : ∀ k : Nat, n.value = k → 2 ^ 24 < length * k → outcome = .error (.tooLong length k)
  bounded : ∀ r, outcome = .ok r →
    ∃ k, r = s.copies k ∧ r.sequenceLength? = some (length * k) ∧ length * k ≤ 2 ^ 24

theorem tooLong_ne_notInteger (length times : Nat) :
    Exception.tooLong length times ≠ .notInteger := by
  intro h
  have hname : "size" = "integer" := congrArg Exception.name h
  exact absurd hname (by decide)

theorem multiply_ne_notInteger (hs : s.sequenceLength? = some length) {k : Int} (h : n.value = k)
    (hk : k < 2 ^ 64) :
    multiply s (.number n) ≠ .error .notInteger := by
  by_cases hsign : k < 0
  · rw [multiply_of_negative hs h hsign]
    rintro ⟨⟩
  · obtain ⟨k, rfl⟩ := Int.eq_ofNat_of_zero_le (not_lt.mp hsign)
    rw [multiply_of_natCast hs (by rw [h, Int.cast_natCast]) (by exact_mod_cast hk)]
    split
    · rintro ⟨⟩
    · exact fun herror => tooLong_ne_notInteger _ _ (Except.error.inj herror)

/-- Numbers below the bound of machine counts keep the law. -/
theorem repeatsBy_multiply (hs : s.sequenceLength? = some length)
    (hn : ∀ k : Nat, n.value = k → k < 2 ^ 64) :
    s.RepeatsBy length n (multiply s (.number n)) where
  fractional := by
    refine ⟨fun herror => ?_, multiply_of_fractional hs⟩
    rintro ⟨k, hk⟩
    refine multiply_ne_notInteger hs hk ?_ herror
    by_contra hlarge
    obtain ⟨k, rfl⟩ := Int.eq_ofNat_of_zero_le (show 0 ≤ k by omega)
    have hbelow := hn k (by rw [hk, Int.cast_natCast])
    omega
  empty := by
    intro k hk hnone
    by_cases hsign : k < 0
    · exact multiply_of_negative hs hk hsign
    · obtain ⟨k, rfl⟩ := Int.eq_ofNat_of_zero_le (not_lt.mp hsign)
      have hk : n.value = k := by rw [hk, Int.cast_natCast]
      rw [multiply_of_natCast hs hk (hn k hk)]
      obtain hzero | rfl := hnone
      · obtain rfl : k = 0 := by omega
        rw [if_pos (by simp)]
      · rw [if_pos (by simp), copies_of_length_zero hs]
  full := by
    intro k hk hfits
    rw [multiply_of_natCast hs hk (hn k hk), repetitionLimit_eq, if_pos hfits]
  tooLong := by
    intro k hk hlong
    rw [multiply_of_natCast hs hk (hn k hk), repetitionLimit_eq, if_neg (not_le.mpr hlong)]
  bounded := fun _ => length_le_of_multiply hs

/-- In either order, a sequence times a number keeps the law unless the number is an integer beyond
all machine counts, and then the product fails as if the number were no integer. -/
theorem repeatsBy_multiply_iff (hs : s.sequenceLength? = some length) (n : Decimal) :
    (s.RepeatsBy length n (multiply s (.number n)) ∧ s.RepeatsBy length n (multiply (.number n) s) ↔
      ∀ k : Nat, n.value = k → k < 2 ^ 64) ∧
    ∀ k : Nat, n.value = k → 2 ^ 64 ≤ k →
      multiply s (.number n) = .error .notInteger ∧
      multiply (.number n) s = .error .notInteger := by
  rw [(multiply_of_sequenceLength? hs n).2, and_self]
  refine ⟨⟨fun hlaw k hk => ?_, repeatsBy_multiply hs⟩, fun k hk hlarge => ?_⟩
  · by_contra hlarge
    refine hlaw.fractional.mp (multiply_of_uncountable hs hk (not_lt.mp hlarge)) ⟨k, ?_⟩
    rw [hk, Int.cast_natCast]
  · rw [and_self]
    exact multiply_of_uncountable hs hk hlarge

theorem repeatsBy_multiply_thirty_tenths :
    (Value.string "ab").sequenceLength? = some 2 ∧
    ((Value.string "ab").RepeatsBy 2 ⟨30, 1⟩ (multiply (.string "ab") (.number ⟨30, 1⟩)) ∧
      (Value.string "ab").RepeatsBy 2 ⟨30, 1⟩ (multiply (.number ⟨30, 1⟩) (.string "ab"))) ∧
    multiply (.string "ab") (.number ⟨30, 1⟩) = .ok (.string "ababab") := by
  have hvalue : Decimal.value ⟨30, 1⟩ = (3 : Nat) := by norm_num [Decimal.value]
  have hlaw := (repeatsBy_multiply_iff (s := .string "ab") rfl ⟨30, 1⟩).1.mpr (by
    intro k hk
    obtain rfl : (3 : Nat) = k := by exact_mod_cast hvalue.symm.trans hk
    decide)
  refine ⟨rfl, hlaw, ?_⟩
  rw [hlaw.1.full 3 hvalue (by decide)]
  rfl

/-- No copies of anything are wanted of an empty string, and far too many of any other. -/
theorem not_repeatsBy_uncountable :
    ¬ (Value.string "").RepeatsBy 0 ⟨2 ^ 64, 0⟩ (multiply (.string "") (.number ⟨2 ^ 64, 0⟩)) ∧
    ¬ (Value.string "ab").RepeatsBy 2 ⟨2 ^ 64, 0⟩
      (multiply (.string "ab") (.number ⟨2 ^ 64, 0⟩)) := by
  have hvalue : Decimal.value ⟨2 ^ 64, 0⟩ = (2 ^ 64 : Nat) := by norm_num [Decimal.value]
  have hinteger : ∃ k : Int, Decimal.value ⟨2 ^ 64, 0⟩ = k := ⟨2 ^ 64, by norm_num [Decimal.value]⟩
  exact ⟨fun hlaw => hlaw.fractional.mp (multiply_of_uncountable rfl hvalue le_rfl) hinteger,
    fun hlaw => hlaw.fractional.mp (multiply_of_uncountable rfl hvalue le_rfl) hinteger⟩

end QueryShell.Value
