import QueryShell.Proofs.Value.Arithmetic
import QueryShell.Proofs.Value.Repetition

/-! Values that are equal are so part by part, and no operator tells them apart: not by the form of
a number, nor by entries of an object that were replaced, nor by the fields of an exception. -/

namespace QueryShell

namespace Value

theorem cmpItems_eq_eq_iff {vs ws : List Value} :
    cmpItems vs ws = .eq ↔ List.Forall₂ (fun v w => v.cmpCanonical w = .eq) vs ws := by
  induction vs generalizing ws with
  | nil => cases ws <;> simp [cmpItems]
  | cons v vs ih => cases ws <;> simp [cmpItems, Ordering.then_eq_eq, ih]

theorem equal_array_iff {vs ws : List Value} :
    (array vs).Equal (array ws) ↔ List.Forall₂ Equal vs ws := by
  rw [Equal, cmp, canonical, canonical, cmpCanonical, cmpItems_eq_eq_iff, canonicalItems_eq_map,
    canonicalItems_eq_map, List.forall₂_map_left_iff, List.forall₂_map_right_iff]
  rfl

/-- The keys are compared before what they hold, so they are the same, one by one, if nothing
differs. -/
theorem cmpCanonical_object_eq_eq_iff {es fs : List (String × Value)} :
    (object es).cmpCanonical (object fs) = .eq ↔
    Dictionary.Matched (fun v w => v.cmpCanonical w = .eq) es fs := by
  rw [cmpCanonical, Ordering.then_eq_eq, cmpEntries_eq_cmpItems, cmpItems_eq_eq_iff,
    Std.LawfulEqCmp.compare_eq_iff_eq]
  induction es generalizing fs with
  | nil => cases fs <;> simp [Dictionary.keys]
  | cons e es ih =>
    cases fs with
    | nil => simp [Dictionary.keys]
    | cons f fs =>
      simp only [List.forall₂_cons, ← ih, Dictionary.keys, List.map_cons, List.cons.injEq]
      exact and_and_and_comm

theorem rel_map_iff {α β : Type} {R : β → β → Prop} {f : α → β} {o o' : Option α} :
    Option.Rel R (o.map f) (o'.map f) ↔ Option.Rel (fun a b => R (f a) (f b)) o o' := by
  cases o <;> cases o' <;> simp

/-- Objects are equal if every key holds equal values in them, or nothing. -/
theorem equal_object_iff {es fs : List (String × Value)} : (object es).Equal (object fs) ↔
    ∀ key, Option.Rel Equal (Dictionary.find? key (Dictionary.ofEntries es))
      (Dictionary.find? key (Dictionary.ofEntries fs)) := by
  have hfound : (∀ key, Option.Rel Equal (Dictionary.find? key (Dictionary.ofEntries es))
        (Dictionary.find? key (Dictionary.ofEntries fs))) ↔
      ∀ key,
        Option.Rel (fun v w => v.cmpCanonical w = .eq) (Dictionary.find? key (canonicalEntries es))
          (Dictionary.find? key (canonicalEntries fs)) := by
    refine forall_congr' fun key => ?_
    rw [Dictionary.find?_ofEntries, Dictionary.find?_ofEntries, find?_canonicalEntries,
      find?_canonicalEntries, rel_map_iff]
    rfl
  rw [hfound, Equal, cmp, canonical, canonical, cmpCanonical_object_eq_eq_iff]
  exact ⟨Dictionary.Matched.find?,
    (sorted_canonicalEntries es).matched (sorted_canonicalEntries fs)⟩

/-- Equal values side by side: of one kind, with equal parts. -/
inductive Corresponds : Value → Value → Prop where
  | exception (name : String) (fields fields' : List (String × Value)) :
    Corresponds (.exception name fields) (.exception name fields')
  | null : Corresponds .null .null
  | boolean (flag : Bool) : Corresponds (.boolean flag) (.boolean flag)
  | number {n n' : Decimal} (h : n.value = n'.value) : Corresponds (.number n) (.number n')
  | string (text : String) : Corresponds (.string text) (.string text)
  | array {items items' : List Value} (h : List.Forall₂ Equal items items') :
    Corresponds (.array items) (.array items')
  | object {entries entries' : List (String × Value)}
    (h : ∀ key, Option.Rel Equal (Dictionary.find? key (Dictionary.ofEntries entries))
      (Dictionary.find? key (Dictionary.ofEntries entries'))) :
      Corresponds (.object entries) (.object entries')

namespace Equal

variable {v w : Value}

theorem kind_eq (h : v.Equal w) : v.kind = w.kind := by
  rw [Equal, cmp, cmpCanonical_eq_then, Ordering.then_eq_eq, Nat.compare_eq_eq, kind_canonical,
    kind_canonical] at h
  have hrank : ∀ j k : Kind, j.rank = k.rank → j = k := by
    intro j k
    cases j <;> cases k <;> decide
  exact hrank _ _ h.1

theorem corresponds (h : v.Equal w) : Corresponds v w := by
  have hkind := h.kind_eq
  cases v with
  | exception name fields =>
    cases w with
    | exception name' fields' =>
      have hsame : compare name name' = .eq := h
      obtain rfl := Std.LawfulEqCmp.eq_of_compare hsame
      exact .exception name fields fields'
    | _ => cases hkind
  | null =>
    cases w with
    | null => exact .null
    | _ => cases hkind
  | boolean flag =>
    cases w with
    | boolean flag' =>
      have hsame : compare flag flag' = .eq := h
      obtain rfl := Std.LawfulEqCmp.eq_of_compare hsame
      exact .boolean flag
    | _ => cases hkind
  | number n =>
    cases w with
    | number n' => exact .number (equal_number_iff.mp h)
    | _ => cases hkind
  | string text =>
    cases w with
    | string text' =>
      have hsame : compare text text' = .eq := h
      obtain rfl := Std.LawfulEqCmp.eq_of_compare hsame
      exact .string text
    | _ => cases hkind
  | array items =>
    cases w with
    | array items' => exact .array (equal_array_iff.mp h)
    | _ => cases hkind
  | object entries =>
    cases w with
    | object entries' => exact .object (equal_object_iff.mp h)
    | _ => cases hkind

theorem sequenceLength?_eq (h : v.Equal w) : v.sequenceLength? = w.sequenceLength? := by
  cases h.corresponds with
  | array hitems => exact congrArg some hitems.length_eq
  | _ => rfl

theorem copies (h : v.Equal w) (times : Nat) : (v.copies times).Equal (w.copies times) := by
  cases h.corresponds with
  | array hitems =>
    refine equal_array_iff.mpr (List.rel_flatten ?_)
    exact List.forall₂_iff_get.mpr ⟨by simp, by simpa using fun _ _ => hitems⟩
  | string text => exact (Std.ReflCmp.compare_self : Value.cmp _ _ = .eq)
  | _ => exact h

end Equal

/-! ### The operators -/

theorem rel_or {α β : Type} {R : α → β → Prop} {o p : Option α} {o' p' : Option β}
    (h : Option.Rel R o o') (h' : Option.Rel R p p') : Option.Rel R (o.or p) (o'.or p') := by
  cases h with
  | none => exact h'
  | some hv => exact .some hv

variable {a a' b b' : Value}

theorem add_congr (ha : a.Equal a') (hb : b.Equal b') : Alike (add a b) (add a' b') := by
  cases ha.corresponds with
  | number hm =>
    cases hb.corresponds with
    | number hn => exact alike_numbers (by rw [Decimal.value_add, Decimal.value_add, hm, hn])
    | _ => exact .error rfl
  | string text =>
    cases hb.corresponds with
    | string text' => exact .refl _
    | _ => exact .error rfl
  | array hvs =>
    cases hb.corresponds with
    | array hws => exact .ok (equal_array_iff.mpr (List.rel_append hvs hws))
    | _ => exact .error rfl
  | object hes =>
    cases hb.corresponds with
    | object hfs =>
      refine .ok (equal_object_iff.mpr fun key => ?_)
      have hsorted (es : List (String × Value)) := Dictionary.sorted_ofEntries es
      rw [Dictionary.ofEntries_of_sorted (Dictionary.sorted_union _ (hsorted _)),
        Dictionary.ofEntries_of_sorted (Dictionary.sorted_union _ (hsorted _)),
        Dictionary.find?_union, Dictionary.find?_union,
        Dictionary.find?_reverse_of_sorted key (hsorted _),
        Dictionary.find?_reverse_of_sorted key (hsorted _)]
      exact rel_or (hfs key) (hes key)
    | _ => exact .error rfl
  | _ => cases hb.corresponds <;> exact .error rfl

/-- How often a number repeats a sequence depends on its value alone. -/
theorem repetitions_congr {n n' : Decimal} (h : n.value = n'.value) :
    repetitions n = repetitions n' := by
  by_cases hinteger : ∃ k : Int, n.value = k
  · obtain ⟨k, hk⟩ := hinteger
    by_cases hsign : k < 0
    · rw [repetitions_of_negative hk hsign, repetitions_of_negative (h ▸ hk) hsign]
    · obtain ⟨k, rfl⟩ := Int.eq_ofNat_of_zero_le (not_lt.mp hsign)
      rw [Int.cast_natCast] at hk
      rw [repetitions_of_natCast hk, repetitions_of_natCast (h ▸ hk)]
  · rw [repetitions_of_fractional hinteger, repetitions_of_fractional (h ▸ hinteger)]

theorem multiply_sequence_congr {n n' : Decimal} {length : Nat} (ha : a.Equal a')
    (hlength : a.sequenceLength? = some length) (hn : n.value = n'.value) :
    Alike (multiply a (.number n)) (multiply a' (.number n')) := by
  rw [(multiply_of_sequenceLength? hlength n).1,
    (multiply_of_sequenceLength? (ha.sequenceLength?_eq ▸ hlength) n').1, repetitions_congr hn]
  cases repetitions n' with
  | error e => exact .refl _
  | ok times =>
    by_cases hfits : length * times ≤ repetitionLimit
    · simp only [bind, Except.bind, if_pos hfits]
      exact .ok (ha.copies times)
    · simp only [bind, Except.bind, if_neg hfits]
      exact .refl _

theorem multiply_congr (ha : a.Equal a') (hb : b.Equal b') :
    Alike (multiply a b) (multiply a' b') := by
  cases ha.corresponds with
  | number hm =>
    cases hb.corresponds with
    | number hn => exact alike_numbers (by rw [Decimal.value_mul, Decimal.value_mul, hm, hn])
    | string text => exact multiply_sequence_congr hb rfl hm
    | array hws => exact multiply_sequence_congr hb rfl hm
    | _ => exact .error rfl
  | string text =>
    cases hb.corresponds with
    | number hn => exact multiply_sequence_congr ha rfl hn
    | _ => exact .error rfl
  | array hvs =>
    cases hb.corresponds with
    | number hn => exact multiply_sequence_congr ha rfl hn
    | _ => exact .error rfl
  | _ => cases hb.corresponds <;> exact .error rfl

theorem pair_congr (ha : a.Equal a') (hb : b.Equal b') : Alike (pair a b) (pair a' b') :=
  .ok (equal_array_iff.mpr (.cons ha (.cons hb .nil)))

end Value

namespace Operator

variable (op : Operator)

theorem apply_congr {a a' b b' : Value} (ha : a.Equal a') (hb : b.Equal b') :
    Value.Alike (op.apply a b) (op.apply a' b') := by
  cases op with
  | add => exact Value.add_congr ha hb
  | multiply => exact Value.multiply_congr ha hb
  | pair => exact Value.pair_congr ha hb

/-- Failures of one name are equal as values. -/
theorem outcome_congr {a a' b b' : Value} (ha : a.Equal a') (hb : b.Equal b') :
    (op.outcome a b).Equal (op.outcome a' b') := by
  have halike := op.apply_congr ha hb
  rw [outcome, outcome]
  generalize op.apply a b = result, op.apply a' b' = result' at halike
  cases halike with
  | ok h => exact h
  | @error e f h =>
    have hsame : compare e.name f.name = .eq := Std.LawfulEqCmp.compare_eq_iff_eq.mpr h
    exact hsame

theorem cyclic_congr {items items' : List Value} (h : List.Forall₂ Value.Equal items items')
    (hne : items ≠ []) (hne' : items' ≠ []) (i : Nat) :
    (cyclic items hne i).Equal (cyclic items' hne' i) := by
  have hpos := List.length_pos_iff.mpr hne
  have hget := h.get (i := i % items.length) (Nat.mod_lt i hpos) (h.length_eq ▸ Nat.mod_lt i hpos)
  simpa only [cyclic, h.length_eq] using hget

theorem pairwise_of_ne_nil {left right : List Value} (hleft : left ≠ []) (hright : right ≠ []) :
    op.pairwise left right = (List.range (max left.length right.length)).map fun i =>
      op.outcome (cyclic left hleft i) (cyclic right hright i) := by
  rw [pairwise, dif_neg hleft, dif_neg hright]

theorem pairwise_nil_left (right : List Value) : op.pairwise [] right = right := dif_pos rfl

theorem pairwise_nil_right (left : List Value) : op.pairwise left [] = left := by
  cases left with
  | nil => rfl
  | cons v vs => rw [pairwise, dif_neg (List.cons_ne_nil v vs), dif_pos rfl]

theorem pairwise_congr {left left' right right' : List Value}
    (hleft : List.Forall₂ Value.Equal left left') (hright : List.Forall₂ Value.Equal right right') :
    List.Forall₂ Value.Equal (op.pairwise left right) (op.pairwise left' right') := by
  by_cases hl : left = []
  · subst hl
    cases hleft
    rw [pairwise_nil_left, pairwise_nil_left]
    exact hright
  · by_cases hr : right = []
    · subst hr
      cases hright
      rw [pairwise_nil_right, pairwise_nil_right]
      exact hleft
    · have hl' : left' ≠ [] := by
        rwa [ne_eq, ← List.length_eq_zero_iff, ← hleft.length_eq, List.length_eq_zero_iff]
      have hr' : right' ≠ [] := by
        rwa [ne_eq, ← List.length_eq_zero_iff, ← hright.length_eq, List.length_eq_zero_iff]
      rw [op.pairwise_of_ne_nil hl hr, op.pairwise_of_ne_nil hl' hr', hleft.length_eq,
        hright.length_eq, List.forall₂_map_left_iff, List.forall₂_map_right_iff, List.forall₂_same]
      intro i _
      exact op.outcome_congr (cyclic_congr hleft hl hl' i) (cyclic_congr hright hr hr' i)

/-- No operator tells equal values apart: on equal operands it yields equal values, or fails with
exceptions of one name. So lists that are equal position by position yield lists that are equal
position by position. -/
theorem respects_equality :
    (∀ a a' b b' : Value, a.Equal a' → b.Equal b' → Value.Alike (op.apply a b) (op.apply a' b')) ∧
    ∀ left left' right right' : List Value, List.Forall₂ Value.Equal left left' →
    List.Forall₂ Value.Equal right right' →
      List.Forall₂ Value.Equal (op.pairwise left right) (op.pairwise left' right') :=
  ⟨fun _ _ _ _ => op.apply_congr, fun _ _ _ _ => op.pairwise_congr⟩

/-- An entry that was replaced, the places of a number and the fields of an exception make no
difference. -/
theorem respects_equality_of_forms :
    let a : Value := .object [("k", .null), ("k", .array [.number ⟨20, 1⟩])]
    let a' : Value := .object [("k", .array [.number ⟨2, 0⟩])]
    let b : Value := .exception "x" [("detail", .null)]
    let b' : Value := .exception "x" []
    a.Equal a' ∧ b.Equal b' ∧
      Value.Alike (Operator.add.apply a b) (Operator.add.apply a' b') ∧
      List.Forall₂ Value.Equal (Operator.pair.pairwise [a, b] [b])
        (Operator.pair.pairwise [a', b'] [b']) := by
  intro a a' b b'
  have ha : a.Equal a' := by decide +kernel
  have hb : b.Equal b' := by decide +kernel
  exact ⟨ha, hb, (respects_equality .add).1 a a' b b' ha hb,
    (respects_equality .pair).2 [a, b] [a', b'] [b] [b'] (.cons ha (.cons hb .nil)) (.cons hb .nil)⟩

end Operator
end QueryShell
