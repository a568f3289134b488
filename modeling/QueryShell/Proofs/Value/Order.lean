import QueryShell.Proofs.Decimal.Order
import QueryShell.Proofs.Value.Canonical
import QueryShell.Value.Order

/-! The order of values is total and transitive, up to the equality that it defines itself. -/

namespace QueryShell

/-- The outcomes of comparing a first thing with a second, the second with a third, and the first
with the third, as an order allows them together. -/
def Coherent : Ordering → Ordering → Ordering → Prop
  | .eq, o, o' => o = o'
  | o, .eq, o' => o = o'
  | .lt, .lt, o' => o' = .lt
  | .gt, .gt, o' => o' = .gt
  | _, _, _ => True

namespace Coherent

theorem of_transCmp {α : Type} (cmp : α → α → Ordering) [Std.TransCmp cmp] (a b c : α) :
    Coherent (cmp a b) (cmp b c) (cmp a c) := by
  cases hab : cmp a b with
  | eq => exact (Std.TransCmp.congr_left hab).symm
  | lt =>
    cases hbc : cmp b c with
    | eq => exact hab.symm.trans (Std.TransCmp.congr_right hbc)
    | lt => exact Std.TransCmp.lt_trans hab hbc
    | gt => trivial
  | gt =>
    cases hbc : cmp b c with
    | eq => exact hab.symm.trans (Std.TransCmp.congr_right hbc)
    | lt => trivial
    | gt => exact Std.TransCmp.gt_trans hab hbc

/-- Where a first comparison finds all three equal, a second one decides. -/
theorem lexicographic {ab bc ac ab' bc' ac' : Ordering} (h : Coherent ab bc ac)
    (h' : ab = .eq → bc = .eq → Coherent ab' bc' ac') :
    Coherent (ab.then ab') (bc.then bc') (ac.then ac') := by
  cases ab with
  | eq =>
    obtain rfl : bc = ac := h
    cases bc with
    | eq => exact h' rfl rfl
    | lt => cases ab' <;> trivial
    | gt => cases ab' <;> trivial
  | lt =>
    cases bc with
    | eq =>
      obtain rfl : .lt = ac := h
      cases bc' <;> trivial
    | lt =>
      obtain rfl : ac = .lt := h
      rfl
    | gt => trivial
  | gt =>
    cases bc with
    | eq =>
      obtain rfl : .gt = ac := h
      cases bc' <;> trivial
    | lt => trivial
    | gt =>
      obtain rfl : ac = .gt := h
      rfl

theorem eq_swap {ab ba : Ordering} (h : Coherent ab ba .eq) : ab = ba.swap := by
  cases ab <;> cases ba <;> first | rfl | cases h

theorem isLE_trans {ab bc ac : Ordering} (h : Coherent ab bc ac) (hab : ab.isLE = true)
    (hbc : bc.isLE = true) :
    ac.isLE = true := by
  cases ab with
  | eq =>
    obtain rfl : bc = ac := h
    exact hbc
  | lt =>
    cases bc with
    | eq =>
      obtain rfl : .lt = ac := h
      rfl
    | lt =>
      obtain rfl : ac = .lt := h
      rfl
    | gt => cases hbc
  | gt => cases hab

end Coherent

namespace Value

theorem cmpCanonical_eq_then (a b : Value) :
    a.cmpCanonical b = (compare a.kind.rank b.kind.rank).then (a.cmpCanonical b) := by
  cases a <;> cases b <;> rfl

theorem cmpEntries_eq_cmpItems (es fs : List (String × Value)) :
    cmpEntries es fs = cmpItems (es.map Prod.snd) (fs.map Prod.snd) := by
  induction es generalizing fs with
  | nil => cases fs <;> rfl
  | cons e es ih =>
    cases fs with
    | nil => rfl
    | cons f fs => rw [cmpEntries, ih, List.map_cons, List.map_cons, cmpItems]

theorem cmpItems_self {vs : List Value} (h : ∀ v ∈ vs, v.cmpCanonical v = .eq) :
    cmpItems vs vs = .eq := by
  induction vs with
  | nil => rfl
  | cons v vs ih =>
    obtain ⟨hv, hvs⟩ := List.forall_mem_cons.mp h
    rw [cmpItems, hv, ih hvs]
    rfl

theorem cmpCanonical_self (v : Value) : v.cmpCanonical v = .eq := by
  induction v using Value.induction with
  | exception name fields _ => exact Std.ReflOrd.compare_self (a := name)
  | null => rfl
  | boolean flag => exact Std.ReflOrd.compare_self (a := flag)
  | number n => exact (Std.ReflCmp.compare_self : n.cmp n = .eq)
  | string text => exact Std.ReflOrd.compare_self (a := text)
  | array items ih => exact cmpItems_self ih
  | object entries ih =>
    have hkeys : compare (Dictionary.keys entries) (Dictionary.keys entries) = .eq :=
      Std.ReflOrd.compare_self
    rw [cmpCanonical, cmpEntries_eq_cmpItems, hkeys, cmpItems_self (List.forall_mem_map.mpr ih)]
    rfl

/-- What holds of any two other values of the same kind holds of any two, since kinds come first. -/
theorem coherent_of_same_kind {a : Value}
    (h : ∀ b c : Value, b.kind = a.kind → c.kind = a.kind →
      Coherent (a.cmpCanonical b) (b.cmpCanonical c) (a.cmpCanonical c)) (b c : Value) :
    Coherent (a.cmpCanonical b) (b.cmpCanonical c) (a.cmpCanonical c) := by
  have hkind : ∀ k l : Kind, compare k.rank l.rank = .eq → l = k := by
    intro k l
    cases k <;> cases l <;> decide
  rw [cmpCanonical_eq_then a b, cmpCanonical_eq_then b c, cmpCanonical_eq_then a c]
  refine (Coherent.of_transCmp compare a.kind.rank b.kind.rank c.kind.rank).lexicographic
    fun hab hbc => ?_
  have hb := hkind _ _ hab
  exact h b c hb ((hkind _ _ hbc).trans hb)

theorem coherent_cmpItems {as : List Value}
    (h : ∀ a ∈ as, ∀ b c : Value, Coherent (a.cmpCanonical b) (b.cmpCanonical c) (a.cmpCanonical c))
    (bs cs : List Value) : Coherent (cmpItems as bs) (cmpItems bs cs) (cmpItems as cs) := by
  induction as generalizing bs cs with
  | nil =>
    cases bs with
    | nil => rfl
    | cons b bs =>
      cases cs with
      | nil => trivial
      | cons c cs =>
        rw [cmpItems, cmpItems]
        cases cmpItems (b :: bs) (c :: cs) <;> trivial
  | cons a as ih =>
    obtain ⟨ha, has⟩ := List.forall_mem_cons.mp h
    cases bs with
    | nil => cases cs <;> trivial
    | cons b bs =>
      cases cs with
      | nil =>
        rw [cmpItems, cmpItems]
        cases cmpItems (a :: as) (b :: bs) <;> trivial
      | cons c cs => exact (ha b c).lexicographic fun _ _ => ih has bs cs

theorem coherent_cmpCanonical (a b c : Value) :
    Coherent (a.cmpCanonical b) (b.cmpCanonical c) (a.cmpCanonical c) := by
  induction a using Value.induction generalizing b c with
  | exception name fields _ =>
    exact coherent_of_same_kind
      (fun | .exception _ _, .exception _ _, _, _ => .of_transCmp compare _ _ _) b c
  | null => exact coherent_of_same_kind (fun | .null, .null, _, _ => rfl) b c
  | boolean flag =>
    exact coherent_of_same_kind
      (fun | .boolean _, .boolean _, _, _ => .of_transCmp compare _ _ _) b c
  | number n =>
    exact coherent_of_same_kind
      (fun | .number _, .number _, _, _ => .of_transCmp Decimal.cmp _ _ _) b c
  | string text =>
    exact coherent_of_same_kind (fun | .string _, .string _, _, _ => .of_transCmp compare _ _ _) b c
  | array items ih =>
    exact coherent_of_same_kind (fun | .array bs, .array cs, _, _ => coherent_cmpItems ih bs cs) b c
  | object entries ih =>
    refine coherent_of_same_kind (fun | .object es, .object fs, _, _ => ?_) b c
    simp only [cmpCanonical, cmpEntries_eq_cmpItems]
    exact (Coherent.of_transCmp compare _ _ _).lexicographic fun _ _ =>
      coherent_cmpItems (List.forall_mem_map.mpr ih) _ _

instance : Std.OrientedCmp Value.cmp where
  eq_swap {a b} := by
    have h := coherent_cmpCanonical a.canonical b.canonical a.canonical
    rw [cmpCanonical_self] at h
    exact h.eq_swap

instance : Std.TransCmp Value.cmp where
  isLE_trans {a b c} := (coherent_cmpCanonical a.canonical b.canonical c.canonical).isLE_trans

theorem cmpItems_append (vs : List Value) {more : List Value} (h : more ≠ []) :
    cmpItems vs (vs ++ more) = .lt := by
  induction vs with
  | nil =>
    obtain ⟨w, ws, rfl⟩ := List.exists_cons_of_ne_nil h
    rfl
  | cons v vs ih =>
    rw [List.cons_append, cmpItems, cmpCanonical_self, ih]
    rfl

theorem cmp_of_rank_lt {a b : Value} (h : a.kind.rank < b.kind.rank) : a.cmp b = .lt := by
  rw [cmp, cmpCanonical_eq_then, kind_canonical, kind_canonical, Nat.compare_eq_lt.mpr h]
  rfl

/-- Comparison is a total order up to the equality that it defines: every value equals itself, two
values compare the other way round when they are exchanged, the order is transitive, and equal
values compare alike with all others. Values of different kinds stand in the order of the kinds, and
an array is less than any that goes on after it. -/
theorem cmp_total_order :
    (∀ a : Value, a.cmp a = .eq) ∧
    (∀ a b : Value, a.cmp b = (b.cmp a).swap) ∧
    (∀ a b c : Value, (a.cmp b).isLE = true → (b.cmp c).isLE = true → (a.cmp c).isLE = true) ∧
    (∀ a b : Value, a.Equal b → ∀ c : Value, a.cmp c = b.cmp c ∧ c.cmp a = c.cmp b) ∧
    ([Kind.exception, .null, .boolean, .number, .string, .array, .object].Pairwise fun j k =>
      ∀ a b : Value, a.kind = j → b.kind = k → a.cmp b = .lt) ∧
    ∀ items more : List Value, more ≠ [] → (array items).cmp (array (items ++ more)) = .lt := by
  refine ⟨fun a => Std.ReflCmp.compare_self, fun a b => Std.OrientedCmp.eq_swap,
    fun a b c => Std.TransCmp.isLE_trans, fun a b hab c => ?_, ?_, fun items more hmore => ?_⟩
  · exact ⟨Std.TransCmp.congr_left hab, Std.TransCmp.congr_right hab⟩
  · have hranks : [Kind.exception, .null, .boolean, .number, .string, .array, .object].Pairwise
        fun j k => j.rank < k.rank := by decide
    refine hranks.imp fun hlt a b ha hb => cmp_of_rank_lt ?_
    rwa [ha, hb]
  · have hmore' : canonicalItems more ≠ [] := by simpa [canonicalItems_eq_map] using hmore
    rw [cmp, canonical, canonical, canonicalItems_eq_map (items ++ more), List.map_append,
      ← canonicalItems_eq_map, ← canonicalItems_eq_map]
    exact cmpItems_append _ hmore'

end Value
end QueryShell
