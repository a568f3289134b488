import Mathlib.Data.List.Forall2
import QueryShell.Dictionary

/-! Look-up after insertion, for which no order of the entries is needed, and insertion where the
entries are in order. -/

namespace QueryShell.Dictionary

variable {κ α : Type} [LT κ] [DecidableLT κ] [DecidableEq κ]

theorem find?_insert (key other : κ) (value : α) (entries : List (κ × α)) :
    find? other (insert key value entries) =
      if other = key then some value else find? other entries := by
  induction entries with
  | nil => simp [insert, find?]
  | cons entry rest ih =>
    obtain ⟨k, v⟩ := entry
    by_cases hlt : key < k
    · simp [insert, find?, hlt]
    · by_cases heq : key = k
      · subst heq
        by_cases ho : other = key <;> simp [insert, find?, hlt, ho]
      · -- The entry at the front stays, and its key is not the new one.
        by_cases ho : other = k
        · have hne : other ≠ key := fun h => heq (h.symm.trans ho)
          simp [insert, find?, hlt, heq, ho, ho ▸ hne]
        · simp [insert, find?, hlt, heq, ho, ih]

theorem find?_insert_of_ne {key other : κ} (h : other ≠ key) (value : α) (entries : List (κ × α)) :
    find? other (insert key value entries) = find? other entries := by
  simp [find?_insert, h]

theorem contains_insert_of_contains {other : κ} {entries : List (κ × α)} (key : κ) (value : α)
    (h : contains other entries = true) : contains other (insert key value entries) = true := by
  simp only [contains, find?_insert]
  by_cases ho : other = key
  · simp [ho]
  · simpa [ho, contains] using h

omit [LT κ] [DecidableLT κ] in
theorem mem_of_find? {key : κ} {value : α} {entries : List (κ × α)}
    (h : find? key entries = some value) : (key, value) ∈ entries := by
  induction entries with
  | nil => simp [find?] at h
  | cons entry rest ih =>
    obtain ⟨k, v⟩ := entry
    by_cases hk : key = k
    · subst hk
      obtain rfl : v = value := by simpa [find?] using h
      exact List.mem_cons_self
    · rw [find?, if_neg hk] at h
      exact List.mem_cons_of_mem _ (ih h)

theorem mem_insert {key : κ} {value : α} {e : κ × α} {entries : List (κ × α)}
    (h : e ∈ insert key value entries) :
    e = (key, value) ∨ e ∈ entries := by
  induction entries with
  | nil => simpa [insert] using h
  | cons entry rest ih =>
    obtain ⟨k, v⟩ := entry
    by_cases hlt : key < k
    · simpa [insert, hlt] using h
    · by_cases heq : key = k
      · rw [insert, if_neg hlt, if_pos heq, List.mem_cons] at h
        exact h.imp_right (List.mem_cons_of_mem _)
      · rw [insert, if_neg hlt, if_neg heq, List.mem_cons] at h
        rcases h with rfl | h
        · exact .inr List.mem_cons_self
        · exact (ih h).imp_right (List.mem_cons_of_mem _)

theorem mem_union {e : κ × α} {first second : List (κ × α)} (h : e ∈ union first second) :
    e ∈ first ∨ e ∈ second := by
  induction second generalizing first with
  | nil => exact .inl h
  | cons entry rest ih =>
    rcases ih h with h | h
    · exact (mem_insert h).elim (fun heq => .inr (heq ▸ List.mem_cons_self)) .inl
    · exact .inr (List.mem_cons_of_mem _ h)

theorem mem_ofEntries {e : κ × α} {entries : List (κ × α)} (h : e ∈ ofEntries entries) :
    e ∈ entries :=
  (mem_union h).resolve_left List.not_mem_nil

/-- Each key once, in order. -/
def Sorted (entries : List (κ × α)) : Prop := entries.Pairwise fun e f => e.1 < f.1

omit [DecidableLT κ] [DecidableEq κ] in
theorem sorted_cons {e : κ × α} {entries : List (κ × α)} :
    Sorted (e :: entries) ↔ (∀ f ∈ entries, e.1 < f.1) ∧ Sorted entries :=
  List.pairwise_cons

omit [DecidableLT κ] [DecidableEq κ] in
theorem sorted_map {β : Type} (f : α → β) {entries : List (κ × α)} :
    Sorted (entries.map fun e => (e.1, f e.2)) ↔ Sorted entries :=
  List.pairwise_map

omit [DecidableLT κ] [DecidableEq κ] in
theorem sorted_iff_pairwise_keys {entries : List (κ × α)} :
    Sorted entries ↔ (keys entries).Pairwise (· < ·) :=
  List.pairwise_map.symm

/-- Whether a new entry takes the place of an old one or not makes no difference to the keys. -/
theorem keys_insert (key : κ) (value : α) (entries : List (κ × α)) :
    keys (insert key value entries) = keys (insertNew key value entries) := by
  induction entries with
  | nil => rfl
  | cons entry rest ih =>
    obtain ⟨k, v⟩ := entry
    by_cases hlt : key < k
    · simp [insert, insertNew, hlt]
    · by_cases heq : key = k
      · subst heq
        simp [insert, insertNew, keys, hlt]
      · simpa [insert, insertNew, keys, hlt, heq] using ih

theorem mem_insertNew {key : κ} {value : α} {e : κ × α} {entries : List (κ × α)}
    (h : e ∈ insertNew key value entries) : e = (key, value) ∨ e ∈ entries := by
  induction entries with
  | nil => simpa [insertNew] using h
  | cons entry rest ih =>
    obtain ⟨k, v⟩ := entry
    by_cases hlt : key < k
    · simpa [insertNew, hlt] using h
    · by_cases heq : key = k
      · rw [insertNew, if_neg hlt, if_pos heq] at h
        exact .inr h
      · rw [insertNew, if_neg hlt, if_neg heq, List.mem_cons] at h
        rcases h with rfl | h
        · exact .inr List.mem_cons_self
        · exact (ih h).imp_right (List.mem_cons_of_mem _)

theorem insertNew_of_forall_lt {key : κ} {entries : List (κ × α)} (h : ∀ e ∈ entries, key < e.1)
    (value : α) :
    insertNew key value entries = (key, value) :: entries := by
  cases entries with
  | nil => rfl
  | cons entry rest => rw [insertNew, if_pos (h entry List.mem_cons_self)]

section

variable [Std.Asymm (fun k l : κ => k < l)]

theorem insert_of_forall_lt {key : κ} {entries : List (κ × α)} (h : ∀ e ∈ entries, e.1 < key)
    (value : α) :
    insert key value entries = entries ++ [(key, value)] := by
  induction entries with
  | nil => rfl
  | cons entry rest ih =>
    obtain ⟨k, v⟩ := entry
    have hk : k < key := h (k, v) List.mem_cons_self
    have hnlt : ¬ key < k := Std.Asymm.asymm _ _ hk
    have hne : key ≠ k := fun heq => hnlt (heq ▸ hk)
    rw [insert, if_neg hnlt, if_neg hne, ih fun e he => h e (List.mem_cons_of_mem _ he),
      List.cons_append]

theorem ofEntries_of_sorted {entries : List (κ × α)} (h : Sorted entries) :
    ofEntries entries = entries := by
  have hfold : ∀ before : List (κ × α), Sorted (before ++ entries) →
      entries.foldl (fun table e => insert e.1 e.2 table) before = before ++ entries := by
    clear h
    induction entries with
    | nil => simp
    | cons entry rest ih =>
      intro before hsorted
      have hbefore : ∀ e ∈ before, e.1 < entry.1 := fun e he =>
        (List.pairwise_append.mp hsorted).2.2 e he entry List.mem_cons_self
      rw [List.foldl_cons, insert_of_forall_lt hbefore, ih _ (by simpa using hsorted)]
      simp
  exact hfold [] h

end

theorem sorted_insertNew [Std.Trichotomous (fun k l : κ => k < l)]
    [Trans (fun k l : κ => k < l) (fun k l : κ => k < l) (fun k l : κ => k < l)] (key : κ)
    (value : α) {entries : List (κ × α)} (h : Sorted entries) :
    Sorted (insertNew key value entries) := by
  induction entries with
  | nil => exact List.pairwise_singleton _ _
  | cons entry rest ih =>
    obtain ⟨k, v⟩ := entry
    obtain ⟨hfirst, hrest⟩ := sorted_cons.mp h
    by_cases hlt : key < k
    · rw [insertNew, if_pos hlt]
      refine sorted_cons.mpr ⟨fun e he => ?_, h⟩
      rcases List.mem_cons.mp he with rfl | he
      · exact hlt
      · exact Trans.trans (r := fun k l : κ => k < l) (s := fun k l : κ => k < l) hlt (hfirst e he)
    · by_cases heq : key = k
      · rwa [insertNew, if_neg hlt, if_pos heq]
      · rw [insertNew, if_neg hlt, if_neg heq]
        refine sorted_cons.mpr ⟨fun e he => ?_, ih hrest⟩
        rcases mem_insertNew he with rfl | he
        · exact Decidable.byContradiction fun hge => heq (Std.Trichotomous.trichotomous _ _ hlt hge)
        · exact hfirst e he

section

omit [LT κ] [DecidableLT κ]

theorem find?_append (key : κ) (first second : List (κ × α)) :
    find? key (first ++ second) = (find? key first).or (find? key second) := by
  induction first with
  | nil => simp [find?]
  | cons entry rest ih =>
    by_cases hk : key = entry.1
    · simp [find?, hk]
    · simp [find?, hk, ih]

theorem find?_eq_none_iff {key : κ} {entries : List (κ × α)} :
    find? key entries = none ↔ ∀ e ∈ entries, e.1 ≠ key := by
  induction entries with
  | nil => simp [find?]
  | cons e rest ih =>
    by_cases hk : key = e.1
    · simp [find?, hk]
    · simp [find?, hk, ih, Ne.symm hk]

/-- Entries with the same keys one by one, and with values that are related. -/
abbrev Matched {β : Type} (R : α → β → Prop) : List (κ × α) → List (κ × β) → Prop :=
  List.Forall₂ fun e f => e.1 = f.1 ∧ R e.2 f.2

theorem Matched.find? {β : Type} {R : α → β → Prop} {first : List (κ × α)} {second : List (κ × β)}
    (h : Matched R first second) (key : κ) :
    Option.Rel R (Dictionary.find? key first) (Dictionary.find? key second) := by
  induction h with
  | nil => exact .none
  | @cons e f es fs hef _ ih =>
    by_cases hk : key = e.1
    · rw [Dictionary.find?, if_pos hk, Dictionary.find?, if_pos (hk.trans hef.1)]
      exact .some hef.2
    · rw [Dictionary.find?, if_neg hk, Dictionary.find?, if_neg (hef.1 ▸ hk)]
      exact ih

end

theorem find?_union (key : κ) (first second : List (κ × α)) :
    find? key (union first second) = (find? key second.reverse).or (find? key first) := by
  induction second generalizing first with
  | nil => rfl
  | cons entry rest ih =>
    have hunion : union first (entry :: rest) = union (insert entry.1 entry.2 first) rest := rfl
    rw [hunion, ih, List.reverse_cons, find?_append, find?_insert, Option.or_assoc]
    by_cases hk : key = entry.1 <;> simp [find?, hk]

theorem find?_ofEntries (key : κ) (entries : List (κ × α)) :
    find? key (ofEntries entries) = find? key entries.reverse := by
  have h := find?_union key [] entries
  rwa [find?, Option.or_none] at h

/-- An entry that no later one replaces. -/
def IsLast (key : κ) (value : α) (entries : List (κ × α)) : Prop :=
  ∃ earlier later, entries = earlier ++ (key, value) :: later ∧ ∀ e ∈ later, e.1 ≠ key

omit [LT κ] [DecidableLT κ] in
theorem find?_reverse_eq_some_iff {key : κ} {value : α} {entries : List (κ × α)} :
    find? key entries.reverse = some value ↔ IsLast key value entries := by
  induction entries with
  | nil => simp [find?, IsLast]
  | cons e es ih =>
    rw [List.reverse_cons, find?_append, Option.or_eq_some_iff, ih]
    constructor
    · rintro (⟨earlier, later, rfl, hlater⟩ | ⟨hnone, hfirst⟩)
      · exact ⟨e :: earlier, later, rfl, hlater⟩
      · by_cases hk : key = e.1
        · obtain rfl : e.2 = value := by simpa [find?, hk] using hfirst
          exact ⟨[], es, by rw [hk]; rfl, by simpa using find?_eq_none_iff.mp hnone⟩
        · simp [find?, hk] at hfirst
    · rintro ⟨earlier, later, hentries, hlater⟩
      cases earlier with
      | nil =>
        obtain ⟨rfl, rfl⟩ := List.cons.inj hentries
        exact .inr ⟨find?_eq_none_iff.mpr (by simpa using hlater), by simp [find?]⟩
      | cons f earlier =>
        obtain ⟨rfl, rfl⟩ := List.cons.inj hentries
        exact .inl ⟨earlier, later, rfl, hlater⟩

theorem find?_ofEntries_eq_some_iff {key : κ} {value : α} {entries : List (κ × α)} :
    find? key (ofEntries entries) = some value ↔ IsLast key value entries := by
  rw [find?_ofEntries, find?_reverse_eq_some_iff]

theorem find?_ofEntries_eq_none_iff {key : κ} {entries : List (κ × α)} :
    find? key (ofEntries entries) = none ↔ ∀ e ∈ entries, e.1 ≠ key := by
  simp [find?_ofEntries, find?_eq_none_iff]

/-- Where no key stands twice, every entry counts. -/
theorem find?_ofEntries_of_nodup {key : κ} {value : α} {entries : List (κ × α)}
    (h : (keys entries).Nodup) :
    find? key (ofEntries entries) = some value ↔ (key, value) ∈ entries := by
  rw [find?_ofEntries_eq_some_iff]
  constructor
  · rintro ⟨earlier, later, rfl, -⟩
    exact List.mem_append_right earlier List.mem_cons_self
  · intro hmem
    obtain ⟨earlier, later, rfl⟩ := List.append_of_mem hmem
    refine ⟨earlier, later, rfl, fun e he heq => ?_⟩
    rw [keys, List.map_append, List.map_cons] at h
    have hlater := (List.nodup_cons.mp (List.nodup_append.mp h).2.1).1
    exact hlater (List.mem_map.mpr ⟨e, he, heq⟩)

section

variable [Std.Asymm (fun k l : κ => k < l)]

theorem insert_insert_self (key : κ) (first second : α) (entries : List (κ × α)) :
    insert key second (insert key first entries) = insert key second entries := by
  have hirrefl : ¬ key < key := fun h => Std.Asymm.asymm (r := fun k l : κ => k < l) key key h h
  induction entries with
  | nil => simp [insert, hirrefl]
  | cons entry rest ih =>
    obtain ⟨k, v⟩ := entry
    by_cases hlt : key < k
    · simp [insert, hlt, hirrefl]
    · by_cases heq : key = k
      · simp [insert, heq, heq ▸ hirrefl]
      · simp [insert, hlt, heq, ih]

omit [DecidableLT κ] in
theorem find?_eq_none_of_sorted_cons {e : κ × α} {entries : List (κ × α)}
    (h : Sorted (e :: entries)) :
    find? e.1 entries = none := by
  refine find?_eq_none_iff.mpr fun f hf heq => ?_
  have hlt : e.1 < f.1 := (sorted_cons.mp h).1 f hf
  exact Std.Asymm.asymm _ _ hlt (heq ▸ hlt)

omit [DecidableLT κ] in
theorem Sorted.mem_iff {key : κ} {value : α} {entries : List (κ × α)} (h : Sorted entries) :
    (key, value) ∈ entries ↔ find? key entries = some value := by
  refine ⟨fun hmem => ?_, mem_of_find?⟩
  induction entries with
  | nil => cases hmem
  | cons e rest ih =>
    obtain ⟨hfirst, hrest⟩ := sorted_cons.mp h
    rcases List.mem_cons.mp hmem with rfl | hmem
    · simp [find?]
    · have hlt : e.1 < key := hfirst _ hmem
      have hne : key ≠ e.1 := by
        rintro rfl
        exact Std.Asymm.asymm _ _ hlt hlt
      rw [find?, if_neg hne, ih hrest hmem]

theorem find?_reverse_of_sorted (key : κ) {entries : List (κ × α)} (h : Sorted entries) :
    find? key entries.reverse = find? key entries := by
  rw [← find?_ofEntries, ofEntries_of_sorted h]

theorem find?_insertNew {key : κ} (other : κ) (value : α) {entries : List (κ × α)}
    (h : Sorted entries) :
    find? other (insertNew key value entries) =
      (find? other entries).or (if other = key then some value else none) := by
  induction entries with
  | nil => simp [insertNew, find?]
  | cons entry rest ih =>
    obtain ⟨k, v⟩ := entry
    obtain ⟨hfirst, hrest⟩ := sorted_cons.mp h
    by_cases hlt : key < k
    · -- The key is before all others, so nothing was found for it.
      have hne : ∀ e ∈ (k, v) :: rest, e.1 ≠ key := by
        rintro e he rfl
        rcases List.mem_cons.mp he with rfl | he
        · exact Std.Asymm.asymm _ _ hlt hlt
        · exact Std.Asymm.asymm _ _ hlt (hfirst e he)
      rw [insertNew, if_pos hlt, find?]
      by_cases ho : other = key
      · simp [ho, find?_eq_none_iff.mpr hne]
      · simp [ho]
    · by_cases heq : key = k
      · rw [insertNew, if_neg hlt, if_pos heq]
        by_cases ho : other = key
        · simp [find?, ho, heq]
        · simp [ho]
      · rw [insertNew, if_neg hlt, if_neg heq, find?, find?, ih hrest]
        by_cases ho : other = k <;> simp [ho]

omit [DecidableLT κ] in
/-- Sorted entries are matched by what is found in them. -/
theorem Sorted.matched {β : Type} {R : α → β → Prop} {first : List (κ × α)} {second : List (κ × β)}
    (hfirst : Sorted first) (hsecond : Sorted second)
    (h : ∀ key, Option.Rel R (find? key first) (find? key second)) : Matched R first second := by
  induction first generalizing second with
  | nil =>
    cases second with
    | nil => exact .nil
    | cons f fs =>
      have hf := h f.1
      rw [find?, find?, if_pos rfl] at hf
      cases hf
  | cons e es ih =>
    cases second with
    | nil =>
      have he := h e.1
      rw [find?, find?, if_pos rfl] at he
      cases he
    | cons f fs =>
      have hkey : e.1 = f.1 := by
        refine Decidable.byContradiction fun hne => ?_
        have he := h e.1
        have hf := h f.1
        rw [find?, if_pos rfl, find?, if_neg hne] at he
        rw [find?, if_neg (Ne.symm hne), find?, if_pos rfl] at hf
        generalize hes : find? f.1 es = found at hf
        generalize hfs : find? e.1 fs = found' at he
        cases he
        cases hf
        have hlt : e.1 < f.1 := (sorted_cons.mp hfirst).1 _ (mem_of_find? hes)
        have hgt : f.1 < e.1 := (sorted_cons.mp hsecond).1 _ (mem_of_find? hfs)
        exact Std.Asymm.asymm _ _ hlt hgt
      have hvalue : R e.2 f.2 := by
        have he := h e.1
        rw [find?, if_pos rfl, find?, if_pos hkey] at he
        cases he
        assumption
      refine .cons ⟨hkey, hvalue⟩
        (ih (sorted_cons.mp hfirst).2 (sorted_cons.mp hsecond).2 fun key => ?_)
      by_cases hk : key = e.1
      · rw [hk, find?_eq_none_of_sorted_cons hfirst, hkey, find?_eq_none_of_sorted_cons hsecond]
        exact .none
      · have hrest := h key
        rwa [find?, if_neg hk, find?, if_neg (hkey ▸ hk)] at hrest

omit [DecidableLT κ] in
/-- Sorted entries are told apart by what is found in them. -/
theorem Sorted.ext {first second : List (κ × α)} (hfirst : Sorted first) (hsecond : Sorted second)
    (h : ∀ key, find? key first = find? key second) : first = second := by
  have hmatched : Matched (· = ·) first second := hfirst.matched hsecond fun key => by
    rw [h key]
    cases find? key second with
    | none => exact .none
    | some value => exact .some rfl
  exact List.forall₂_eq_eq_eq ▸ hmatched.imp fun _ _ he => Prod.ext he.1 he.2

end

section

variable [Std.Asymm (fun k l : κ => k < l)] [Std.Trichotomous (fun k l : κ => k < l)]
  [Trans (fun k l : κ => k < l) (fun k l : κ => k < l) (fun k l : κ => k < l)]

omit [Std.Asymm (fun k l : κ => k < l)] in
theorem sorted_insert (key : κ) (value : α) {entries : List (κ × α)} (h : Sorted entries) :
    Sorted (insert key value entries) := by
  have hnew : Sorted (insertNew key value entries) := sorted_insertNew key value h
  rwa [sorted_iff_pairwise_keys, ← keys_insert, ← sorted_iff_pairwise_keys] at hnew

omit [Std.Asymm (fun k l : κ => k < l)] in
theorem sorted_union (second : List (κ × α)) {first : List (κ × α)} (h : Sorted first) :
    Sorted (union first second) := by
  induction second generalizing first with
  | nil => exact h
  | cons entry rest ih => exact ih (sorted_insert entry.1 entry.2 h)

omit [Std.Asymm (fun k l : κ => k < l)] in
theorem sorted_ofEntries (entries : List (κ × α)) : Sorted (ofEntries entries) :=
  sorted_union entries .nil

/-- To merge what two lists of entries come to is to go through both lists. -/
theorem union_ofEntries (first second : List (κ × α)) :
    union (ofEntries first) (ofEntries second) = ofEntries (first ++ second) := by
  refine (sorted_union _ (sorted_ofEntries first)).ext (sorted_ofEntries _) fun key => ?_
  rw [find?_union, find?_reverse_of_sorted key (sorted_ofEntries second), find?_ofEntries,
    find?_ofEntries, find?_ofEntries, List.reverse_append, find?_append]

end

end QueryShell.Dictionary
