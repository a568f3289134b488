import Mathlib.Data.List.Dedup
import QueryShell.Lazy.Entries
import QueryShell.Proofs.Lazy.Basic
import QueryShell.Proofs.Value.Congruence
import QueryShell.Value.Json
import QueryShell.Value.Render

/-! Objects are maps however their entries arrive: of all entries for a key the last one counts, in
whatever way it is asked for, and nothing else of the entries can be seen. -/

namespace QueryShell

namespace Dictionary

variable {α : Type}

theorem mem_keys_iff {key : String} {entries : List (String × α)} :
    key ∈ keys entries ↔ ¬ ∀ e ∈ entries, e.1 ≠ key := by
  simp [keys]

/-- An object has as many entries in the end as different keys have arrived. -/
theorem length_ofEntries (entries : List (String × α)) :
    (ofEntries entries).length = (keys entries).dedup.length := by
  have hsorted := sorted_iff_pairwise_keys.mp (sorted_ofEntries entries)
  have hnodup : (keys (ofEntries entries)).Nodup := by
    refine hsorted.imp ?_
    rintro key _ hlt rfl
    exact String.lt_irrefl key hlt
  have hperm : (keys (ofEntries entries)).Perm (keys entries).dedup := by
    refine (List.perm_ext_iff_of_nodup hnodup (List.nodup_dedup _)).mpr fun key => ?_
    rw [List.mem_dedup, mem_keys_iff, mem_keys_iff, ← find?_eq_none_iff,
      find?_ofEntries_eq_none_iff]
  rw [← hperm.length_eq, keys, List.length_map]

end Dictionary

namespace Lazy

variable {α : Type} {lazy : Lazy (String × α)} {es : List (String × α)}

namespace Complete

/-- From a position on, the last entry with the key is found, or else what was found before. -/
theorem seek (h : lazy.Complete es) (key : String) (steps : Nat) {index : Nat}
    (hindex : index ≤ es.length) (hsteps : es.length < index + steps) (found : Option α) :
    ∃ next, next.Complete es ∧
      Lazy.seek key steps index found lazy none =
        (.ofOption ((Dictionary.find? key (es.drop index).reverse).or found), next) := by
  induction steps generalizing lazy index found with
  | zero => omega
  | succ steps ih =>
    obtain ⟨next, hget, hnext⟩ := h.get index
    rw [Lazy.seek, hget]
    rcases Nat.lt_or_eq_of_le hindex with hlt | rfl
    · obtain ⟨last, hlast, hseek⟩ :=
        ih hnext hlt (by omega) (if es[index].1 = key then some es[index].2 else found)
      refine ⟨last, hlast, ?_⟩
      have hentry : (Dictionary.find? key [es[index]]).or found =
          if es[index].1 = key then some es[index].2 else found := by
        by_cases hkey : es[index].1 = key
        · simp [Dictionary.find?, hkey]
        · simp [Dictionary.find?, hkey, Ne.symm hkey]
      rw [List.drop_eq_getElem_cons hlt, List.reverse_cons, Dictionary.find?_append,
        Option.or_assoc, hentry, ← hseek, List.getElem?_eq_getElem hlt]
      rfl
    · refine ⟨next, hnext, ?_⟩
      rw [List.getElem?_eq_none (Nat.le_refl _), List.drop_length]
      rfl

theorem getKey (h : lazy.Complete es) (key : String) : ∃ next, next.Complete es ∧
    lazy.getKey none key = (.ofOption (Dictionary.find? key (Dictionary.ofEntries es)), next) := by
  have hunread : lazy.queue.values.length ≤ lazy.queue.unread.length := by
    rw [h.wellFormed.unread, List.length_append, List.length_map]
    exact Nat.le_add_right _ _
  have hlength : es.length = lazy.store.length + lazy.queue.values.length := by
    rw [← h.arrived, List.length_append]
  obtain ⟨next, hnext, hseek⟩ := h.seek key (lazy.store.length + lazy.queue.unread.length + 1)
    (Nat.zero_le _) (by omega) none
  refine ⟨next, hnext, ?_⟩
  rw [Lazy.getKey, hseek, List.drop_zero, Option.or_none, Dictionary.find?_ofEntries]

theorem entries (h : lazy.Complete es) :
    ∃ next, next.Complete es ∧ lazy.entries none = (Dictionary.ofEntries es, next) := by
  obtain ⟨next, hitems, hnext⟩ := h.items
  exact ⟨next, hnext, by rw [Lazy.entries, hitems]⟩

theorem countKeys (h : lazy.Complete es) :
    ∃ next, next.Complete es ∧
    lazy.countKeys none = (.value (Dictionary.keys es).dedup.length, next) := by
  obtain ⟨next, hwhole, hnext⟩ := h.whole fun entries => (Dictionary.ofEntries entries).length
  exact ⟨next, hnext, by rw [Lazy.countKeys, hwhole, Dictionary.length_ofEntries]⟩

end Complete

theorem complete_ofValues (stored queued : List (String × α)) :
    Complete ⟨stored, .ofValues queued⟩ (stored ++ queued) where
  wellFormed := Queue.wellFormed_made (some queued)
  closed := rfl
  arrived := congrArg (stored ++ ·) (Queue.values_made (some queued))

end Lazy

namespace Value

/-- Objects that come to the same dictionary have the same canonical form, also if objects in them
arrived differently. -/
theorem canonical_object_eq {es fs : List (String × Value)}
    (h : ∀ key, (Dictionary.find? key (Dictionary.ofEntries es)).map canonical =
      (Dictionary.find? key (Dictionary.ofEntries fs)).map canonical) :
    (object es).canonical = (object fs).canonical := by
  have hentries : canonicalEntries es = canonicalEntries fs := by
    refine (sorted_canonicalEntries es).ext (sorted_canonicalEntries fs) fun key => ?_
    rw [find?_canonicalEntries, find?_canonicalEntries, ← Dictionary.find?_ofEntries,
      ← Dictionary.find?_ofEntries, h key]
  rw [canonical, canonical, hentries]

/-- Objects are equal, in every layout the same text, and the same JSON, if their canonical forms
are the same. -/
theorem indistinguishable_of_canonical_eq {v w : Value} (h : v.canonical = w.canonical) :
    v.Equal w ∧ (∀ layout, v.render layout = w.render layout) ∧ v.toJsonText = w.toJsonText := by
  refine ⟨?_, fun layout => ?_, ?_⟩
  · rw [Equal, cmp, h]
    exact cmpCanonical_self _
  · rw [render, render, h]
  · rw [toJsonText, toJsonText, toJson, toJson, h]

end Value

namespace Lazy

/-- What an object answers, by whatever of its entries are still to be read: each key holds what its
last entry holds. No question changes the entries. -/
structure ReadsAsMap (lazy : Lazy (String × Value)) (es : List (String × Value)) : Prop where
  value : ∀ key v, (lazy.getKey none key).1 = .value v ↔ Dictionary.IsLast key v es
  missing : ∀ key, (lazy.getKey none key).1 = .ended ↔ ∀ e ∈ es, e.1 ≠ key
  lookup : ∀ key, (lazy.getKey none key).1 = .ofOption (Dictionary.find? key (lazy.entries none).1)
  sorted : Dictionary.Sorted (lazy.entries none).1
  count : (lazy.countKeys none).1 = .value (es.map Prod.fst).dedup.length
  empty : (lazy.isEmpty none).1 = .value es.isEmpty
  getKey_complete : ∀ key, (lazy.getKey none key).2.Complete es
  entries_complete : (lazy.entries none).2.Complete es
  countKeys_complete : (lazy.countKeys none).2.Complete es
  isEmpty_complete : (lazy.isEmpty none).2.Complete es

theorem Complete.readsAsMap {lazy : Lazy (String × Value)} {es : List (String × Value)}
    (h : lazy.Complete es) :
    lazy.ReadsAsMap es := by
  have hkey : ∀ key, (lazy.getKey none key).1 =
      .ofOption (Dictionary.find? key (Dictionary.ofEntries es)) ∧
      (lazy.getKey none key).2.Complete es := by
    intro key
    obtain ⟨next, hnext, hget⟩ := h.getKey key
    rw [hget]
    exact ⟨rfl, hnext⟩
  obtain ⟨afterEntries, hafterEntries, hentries⟩ := h.entries
  obtain ⟨afterCount, hafterCount, hcount⟩ := h.countKeys
  obtain ⟨afterEmpty, hempty, hafterEmpty⟩ := h.isEmpty
  constructor
  case value =>
    intro key v
    rw [(hkey key).1, ← Dictionary.find?_ofEntries_eq_some_iff]
    cases Dictionary.find? key (Dictionary.ofEntries es) <;> simp [Reading.ofOption]
  case missing =>
    intro key
    rw [(hkey key).1, ← Dictionary.find?_ofEntries_eq_none_iff]
    cases Dictionary.find? key (Dictionary.ofEntries es) <;> simp [Reading.ofOption]
  case lookup => exact fun key => by rw [hentries, (hkey key).1]
  case sorted => exact hentries ▸ Dictionary.sorted_ofEntries es
  case count => rw [hcount, Dictionary.keys]
  case empty => rw [hempty]
  case getKey_complete => exact fun key => (hkey key).2
  case entries_complete => rwa [hentries]
  case countKeys_complete => rwa [hcount]
  case isEmpty_complete => rwa [hempty]

/-- An object whose entries have all arrived, read or not, answers as the map in which each key
holds what its last entry holds. Two such objects are equal if each key holds equal values in both
or none; and if each key holds the same in both, they cannot be told apart by comparing them, in any
layout, or in JSON. -/
theorem object_last_wins :
    (∀ (lazy : Lazy (String × Value)) (es : List (String × Value)), lazy.Complete es →
      lazy.ReadsAsMap es) ∧
    ∀ (first second : Lazy (String × Value)) (es fs : List (String × Value)), first.Complete es →
    second.Complete fs →
      let v := Value.object (first.items none).1
      let w := Value.object (second.items none).1
      (v.Equal w ↔ ∀ key, Option.Rel Value.Equal (Dictionary.find? key (first.entries none).1)
        (Dictionary.find? key (second.entries none).1)) ∧
      ((∀ key, (Dictionary.find? key (first.entries none).1).map Value.canonical =
          (Dictionary.find? key (second.entries none).1).map Value.canonical) →
        v.Equal w ∧ (∀ layout, v.render layout = w.render layout) ∧
          v.toJsonText = w.toJsonText) := by
  refine ⟨fun _ _ => Complete.readsAsMap, fun first second es fs hfirst hsecond => ?_⟩
  obtain ⟨_, hitems, _⟩ := hfirst.items
  obtain ⟨_, hitems', _⟩ := hsecond.items
  obtain ⟨_, _, hentries⟩ := hfirst.entries
  obtain ⟨_, _, hentries'⟩ := hsecond.entries
  rw [hitems, hitems', hentries, hentries']
  exact ⟨Value.equal_object_iff,
    fun hsame => Value.indistinguishable_of_canonical_eq (Value.canonical_object_eq hsame)⟩

/-- One object is read in the middle, and its first entry is replaced; the entries of the other one
are in another order. -/
theorem object_last_wins_split :
    let first : Lazy (String × Value) :=
      ⟨[("b", .null)], .ofValues [("a", .boolean true), ("b", .string "z")]⟩
    let second : Lazy (String × Value) := ⟨[], .ofValues [("b", .string "z"), ("a", .boolean true)]⟩
    first.Complete [("b", .null), ("a", .boolean true), ("b", .string "z")] ∧
      second.Complete [("b", .string "z"), ("a", .boolean true)] ∧
      first.ReadsAsMap [("b", .null), ("a", .boolean true), ("b", .string "z")] ∧
      (Value.object (first.items none).1).toJsonText =
        (Value.object (second.items none).1).toJsonText := by
  intro first second
  have hfirst := complete_ofValues [("b", Value.null)] [("a", .boolean true), ("b", .string "z")]
  have hsecond := complete_ofValues [] [("b", Value.string "z"), ("a", .boolean true)]
  have hsame : (first.entries none).1 = (second.entries none).1 := rfl
  obtain ⟨hreads, hobjects⟩ := object_last_wins
  exact ⟨hfirst, hsecond, hreads first _ hfirst,
    ((hobjects first second _ _ hfirst hsecond).2 fun key => by rw [hsame]).2.2⟩

end Lazy
end QueryShell
