import QueryShell.Lazy.Readers
import QueryShell.Proofs.Lazy.Call

/-! Readers that read one queue into stores of their own: each value goes to one of the stores, in
turn. -/

namespace QueryShell

namespace Readers

variable {α : Type}

/-- Stores grow in the way of sequences, each by itself. -/
def Grows (readers next : Readers α) : Prop :=
  ∀ (s : Nat) (held : List α), readers.stores[s]? = some held →
    ∃ grown, next.stores[s]? = some grown ∧ Lazy.Grows ⟨held, readers.queue⟩ ⟨grown, next.queue⟩

theorem Grows.refl (readers : Readers α) : readers.Grows readers :=
  fun _ held hheld => ⟨held, hheld, .refl _⟩

theorem Grows.trans {first second third : Readers α} (h : first.Grows second)
    (h' : second.Grows third) :
    first.Grows third := by
  intro s held hheld
  obtain ⟨grown, hgrown, hgrows⟩ := h s held hheld
  obtain ⟨last, hlast, hgrows'⟩ := h' s grown hgrown
  exact ⟨last, hlast, hgrows.trans hgrows'⟩

/-- The values that have gone to one store, of all that were read and the stores that they went
to. -/
def share (popped : List (Nat × α)) (store : Nat) : List α :=
  (popped.filter fun p => p.1 = store).map Prod.snd

/-- The values that were written are in the queue, or were read and have gone to one store each. -/
def Spread (readers : Readers α) (vs : List α) : Prop :=
  ∃ popped : List (Nat × α), vs = popped.map Prod.snd ++ readers.queue.values ∧
    (∀ p ∈ popped, p.1 < readers.stores.length) ∧
    ∀ s held, readers.stores[s]? = some held → held = share popped s

theorem share_append (popped more : List (Nat × α)) (store : Nat) :
    share (popped ++ more) store = share popped store ++ share more store := by
  rw [share, List.filter_append, List.map_append]
  rfl

theorem share_of_forall_eq {popped : List (Nat × α)} {store : Nat} (h : ∀ p ∈ popped, p.1 = store) :
    share popped store = popped.map Prod.snd := by
  rw [share, List.filter_eq_self.mpr fun p hp => decide_eq_true (h p hp)]

theorem share_of_forall_ne {popped : List (Nat × α)} {store : Nat} (h : ∀ p ∈ popped, p.1 ≠ store) :
    share popped store = [] := by
  rw [share, List.filter_eq_nil_iff.mpr fun p hp => by simpa using h p hp, List.map_nil]

theorem share_sublist (popped : List (Nat × α)) (store : Nat) :
    (share popped store).Sublist (popped.map Prod.snd) :=
  List.filter_sublist.map _

/-- What one reader reads goes to its store and to no other. -/
theorem Spread.leave {readers : Readers α} {vs held moved : List α} {index : Nat} {next : Lazy α}
    (h : readers.Spread vs) (hheld : readers.stores[index]? = some held)
    (hmoves : Lazy.Moves ⟨held, readers.queue⟩ next moved) :
    (readers.leave index next).Spread vs := by
  obtain ⟨popped, hvs, howners, hstores⟩ := h
  have hindex : index < readers.stores.length := (List.getElem?_eq_some_iff.mp hheld).1
  have hmoved : ∀ p ∈ moved.map (Prod.mk index), p.1 = index := by simp
  refine ⟨popped ++ moved.map (Prod.mk index), ?_, ?_, ?_⟩
  · rw [hvs, hmoves.values, List.map_append, List.map_map, List.append_assoc]
    simp [Function.comp_def, Readers.leave]
  · intro p hp
    simp only [Readers.leave, List.length_set]
    rcases List.mem_append.mp hp with hp | hp
    · exact howners p hp
    · rw [hmoved p hp]
      exact hindex
  · intro s other hother
    simp only [Readers.leave] at hother
    rw [share_append]
    by_cases hs : index = s
    · subst hs
      rw [List.getElem?_set_self hindex, Option.some_inj] at hother
      rw [← hother, hmoves.store, hstores index held hheld, share_of_forall_eq hmoved, List.map_map]
      simp [Function.comp_def]
    · rw [List.getElem?_set_ne hs] at hother
      have hnone : share (moved.map (Prod.mk index)) s = [] :=
        share_of_forall_ne fun p hp => by rwa [hmoved p hp]
      rw [hnone, List.append_nil]
      exact hstores s other hother

theorem Spread.put {readers : Readers α} {vs more : List α} {queue : Queue α}
    (h : readers.Spread vs) (hvalues : queue.values = readers.queue.values ++ more) :
    Spread { readers with queue } (vs ++ more) := by
  obtain ⟨popped, hvs, howners, hstores⟩ := h
  refine ⟨popped, ?_, howners, hstores⟩
  rw [hvs, hvalues, List.append_assoc]

theorem Spread.join {readers : Readers α} {vs : List α} (h : readers.Spread vs) :
    readers.join.Spread vs := by
  obtain ⟨popped, hvs, howners, hstores⟩ := h
  refine ⟨popped, hvs, fun p hp => ?_, fun s held hheld => ?_⟩
  · have hp := howners p hp
    simp only [Readers.join, List.length_append]
    omega
  · simp only [Readers.join] at hheld
    by_cases hs : s < readers.stores.length
    · rw [List.getElem?_append_left hs] at hheld
      exact hstores s held hheld
    · -- Nothing has gone to the store that is new.
      have hnew : readers.stores.length ≤ s := Nat.le_of_not_lt hs
      rw [share_of_forall_ne fun p hp => Nat.ne_of_lt (Nat.lt_of_lt_of_le (howners p hp) hnew)]
      rw [List.getElem?_append_right hnew] at hheld
      exact List.mem_singleton.mp (List.mem_of_getElem? hheld)

theorem leave_grows {readers : Readers α} {held moved : List α} {index : Nat} {next : Lazy α}
    (hwell : readers.queue.WellFormed) (hheld : readers.stores[index]? = some held)
    (hmoves : Lazy.Moves ⟨held, readers.queue⟩ next moved) :
    readers.Grows (readers.leave index next) := by
  intro s other hother
  by_cases hs : index = s
  · subst hs
    rw [hheld, Option.some_inj] at hother
    subst hother
    exact ⟨next.store, List.getElem?_set_self (List.getElem?_eq_some_iff.mp hheld).1,
      hmoves.grows hwell⟩
  · have hsame : (readers.leave index next).stores[s]? = some other :=
      (List.getElem?_set_ne hs).trans hother
    exact ⟨other, hsame, List.prefix_rfl, fun hend => ⟨hmoves.terminated hend, rfl⟩⟩

theorem reader_leave {readers : Readers α} {held moved : List α} {index : Nat} {next : Lazy α}
    (hheld : readers.stores[index]? = some held)
    (hmoves : Lazy.Moves ⟨held, readers.queue⟩ next moved) (store : Nat) :
    ((readers.leave index next).reader store).store.length =
      (readers.reader store).store.length + if index = store then moved.length else 0 := by
  by_cases hstore : index = store
  · subst hstore
    simp [reader, leave, hheld, List.getElem?_set_self (List.getElem?_eq_some_iff.mp hheld).1,
      hmoves.store]
  · simp [reader, leave, List.getElem?_set_ne hstore, hstore]

theorem reader_join (readers : Readers α) (store : Nat) :
    (readers.join.reader store).store = (readers.reader store).store := by
  by_cases hstore : store < readers.stores.length
  · simp only [reader, join, List.getElem?_append_left hstore]
  · rw [reader, reader, join, List.getElem?_append_right (Nat.le_of_not_lt hstore),
      List.getElem?_eq_none (Nat.le_of_not_lt hstore)]
    cases store - readers.stores.length <;> rfl

theorem join_grows (readers : Readers α) : readers.Grows readers.join := by
  intro s held hheld
  have hs : s < readers.stores.length := (List.getElem?_eq_some_iff.mp hheld).1
  exact ⟨held, by rw [join, List.getElem?_append_left hs, hheld], .refl _⟩

end Readers

end QueryShell
