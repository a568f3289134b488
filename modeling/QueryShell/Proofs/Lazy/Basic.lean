import QueryShell.Lazy.Basic
import QueryShell.Proofs.Channel.Queue

/-! Reading a sequence while its token has not fired: what has arrived moves from the queue into the
store, in order, and nothing else changes. -/

namespace QueryShell

namespace Queue

variable {α : Type} {q : Queue α}

/-- What a waiting read comes upon: the first value, or the end, or neither, and then it waits. -/
inductive Pops (q : Queue α) : Reading α × Queue α → Prop where
  | value (v : α) {left : Queue α} (hwell : left.WellFormed)
    (hclosed : left.inputClosed = q.inputClosed)
    (hvalues : q.values = v :: left.values) : Pops q (.value v, left)
  | ended {left : Queue α} (hwell : left.WellFormed) (hclosed : q.inputClosed = true)
    (hterminated : left.terminated = true)
    (hvalues : q.values = []) : Pops q (.ended, left)
  | waiting (hopen : q.inputClosed = false) (hvalues : q.values = []) : Pops q (.waiting, q)

theorem WellFormed.pops (h : q.WellFormed) : Pops q (q.pop (.patient none)) := by
  rcases pop_cases q (.patient none) with ⟨hend, hpop⟩ | ⟨hfired, _⟩ | ⟨hunread, hpop⟩ |
    ⟨v, rest, hunread, hpop⟩ |
    ⟨rest, hunread, hpop⟩
  · rw [hpop]
    exact .ended h (h.terminated hend).1 hend (h.terminated hend).2
  · cases hfired
  · have hvalues : q.values = [] := by rw [values, hunread]; rfl
    have hopen : q.inputClosed = false := by
      cases hclosed : q.inputClosed with
      | false => rfl
      | true =>
        -- The terminator of a closed queue was read, and then the end is told again, or it is still
        -- there.
        have hbehind := h.unread
        cases hterminated : q.terminated with
        | true =>
          rw [pop, if_pos hterminated] at hpop
          cases hpop
        | false =>
          rw [hunread, hvalues, hclosed, hterminated] at hbehind
          cases hbehind
    rw [hpop]
    exact .waiting hopen hvalues
  · rw [hpop]
    obtain ⟨hwell, hvalues⟩ := h.drop [v] hunread
    exact .value v hwell rfl hvalues
  · rw [hpop]
    obtain ⟨hwell, hvalues, _⟩ := h.dropAll [] hunread
    exact .ended hwell (hwell.terminated rfl).1 rfl hvalues

/-- To read all that is there is to read one value after the other. -/
theorem drain_eq (q : Queue α) (fuse : Fuse) : q.drain fuse =
    match q.pop (.patient fuse) with
    | (.value v, left) =>
      let (vs, halt, rest) := left.drain (fuse.map (· - 1))
      (v :: vs, halt, rest)
    | (.ended, left) => ([], .ended, left)
    | (.waiting, left) => ([], .waiting, left)
    | (.failed e, left) => ([], .failed e, left) := by
  rcases q with ⟨unread, inputClosed, terminated⟩
  cases terminated with
  | true => rfl
  | false =>
    -- A token that has fired comes first, then what the first entry is.
    rcases fuse with _ | _ | reads <;> rcases unread with _ | ⟨_ | _, rest⟩ <;> rfl

end Queue

namespace Lazy

variable {α : Type}

theorem fetchAll_eq (lazy : Lazy α) (fuse : Fuse) : lazy.fetchAll fuse =
    match lazy.queue.pop (.patient fuse) with
    | (.value v, left) => fetchAll ⟨lazy.store ++ [v], left⟩ (fuse.map (· - 1))
    | (.ended, left) => (.ended, { lazy with queue := left })
    | (.waiting, left) => (.waiting, { lazy with queue := left })
    | (.failed e, left) => (.failed e, { lazy with queue := left }) := by
  rw [fetchAll, Queue.drain_eq]
  rcases lazy.queue.pop (.patient fuse) with ⟨reading, left⟩
  cases reading with
  | value v => simp [fetchAll]
  | _ => simp

/-- All of a sequence has arrived: some of it has been read, the rest is in the queue, and the end
is behind it or has been read. -/
structure Complete (lazy : Lazy α) (vs : List α) : Prop where
  wellFormed : lazy.queue.WellFormed
  closed : lazy.queue.inputClosed = true
  arrived : lazy.store ++ lazy.queue.values = vs

namespace Complete

variable {lazy : Lazy α} {vs : List α}

theorem pop (h : lazy.Complete vs) :
    (∃ v left, lazy.queue.values = v :: left.values ∧
      lazy.queue.pop (.patient none) = (.value v, left) ∧
      Complete ⟨lazy.store ++ [v], left⟩ vs) ∨
    ∃ left, lazy.store = vs ∧ lazy.queue.values = [] ∧
    lazy.queue.pop (.patient none) = (.ended, left) ∧
      Complete ⟨lazy.store, left⟩ vs := by
  have hpops := h.wellFormed.pops
  generalize hpop : lazy.queue.pop (.patient none) = popped at hpops
  have harrived := h.arrived
  cases hpops with
  | @value v left hwell hclosed hvalues =>
    refine .inl ⟨v, left, hvalues, rfl, hwell, hclosed.trans h.closed, ?_⟩
    rw [← harrived, hvalues, List.append_assoc, List.singleton_append]
  | @ended left hwell hclosed hterminated hvalues =>
    rw [hvalues, List.append_nil] at harrived
    refine .inr ⟨left, harrived, hvalues, rfl, hwell, (hwell.terminated hterminated).1, ?_⟩
    rw [(hwell.terminated hterminated).2, List.append_nil, harrived]
  | waiting hopen hvalues =>
    rw [h.closed] at hopen
    cases hopen

/-- As many values as are wanted are read, or all that are left. -/
theorem fetch (h : lazy.Complete vs) (count : Nat) :
    ∃ halt next, lazy.fetch none count = (halt, next) ∧ next.Complete vs ∧
    next.store = lazy.store ++ lazy.queue.values.take count ∧
      (halt = .found ∨ halt = .ended) := by
  induction count generalizing lazy with
  | zero => exact ⟨.found, lazy, rfl, h, by simp, .inl rfl⟩
  | succ count ih =>
    rcases h.pop with ⟨v, left, hvalues, hpop, hnext⟩ | ⟨left, _, hvalues, hpop, hnext⟩
    · obtain ⟨halt, next, hfetch, hcomplete, hstore, hhalt⟩ := ih hnext
      refine ⟨halt, next, by rw [Lazy.fetch, hpop]; exact hfetch, hcomplete, ?_, hhalt⟩
      rw [hstore, hvalues, List.take_succ_cons, List.append_assoc, List.singleton_append]
    · refine ⟨.ended, _, by rw [Lazy.fetch, hpop], hnext, ?_, .inr rfl⟩
      rw [hvalues, List.take_nil, List.append_nil]

theorem fetchAll (h : lazy.Complete vs) :
    ∃ next, lazy.fetchAll none = (.ended, next) ∧ next.Complete vs ∧ next.store = vs := by
  generalize hleft : lazy.queue.values = values
  induction values generalizing lazy with
  | nil =>
    rcases h.pop with ⟨v, left, hvalues, _, _⟩ | ⟨left, hstore, _, hpop, hnext⟩
    · rw [hleft] at hvalues
      cases hvalues
    · exact ⟨_, by rw [fetchAll_eq, hpop], hnext, hstore⟩
  | cons w values ih =>
    rcases h.pop with ⟨v, left, hvalues, hpop, hnext⟩ | ⟨left, _, hvalues, _, _⟩
    · rw [hleft] at hvalues
      rw [fetchAll_eq, hpop]
      exact ih hnext (List.cons.inj hvalues).2.symm
    · rw [hleft] at hvalues
      cases hvalues

theorem whole {β : Type} (h : lazy.Complete vs) (answer : List α → β) :
    ∃ next, lazy.whole none answer = (.value (answer vs), next) ∧ next.Complete vs := by
  obtain ⟨next, hfetch, hnext, hstore⟩ := h.fetchAll
  exact ⟨next, by rw [Lazy.whole, hfetch, ← hstore], hnext⟩

theorem items (h : lazy.Complete vs) : ∃ next, lazy.items none = (vs, next) ∧ next.Complete vs := by
  obtain ⟨next, hfetch, hnext, hstore⟩ := h.fetchAll
  exact ⟨next, by rw [Lazy.items, hfetch, ← hstore], hnext⟩

theorem get (h : lazy.Complete vs) (index : Nat) :
    ∃ next, lazy.get none index = (.ofOption vs[index]?, next) ∧ next.Complete vs := by
  obtain ⟨halt, next, hfetch, hnext, hstore, hhalt⟩ := h.fetch (index + 1 - lazy.store.length)
  have hfound : next.store[index]? = vs[index]? := by
    rw [hstore, ← h.arrived]
    by_cases hindex : index < lazy.store.length
    · rw [List.getElem?_append_left hindex, List.getElem?_append_left hindex]
    · rw [List.getElem?_append_right (by omega), List.getElem?_append_right (by omega),
        List.getElem?_take]
      rw [if_pos (by omega)]
  refine ⟨next, ?_, hnext⟩
  rw [Lazy.get, hfetch]
  simp only [hfound]
  cases vs[index]? with
  | some v => rfl
  | none => rcases hhalt with rfl | rfl <;> rfl

theorem isEmpty (h : lazy.Complete vs) :
    ∃ next, lazy.isEmpty none = (.value vs.isEmpty, next) ∧ next.Complete vs := by
  obtain ⟨next, hget, hnext⟩ := h.get 0
  refine ⟨next, ?_, hnext⟩
  rw [Lazy.isEmpty, hget]
  cases vs <;> rfl

end Complete

end Lazy
end QueryShell
