import QueryShell.Proofs.Channel.Queue

/-! What a split does to a queue and what the copies start with: nothing is left for the readers of
the queue, and a copy gets what they have not read. Entries still come to the queue, and are passed
on from it. -/

namespace QueryShell

namespace Entry

variable {α : Type}

def values : Entry α → List α
  | .value v => [v]
  | .terminator => []

def closes : Entry α → Bool
  | .value _ => false
  | .terminator => true

end Entry

namespace Queue

variable {α : Type} {q : Queue α}

theorem accept_value (hopen : q.inputClosed = false) (v : α) : q.accept (.value v) = q.put [v] := by
  simp [accept, emit, hopen]

theorem accept_terminator (hopen : q.inputClosed = false) : q.accept .terminator = q.close := by
  simp [accept, finish, hopen]

theorem accept_of_closed (hclosed : q.inputClosed = true) (entry : Entry α) :
    q.accept entry = q := by
  cases entry with
  | value v => rw [accept, emit, if_pos hclosed]
  | terminator => rw [accept, finish, if_pos hclosed]

theorem inputClosed_accept (hopen : q.inputClosed = false) (entry : Entry α) :
    (q.accept entry).inputClosed = entry.closes := by
  cases entry with
  | value v =>
    rw [accept_value hopen]
    exact hopen
  | terminator =>
    rw [accept_terminator hopen]
    rfl

theorem terminated_accept (q : Queue α) (entry : Entry α) :
    (q.accept entry).terminated = q.terminated := by
  cases entry with
  | value v =>
    simp only [accept, emit]
    split <;> rfl
  | terminator =>
    simp only [accept, finish]
    split <;> rfl

theorem length_accept_le (q : Queue α) (entry : Entry α) :
    (q.accept entry).unread.length ≤ q.unread.length + 1 := by
  cases entry with
  | value v => exact length_emit_le q v
  | terminator => exact length_finish_le q

theorem WellFormed.accept (h : q.WellFormed) (hopen : q.inputClosed = false) (entry : Entry α) :
    (q.accept entry).WellFormed ∧ (q.accept entry).values = q.values ++ entry.values := by
  cases entry with
  | value v =>
    rw [accept_value hopen]
    exact h.put hopen [v]
  | terminator =>
    rw [accept_terminator hopen]
    have hclose := h.close hopen
    simpa [Entry.values] using hclose

/-! ### A queue that has been split -/

/-- Readers see the end of a queue that has been split. What is in it waits to be forwarded, the
terminator last. When nothing forwards it any more, all of it has been forwarded. -/
structure Detached (q : Queue α) (forwarded : Bool) : Prop where
  terminated : q.terminated = true
  unread : q.unread =
    q.values.map .value ++ if q.inputClosed && forwarded then [.terminator] else []
  exhausted : forwarded = false → q.inputClosed = true ∧ q.values = []

namespace Detached

variable {forwarded : Bool}

theorem forwarded_of_open (h : q.Detached forwarded) (hopen : q.inputClosed = false) :
    forwarded = true := by
  cases hforwarded : forwarded with
  | true => rfl
  | false =>
    have hclosed := (h.exhausted hforwarded).1
    simp [hopen] at hclosed

theorem accept (h : q.Detached forwarded) (hopen : q.inputClosed = false) (entry : Entry α) :
    (q.accept entry).Detached forwarded ∧ (q.accept entry).values = q.values ++ entry.values := by
  have hforwarded := h.forwarded_of_open hopen
  have hbefore : q.unread = q.values.map .value := by simpa [hopen] using h.unread
  have hunread : (q.accept entry).unread = (q.values ++ entry.values).map .value ++
      if (q.accept entry).inputClosed && forwarded then [.terminator] else [] := by
    rw [inputClosed_accept hopen]
    cases entry with
    | value v => simp [accept_value hopen, put, hbefore, Entry.values, Entry.closes]
    | terminator =>
      simp [accept_terminator hopen, close, hbefore, Entry.values, Entry.closes, hforwarded]
  have hvalues := values_of_unread_eq _ hunread
  refine ⟨⟨?_, hvalues.symm ▸ hunread, ?_⟩, hvalues⟩
  · rw [terminated_accept, h.terminated]
  · simp [hforwarded]

theorem receive (h : q.Detached true) {entry : Entry α} {rest : List (Entry α)}
    (hunread : q.unread = entry :: rest) :
    Detached { q with unread := rest } (!entry.closes) ∧
    q.values = entry.values ++ valuesOf rest := by
  have hshape := h.unread
  rw [hunread, Bool.and_true] at hshape
  cases entry with
  | value v =>
    have hvalues : q.values = v :: valuesOf rest := by rw [values, hunread, valuesOf]
    rw [hvalues, List.map_cons, List.cons_append, List.cons.injEq] at hshape
    have hstill : (!(Entry.value v).closes) ≠ false := by simp [Entry.closes]
    exact ⟨⟨h.terminated, by simpa [Entry.closes, values] using hshape.2,
      fun hidle => absurd hidle hstill⟩, hvalues⟩
  | terminator =>
    have hvalues : q.values = [] := by rw [values, hunread, valuesOf_terminator]
    cases hclosed : q.inputClosed with
    | false => simp [hvalues, hclosed] at hshape
    | true =>
      have hrest : rest = [] := by simpa [hvalues, hclosed] using hshape
      subst hrest
      exact ⟨⟨h.terminated, rfl, fun _ => ⟨rfl, rfl⟩⟩, hvalues⟩

end Detached

theorem WellFormed.isFinished_eq (h : q.WellFormed) : q.isFinished = q.inputClosed := by
  have hunread := h.unread
  cases hterminated : q.terminated with
  | true => simp [isFinished, hterminated, (h.terminated hterminated).1]
  | false =>
    rw [isFinished, hterminated, hunread]
    cases hclosed : q.inputClosed <;> simp [hterminated]

/-- A copy gets what was there, and is closed if there is nothing to come. -/
theorem WellFormed.replica (h : q.WellFormed) :
    q.replica.WellFormed ∧ q.replica.values = q.values ∧ q.replica.inputClosed = q.inputClosed := by
  have hkept : (if q.terminated then [] else q.values) = q.values := by
    split
    · next hterminated => rw [(h.terminated hterminated).2]
    · rfl
  unfold Queue.replica
  rw [hkept, h.isFinished_eq]
  cases hclosed : q.inputClosed with
  | true =>
    have hmade := wellFormed_made (some q.values)
    exact ⟨hmade, values_made (some q.values), rfl⟩
  | false =>
    obtain ⟨hput, hvalues⟩ := (wellFormed_made (α := α) none).put rfl q.values
    exact ⟨hput, hvalues, rfl⟩

theorem inputClosed_detached (q : Queue α) : q.detached.inputClosed = q.inputClosed := by
  unfold Queue.detached
  split <;> rfl

theorem length_values_detached_le (q : Queue α) : q.detached.values.length ≤ q.values.length := by
  unfold Queue.detached
  split
  · exact Nat.le_refl _
  · exact Nat.zero_le _

/-- A split leaves nothing for readers. -/
theorem WellFormed.detached (h : q.WellFormed) :
    q.detached.Detached (!q.inputClosed) ∧ q.detached.values = [] := by
  have hleft : Queue.detached q = { q with unread := [], terminated := true } := by
    unfold Queue.detached
    split
    · next hterminated =>
      have hunread : q.unread = [] := by
        simpa [hterminated, (h.terminated hterminated).2] using h.unread
      rw [← hunread, ← hterminated]
    · rfl
  rw [hleft]
  refine ⟨⟨rfl, ?_, ?_⟩, rfl⟩
  · simp [values, valuesOf]
  · simp [values, valuesOf]

end Queue

end QueryShell
