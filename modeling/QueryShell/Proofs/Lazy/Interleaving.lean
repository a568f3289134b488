import QueryShell.Proofs.Lazy.Readers

/-! Calls on sequences that read one queue, interleaved in any way with each other and with the
writer. What a call answers is what a list of the values answers, whatever others do meanwhile. -/

namespace QueryShell

variable {α : Type}

/-- Readers of one queue, with all calls that were made to them, also those that have answered. -/
structure Interleaving (α : Type) where
  readers : Readers α
  calls : List (Lazy.Call α)

namespace Interleaving

inductive Event (α : Type) where
  | push (v : α)
  | terminate
  /-- A new reader with a store of its own comes to the queue. -/
  | join
  /-- A call begins. -/
  | call (store : Nat) (query : Lazy.Query)
  /-- One of the calls takes its next step. -/
  | advance (index : Nat)

namespace Event

def writes : Event α → Bool
  | push _ => true
  | terminate => true
  | _ => false

def advances (index : Nat) : Event α → Bool
  | advance other => other == index
  | _ => false

theorem eq_of_advances {index : Nat} {event : Event α} (h : event.advances index = true) :
    event = advance index := by
  cases event with
  | advance other => exact congrArg advance (eq_of_beq h)
  | _ => cases h

end Event

/-- What the writer wants to do with a queue that is closed is refused. -/
def write (system : Interleaving α) : Except ChannelError (Queue α) → Interleaving α
  | .ok queue => { system with readers := { system.readers with queue } }
  | .error _ => system

theorem calls_write (system : Interleaving α) (result : Except ChannelError (Queue α)) :
    (system.write result).calls = system.calls := by
  cases result <;> rfl

def perform (system : Interleaving α) : Event α → Interleaving α
  | .push v => system.write (system.readers.queue.push v)
  | .terminate => system.write system.readers.queue.terminate
  | .join => { system with readers := system.readers.join }
  | .call store query =>
    match system.readers.stores[store]? with
    | some held =>
      { system with calls := system.calls ++ [⟨store, query, .looking, held.length, 0⟩] }
    | none => system
  | .advance index =>
    match system.calls[index]? with
    | some call =>
      let (next, readers) := system.readers.visit call.store fun lazy _ => call.step lazy
      ⟨readers, system.calls.set index next⟩
    | none => system

/-- How many values the calls on one store have read. -/
def popped (store : Nat) : List (Lazy.Call α) → Nat
  | [] => 0
  | call :: calls => (if call.store = store then call.popped else 0) + popped store calls

def run (system : Interleaving α) (history : List (Event α)) : Interleaving α :=
  history.foldl perform system

def after (history : List (Event α)) : Interleaving α := run ⟨.opened, []⟩ history

theorem run_cons (system : Interleaving α) (event : Event α) (history : List (Event α)) :
    system.run (event :: history) = (system.perform event).run history := rfl

theorem after_append (earlier later : List (Event α)) :
    after (earlier ++ later) = (after earlier).run later :=
  List.foldl_append

/-- The values that are written before the end is. -/
def pushed : List (Event α) → List α
  | [] => []
  | .push v :: later => v :: pushed later
  | .terminate :: _ => []
  | _ :: later => pushed later

def isEnded : List (Event α) → Bool
  | [] => false
  | .terminate :: _ => true
  | _ :: later => isEnded later

theorem pushed_cons (event : Event α) (later : List (Event α)) :
    pushed (event :: later) = pushed [event] ++ if isEnded [event] then [] else pushed later := by
  cases event <;> rfl

theorem isEnded_cons (event : Event α) (later : List (Event α)) :
    isEnded (event :: later) = (isEnded [event] || isEnded later) := by
  cases event <;> rfl

theorem perform_of_closed {system : Interleaving α} {event : Event α}
    (hclosed : system.readers.queue.inputClosed = true) (hwrites : event.writes = true) :
    system.perform event = system := by
  cases event with
  | push v => simp [perform, Queue.push, hclosed, write]
  | terminate => simp [perform, Queue.terminate, hclosed, write]
  | join | call _ _ | advance _ => cases hwrites

theorem perform_advance {system : Interleaving α} {index : Nat} {call : Lazy.Call α} {held : List α}
    (hcall : system.calls[index]? = some call)
    (hheld : system.readers.stores[call.store]? = some held) :
    system.perform (.advance index) =
      ⟨system.readers.leave call.store (call.step ⟨held, system.readers.queue⟩).2,
        system.calls.set index (call.step ⟨held, system.readers.queue⟩).1⟩ := by
  simp [perform, hcall, Readers.visit, Readers.reader, hheld]

theorem perform_advance_none {system : Interleaving α} {index : Nat}
    (hcall : system.calls[index]? = none) :
    system.perform (.advance index) = system := by
  simp [perform, hcall]

theorem popped_append (store : Nat) (calls more : List (Lazy.Call α)) :
    popped store (calls ++ more) = popped store calls + popped store more := by
  induction calls with
  | nil => exact (Nat.zero_add _).symm
  | cons call calls ih => rw [List.cons_append, popped, popped, ih, Nat.add_assoc]

theorem popped_set {calls : List (Lazy.Call α)} {index : Nat} {call next : Lazy.Call α}
    {count : Nat} (hcall : calls[index]? = some call) (hsame : next.store = call.store)
    (hcount : next.popped = call.popped + count) (store : Nat) :
    popped store (calls.set index next) =
      popped store calls + if call.store = store then count else 0 := by
  induction calls generalizing index with
  | nil => cases hcall
  | cons first calls ih =>
    cases index with
    | zero =>
      obtain rfl : first = call := Option.some.inj hcall
      simp only [List.set_cons_zero, popped, hsame, hcount]
      split <;> omega
    | succ index => rw [List.set_cons_succ, popped, popped, ih hcall, Nat.add_assoc]

/-- The values `vs` were written so far, and the end too or not. -/
structure Consistent (system : Interleaving α) (vs : List α) (ended : Bool) : Prop where
  wellFormed : system.readers.queue.WellFormed
  closed : system.readers.queue.inputClosed = ended
  unfired : system.readers.fired = some false
  spread : system.readers.Spread vs
  counted : ∀ store, (system.readers.reader store).store.length = popped store system.calls
  sound : ∀ call ∈ system.calls, ∃ held, system.readers.stores[call.store]? = some held ∧
    call.Sound ⟨held, system.readers.queue⟩

/-- What happens when a call takes its next step: it becomes `next`, and its reader leaves with
`left`. -/
structure Step (system : Interleaving α) (index : Nat) (call : Lazy.Call α) (held : List α)
    (next : Lazy.Call α) (left : Lazy α) : Prop where
  stored : system.readers.stores[call.store]? = some held
  sound : call.Sound ⟨held, system.readers.queue⟩
  made : call.step ⟨held, system.readers.queue⟩ = (next, left)
  steps : call.Steps ⟨held, system.readers.queue⟩ (next, left)
  performed : system.perform (.advance index) =
    ⟨system.readers.leave call.store left, system.calls.set index next⟩
  kept : (system.calls.set index next)[index]? = some next

namespace Consistent

variable {system : Interleaving α} {vs : List α} {ended : Bool}

theorem opened : Consistent (⟨.opened, []⟩ : Interleaving α) [] false where
  wellFormed := Queue.wellFormed_made none
  closed := rfl
  unfired := rfl
  spread := ⟨[], rfl, nofun, fun _ _ hheld => List.mem_singleton.mp (List.mem_of_getElem? hheld)⟩
  counted store := by cases store <;> rfl
  sound := nofun

/-- What is known of the calls is not lost when stores grow. -/
theorem sound_of_grows (h : system.Consistent vs ended) {readers : Readers α}
    (hgrows : system.readers.Grows readers) {call : Lazy.Call α} (hcall : call ∈ system.calls) :
    ∃ held, readers.stores[call.store]? = some held ∧ call.Sound ⟨held, readers.queue⟩ := by
  obtain ⟨held, hheld, hsound⟩ := h.sound call hcall
  obtain ⟨grown, hgrown, hstore⟩ := hgrows call.store held hheld
  exact ⟨grown, hgrown, hsound.grow hstore⟩

theorem write (h : system.Consistent vs false) {queue : Queue α} {more : List α} {closed : Bool}
    (hwell : queue.WellFormed) (hvalues : queue.values = system.readers.queue.values ++ more)
    (hclosed : queue.inputClosed = closed) :
    (system.write (.ok queue)).Consistent (vs ++ more) closed ∧
    system.readers.Grows (system.write (.ok queue)).readers := by
  have hopen : system.readers.queue.terminated = false := h.wellFormed.terminated_eq_false h.closed
  have hgrows : system.readers.Grows (system.write (.ok queue)).readers := fun _ held hheld =>
    ⟨held, hheld, List.prefix_rfl, fun hend => by rw [hopen] at hend; cases hend⟩
  exact ⟨⟨hwell, hclosed, h.unfired, h.spread.put hvalues, h.counted,
    fun call => h.sound_of_grows hgrows⟩, hgrows⟩

theorem exists_step (h : system.Consistent vs ended) {index : Nat} {call : Lazy.Call α}
    (hcall : system.calls[index]? = some call) :
    ∃ held next left, system.Step index call held next left := by
  obtain ⟨held, hheld, hsound⟩ := h.sound call (List.mem_of_getElem? hcall)
  exact ⟨held, _, _, hheld, hsound, rfl, call.steps ⟨held, system.readers.queue⟩ h.wellFormed,
    perform_advance hcall hheld, List.getElem?_set_self (List.getElem?_eq_some_iff.mp hcall).1⟩

theorem advance (h : system.Consistent vs ended) (index : Nat) :
    (system.perform (.advance index)).Consistent vs ended ∧
      system.readers.Grows (system.perform (.advance index)).readers := by
  cases hcall : system.calls[index]? with
  | none =>
    rw [perform_advance_none hcall]
    exact ⟨h, .refl _⟩
  | some call =>
    obtain ⟨held, next, left, hstep⟩ := h.exists_step hcall
    obtain ⟨moved, hmoves, hcount⟩ := hstep.steps.moves h.wellFormed
    have hgrows := Readers.leave_grows h.wellFormed hstep.stored hmoves
    have hspread := h.spread.leave hstep.stored hmoves
    have hcontinues := hstep.steps.continues
    rw [hstep.performed]
    refine ⟨⟨hmoves.wellFormed, hmoves.closed.trans h.closed, h.unfired, hspread, fun store => ?_,
      ?_⟩, hgrows⟩
    · rw [popped_set hcall hcontinues.store hcount, ← h.counted store]
      exact Readers.reader_leave hstep.stored hmoves store
    · intro other hother
      rcases List.mem_or_eq_of_mem_set hother with hother | rfl
      · exact h.sound_of_grows hgrows hother
      · refine ⟨left.store, ?_, hstep.sound.step hstep.steps⟩
        rw [hcontinues.store]
        exact List.getElem?_set_self (List.getElem?_eq_some_iff.mp hstep.stored).1

theorem perform (h : system.Consistent vs ended) (event : Event α) :
    (system.perform event).Consistent (vs ++ if ended then [] else pushed [event])
      (ended || isEnded [event]) ∧
      system.readers.Grows (system.perform event).readers := by
  cases event with
  | push v =>
    cases ended with
    | true =>
      rw [perform_of_closed h.closed rfl, if_pos rfl, List.append_nil]
      exact ⟨h, .refl _⟩
    | false =>
      obtain ⟨hwell, hvalues⟩ := h.wellFormed.put h.closed [v]
      rw [Interleaving.perform, Queue.push, h.closed]
      exact h.write hwell hvalues h.closed
  | terminate =>
    cases ended with
    | true =>
      rw [perform_of_closed h.closed rfl, if_pos rfl, List.append_nil]
      exact ⟨h, .refl _⟩
    | false =>
      obtain ⟨hwell, hvalues⟩ := h.wellFormed.close h.closed
      rw [Interleaving.perform, Queue.terminate, h.closed]
      exact h.write hwell (hvalues.trans (List.append_nil _).symm) rfl
  | join =>
    have hgrows := system.readers.join_grows
    simp only [pushed, ite_self, List.append_nil, isEnded, Bool.or_false]
    have hcounted :=
      fun store => (congrArg List.length (system.readers.reader_join store)).trans (h.counted store)
    exact ⟨⟨h.wellFormed, h.closed, h.unfired, h.spread.join, hcounted,
      fun call => h.sound_of_grows hgrows⟩, hgrows⟩
  | call store query =>
    simp only [pushed, ite_self, List.append_nil, isEnded, Bool.or_false, Interleaving.perform]
    cases hheld : system.readers.stores[store]? with
    | none => exact ⟨h, .refl _⟩
    | some held =>
      refine ⟨⟨h.wellFormed, h.closed, h.unfired, h.spread, fun index => ?_, fun other hother =>
        ?_⟩, .refl _⟩
      · rw [h.counted index, popped_append]
        simp [popped]
      rcases List.mem_append.mp hother with hother | hother
      · exact h.sound other hother
      · rw [List.mem_singleton.mp hother]
        exact ⟨held, hheld, Lazy.Call.sound_begun store query ⟨held, system.readers.queue⟩⟩
  | advance index =>
    simp only [pushed, ite_self, List.append_nil, isEnded, Bool.or_false]
    exact h.advance index

theorem run (h : system.Consistent vs ended) (history : List (Event α)) :
    (system.run history).Consistent (vs ++ if ended then [] else pushed history)
      (ended || isEnded history) ∧
      system.readers.Grows (system.run history).readers := by
  induction history generalizing system vs ended with
  | nil => simpa [pushed, isEnded, Interleaving.run] using And.intro h (Readers.Grows.refl _)
  | cons event history ih =>
    obtain ⟨hnext, hgrows⟩ := h.perform event
    obtain ⟨hlast, hgrows'⟩ := ih hnext
    refine ⟨?_, hgrows.trans hgrows'⟩
    rw [run_cons, pushed_cons, isEnded_cons event history, ← Bool.or_assoc]
    cases ended <;> simpa using hlast

theorem after (history : List (Event α)) :
    (Interleaving.after history).Consistent (pushed history) (isEnded history) :=
  (opened.run history).1

/-- Nothing but its own steps changes a call. -/
theorem calls_perform (h : system.Consistent vs ended) {index : Nat} {call : Lazy.Call α}
    (hcall : system.calls[index]? = some call) {event : Event α}
    (hother : event.advances index = false) :
    (system.perform event).calls[index]? = some call := by
  cases event with
  | push v => rw [Interleaving.perform, calls_write, hcall]
  | terminate => rw [Interleaving.perform, calls_write, hcall]
  | join => exact hcall
  | call store query =>
    rw [Interleaving.perform]
    cases system.readers.stores[store]? with
    | none => exact hcall
    | some held =>
      exact (List.getElem?_append_left (List.getElem?_eq_some_iff.mp hcall).1).trans hcall
  | advance other =>
    have hne : other ≠ index := ne_of_beq_false hother
    cases hother' : system.calls[other]? with
    | none => rw [perform_advance_none hother', hcall]
    | some caller =>
      obtain ⟨_, _, _, hstep⟩ := h.exists_step hother'
      rw [hstep.performed, List.getElem?_set_ne hne, hcall]

theorem perform_call (h : system.Consistent vs ended) {index : Nat} {call : Lazy.Call α}
    (hcall : system.calls[index]? = some call) (event : Event α) :
    ∃ next, (system.perform event).calls[index]? = some next ∧ call.Continues next := by
  cases hadvances : event.advances index with
  | false => exact ⟨call, h.calls_perform hcall hadvances, .refl call⟩
  | true =>
    obtain rfl := Event.eq_of_advances hadvances
    obtain ⟨_, next, _, hstep⟩ := h.exists_step hcall
    exact ⟨next, by rw [hstep.performed, hstep.kept], hstep.steps.continues⟩

theorem run_call (h : system.Consistent vs ended) {index : Nat} {call : Lazy.Call α}
    (hcall : system.calls[index]? = some call) (later : List (Event α)) :
    ∃ next, (system.run later).calls[index]? = some next ∧ call.Continues next := by
  induction later generalizing system vs ended call with
  | nil => exact ⟨call, hcall, .refl call⟩
  | cons event later ih =>
    obtain ⟨next, hnext, hcontinues⟩ := h.perform_call hcall event
    obtain ⟨last, hlast, hcontinues'⟩ := ih (h.perform event).1 hnext
    exact ⟨last, hlast, hcontinues.trans hcontinues'⟩

/-- Without the writer, values only leave the queue. -/
theorem perform_values (h : system.Consistent vs ended) {event : Event α}
    (hwrites : event.writes = false) :
    (system.perform event).readers.queue.values.length ≤ system.readers.queue.values.length := by
  cases event with
  | push _ | terminate => cases hwrites
  | join => exact Nat.le_refl _
  | call store query =>
    rw [Interleaving.perform]
    cases system.readers.stores[store]? <;> exact Nat.le_refl _
  | advance index =>
    cases hcall : system.calls[index]? with
    | none => exact Nat.le_of_eq (by rw [perform_advance_none hcall])
    | some call =>
      obtain ⟨_, _, _, hstep⟩ := h.exists_step hcall
      obtain ⟨moved, hmoves, _⟩ := hstep.steps.moves h.wellFormed
      rw [hstep.performed, hmoves.values, List.length_append]
      exact Nat.le_add_left _ _

theorem run_values (h : system.Consistent vs ended) {later : List (Event α)}
    (hwrites : ∀ e ∈ later, e.writes = false) :
    (system.run later).readers.queue.values.length ≤ system.readers.queue.values.length := by
  induction later generalizing system vs ended with
  | nil => exact Nat.le_refl _
  | cons event later ih =>
    obtain ⟨hevent, hlater⟩ := List.forall_mem_cons.mp hwrites
    exact Nat.le_trans (ih (h.perform event).1 hlater) (h.perform_values hevent)

theorem perform_remaining (h : system.Consistent vs ended) {index : Nat} {call : Lazy.Call α}
    (hcall : system.calls[index]? = some call) {event : Event α} (hwrites : event.writes = false) :
    (ended = false ∧ system.readers.queue.values = []) ∨
    ∃ next, (system.perform event).calls[index]? = some next ∧
      next.phase.remaining (system.perform event).readers.queue.values.length ≤
        call.phase.remaining
          system.readers.queue.values.length - if event.advances index = true then 1 else 0 := by
  cases hadvances : event.advances index with
  | false =>
    exact .inr ⟨call, h.calls_perform hcall hadvances,
      call.phase.remaining_mono (h.perform_values hwrites)⟩
  | true =>
    obtain rfl := Event.eq_of_advances hadvances
    obtain ⟨_, next, _, hstep⟩ := h.exists_step hcall
    rcases hstep.steps.remaining with ⟨hopen, hvalues⟩ | hle
    · exact .inl ⟨h.closed.symm.trans hopen, hvalues⟩
    · rw [hstep.performed]
      exact .inr ⟨next, hstep.kept, hle⟩

/-- Without the writer, each step of a call brings it nearer to its answer until it waits. -/
theorem run_remaining (h : system.Consistent vs ended) {index : Nat} {call : Lazy.Call α}
    (hcall : system.calls[index]? = some call) {later : List (Event α)}
    (hwrites : ∀ e ∈ later, e.writes = false) :
    (ended = false ∧ (system.run later).readers.queue.values = []) ∨
      ∃ next, (system.run later).calls[index]? = some next ∧
        next.phase.remaining (system.run later).readers.queue.values.length ≤
          call.phase.remaining system.readers.queue.values.length - later.countP
            (Event.advances index) := by
  induction later generalizing system vs ended call with
  | nil => exact .inr ⟨call, hcall, Nat.le_refl _⟩
  | cons event later ih =>
    obtain ⟨hevent, hlater⟩ := List.forall_mem_cons.mp hwrites
    rcases h.perform_remaining hcall hevent with ⟨hopen, hvalues⟩ | ⟨next, hnext, hle⟩
    · have hlast := h.run_values hwrites
      rw [hvalues] at hlast
      exact .inl ⟨hopen, List.eq_nil_of_length_eq_zero (Nat.eq_zero_of_le_zero hlast)⟩
    · rcases ih (h.perform event).1 hnext hlater with ⟨hopen, hvalues⟩ | ⟨last, hlast, hle'⟩
      · exact .inl ⟨(Bool.or_eq_false_iff.mp hopen).1, hvalues⟩
      · refine .inr ⟨last, hlast, ?_⟩
        rw [List.countP_cons, run_cons]
        omega

/-- Steps of one call with nothing in between are steps of the call by itself. -/
theorem run_replicate (h : system.Consistent vs ended) {index : Nat} {call : Lazy.Call α}
    {held : List α} (hcall : system.calls[index]? = some call)
    (hheld : system.readers.stores[call.store]? = some held) (count : Nat) :
    system.run (List.replicate count (.advance index)) =
      ⟨system.readers.leave call.store (call.run ⟨held, system.readers.queue⟩ count).2,
        system.calls.set index (call.run ⟨held, system.readers.queue⟩ count).1⟩ := by
  induction count generalizing system call held with
  | zero =>
    obtain ⟨_, hcall⟩ := List.getElem?_eq_some_iff.mp hcall
    obtain ⟨_, hheld⟩ := List.getElem?_eq_some_iff.mp hheld
    simp [Interleaving.run, Lazy.Call.run, Readers.leave, ← hcall, ← hheld]
  | succ count ih =>
    obtain ⟨held', next, left, hstep⟩ := h.exists_step hcall
    obtain rfl : held = held' := Option.some.inj (hheld.symm.trans hstep.stored)
    have hadvance := (h.advance index).1
    rw [hstep.performed] at hadvance
    rw [List.replicate_succ, run_cons, Lazy.Call.run_succ, hstep.made, hstep.performed]
    have hstore : next.store = call.store := hstep.steps.continues.store
    have hleft : (system.readers.stores.set call.store left.store)[next.store]? =
        some left.store := by
      rw [hstore]
      exact List.getElem?_set_self (List.getElem?_eq_some_iff.mp hheld).1
    rw [ih hadvance hstep.kept hleft, hstore]
    simp [Readers.leave]

/-- A call with nothing in between goes as the sequence itself answers. -/
theorem alone (h : system.Consistent vs ended) {index : Nat} {call : Lazy.Call α} {held : List α}
    (hcall : system.calls[index]? = some call)
    (hheld : system.readers.stores[call.store]? = some held) (hphase : call.phase = .looking) :
    ∃ count next,
      system.run (List.replicate count (.advance index)) =
        ⟨(system.readers.visit call.store call.query.ask).2, system.calls.set index next⟩ ∧
      call.Ends ⟨held, system.readers.queue⟩ next := by
  obtain ⟨count, next, hrun, hends⟩ :=
    call.exists_run_eq_ask ⟨held, system.readers.queue⟩ h.wellFormed hphase
  refine ⟨count, next, ?_, hends⟩
  rw [h.run_replicate hcall hheld, hrun]
  simp [Readers.visit, Readers.reader, Readers.fuse, Readers.isFired, h.unfired, hheld]

/-- A single store holds the values in turn, and what its calls have answered is so for all values
that were written. -/
theorem answer_of_single (h : system.Consistent vs ended) {held : List α}
    (hstores : system.readers.stores = [held]) :
    vs = held ++ system.readers.queue.values ∧ ∀ call ∈ system.calls, ∀ answer,
      call.phase = .answered answer →
      call.query ≠ .available →
      answer = call.query.onList vs ∧ (call.query.isSettled vs.length = true ∨ ended = true) := by
  have harrived : vs = held ++ system.readers.queue.values := by
    obtain ⟨popped, hvs, howners, hshare⟩ := h.spread
    rw [hstores, List.length_singleton] at howners
    rw [hvs, hshare 0 held (by rw [hstores]; rfl), Readers.share_of_forall_eq fun p hp =>
      Nat.lt_one_iff.mp (howners p hp)]
  refine ⟨harrived, fun call hcall answer hphase hquery => ?_⟩
  obtain ⟨store, hstore, hsound⟩ := h.sound call hcall
  rw [hstores] at hstore
  obtain rfl : store = held := List.mem_singleton.mp (List.mem_of_getElem? hstore)
  have hholds := hsound.answered answer hphase
  rw [Lazy.Query.Holds, if_neg hquery] at hholds
  obtain ⟨rfl, hsettled | hend⟩ := hholds
  · have hle : store <+: vs := ⟨_, harrived.symm⟩
    exact ⟨Lazy.Query.onList_eq_of_isSettled hquery hsettled hle,
      .inl (Lazy.Query.isSettled_mono hsettled hle.length_le)⟩
  · obtain ⟨hclosed, hvalues⟩ := h.wellFormed.terminated hend
    rw [hvalues, List.append_nil] at harrived
    exact ⟨by rw [harrived], .inr (h.closed.symm.trans hclosed)⟩

end Consistent

/-- What can be seen through a single store. At any time it holds the first of the values and the
queue the rest. A call answers what the list of all values answers, when enough of them are written
or the end is; and it misses an item only if the end is written and the item is not. -/
structure ReadsAsList (history : List (Event α)) (held : List α) : Prop where
  arrived : pushed history = held ++ (after history).readers.queue.values
  answer : ∀ call ∈ (after history).calls, ∀ answer, call.phase = .answered answer →
    call.query ≠ .available →
    answer = call.query.onList (pushed history) ∧
      (call.query.isSettled (pushed history).length = true ∨ isEnded history = true)
  missing : ∀ call ∈ (after history).calls, ∀ index found, call.query = .get index →
    call.phase = .answered (.item found) →
    (found = none ↔ isEnded history = true ∧ (pushed history).length ≤ index)

/-- What can be seen through all stores and of all calls, at any time and from then on. -/
structure RefinesList (history : List (Event α)) : Prop where
  /-- A value that was read is in one store. -/
  spread : (after history).readers.Spread (pushed history)
  sublist : ∀ held ∈ (after history).readers.stores, held.Sublist (pushed history)
  grows : ∀ later, (after history).readers.Grows (after (history ++ later)).readers
  /-- What is in a store has been read by the calls on it. -/
  counted : ∀ store, ((after history).readers.reader store).store.length =
    popped store (after history).calls
  /-- A call reads no more values than were missing. -/
  frugal : ∀ call ∈ (after history).calls, ∀ n, call.query.needs = some n →
    call.popped ≤ n - call.stored
  /-- An answer does not change, and a later call on the same store answers the same. -/
  final : ∀ later (index : Nat) (call : Lazy.Call α) answer,
    (after history).calls[index]? = some call → call.phase = .answered answer →
    (after (history ++ later)).calls[index]? = some call ∧
      ∀ other ∈ (after (history ++ later)).calls, other.store = call.store →
      other.query = call.query →
        call.query ≠ .available → ∀ answer', other.phase = .answered answer' → answer' = answer
  /-- A call answers if it is given its steps, unless it waits for what is not written. -/
  answers : ∀ later (index : Nat) (call : Lazy.Call α), (after history).calls[index]? = some call →
    (∀ event ∈ later, event.writes = false) →
    2 * (after history).readers.queue.values.length + 3 ≤ later.countP (Event.advances index) →
    (∃ next answer, (after (history ++ later)).calls[index]? = some next ∧
      next.phase = .answered answer) ∨
      (isEnded history = false ∧ (after (history ++ later)).readers.queue.values = [])
  /-- With nothing in between, a call goes as the sequence itself answers. -/
  alone : ∀ (index : Nat) (call : Lazy.Call α) held, (after history).calls[index]? = some call →
    (after history).readers.stores[call.store]? = some held → call.phase = .looking → ∃ count next,
      after (history ++ List.replicate count (.advance index)) =
        ⟨((after history).readers.visit call.store call.query.ask).2,
          (after history).calls.set index next⟩ ∧
      call.Ends ⟨held, (after history).readers.queue⟩ next
  single : ∀ held, (after history).readers.stores = [held] → ReadsAsList history held

/-- Whatever is written, and however the steps of calls on any stores come in between each other and
the writer's: each value that is read goes to one store, stores only grow, answers do not change,
and no call reads more than it needs. Each call answers if it need not wait for what is not written.
With a single store the answers are those of the list of the values. -/
theorem refines_list (history : List (Event α)) : RefinesList history := by
  have h := Consistent.after history
  constructor
  case spread => exact h.spread
  case sublist =>
    intro held hheld
    obtain ⟨s, hs, rfl⟩ := List.mem_iff_getElem.mp hheld
    obtain ⟨popped, hvs, _, hshare⟩ := h.spread
    rw [hshare s _ (List.getElem?_eq_getElem hs), hvs]
    exact (Readers.share_sublist popped s).trans (List.sublist_append_left _ _)
  case grows =>
    intro later
    rw [after_append]
    exact (h.run later).2
  case counted => exact h.counted
  case frugal =>
    intro call hcall
    obtain ⟨_, _, hsound⟩ := h.sound call hcall
    exact hsound.frugal
  case final =>
    intro later index call answer hcall hphase
    obtain ⟨next, hnext, hcontinues⟩ := h.run_call hcall later
    obtain rfl := hcontinues.answered answer hphase
    rw [after_append]
    refine ⟨hnext, fun other hother hstore hquery hnot answer' hphase' => ?_⟩
    have hlast := (h.run later).1
    obtain ⟨held, hheld, hsound⟩ := hlast.sound next (List.mem_of_getElem? hnext)
    obtain ⟨held', hheld', hsound'⟩ := hlast.sound other hother
    rw [hstore, hheld, Option.some_inj] at hheld'
    subst hheld'
    have hholds' := hsound'.answered answer' hphase'
    rw [hquery] at hholds'
    exact hholds'.unique hnot (hsound.answered answer hphase)
  case answers =>
    intro later index call hcall hwrites hcount
    rw [after_append]
    rcases h.run_remaining hcall hwrites with hwaits | ⟨next, hnext, hle⟩
    · exact .inr hwaits
    · have hmost := call.phase.remaining_le (after history).readers.queue.values.length
      obtain ⟨answer, hanswer⟩ := next.phase.answered_of_remaining (Nat.le_trans hle (by omega))
      exact .inl ⟨next, answer, hnext, hanswer⟩
  case alone =>
    intro index call held hcall hheld hphase
    simp only [after_append]
    exact h.alone hcall hheld hphase
  case single =>
    intro held hstores
    obtain ⟨harrived, hanswer⟩ := h.answer_of_single hstores
    refine ⟨harrived, hanswer, fun call hcall index found hquery hphase => ?_⟩
    obtain ⟨hfound, henough⟩ := hanswer call hcall _ hphase (by rw [hquery]; nofun)
    rw [hquery] at hfound henough
    obtain rfl : found = (pushed history)[index]? := Lazy.Answer.item.inj hfound
    rw [List.getElem?_eq_none_iff]
    refine ⟨fun hle => ⟨henough.resolve_left fun hsettled => ?_, hle⟩, fun hmissing => hmissing.2⟩
    exact Nat.not_lt.mpr hle (of_decide_eq_true hsettled)

/-- Two calls on one store, begun before anything was written. The second one reads the first value
while the other waits for it, and `get` answers when it has read the next value. -/
theorem refines_list_race :
    let history : List (Event Nat) :=
      [.call 0 (.get 0), .call 0 .items, .advance 0, .advance 1, .push 10, .advance 1,
        .push 20, .advance 0, .advance 0, .terminate, .advance 1, .advance 1, .advance 1]
    RefinesList history ∧ (after history).readers.stores = [[10, 20]] ∧
      (after history).calls.map Lazy.Call.phase =
        [.answered (.item (some 10)), .answered (.sequence [10, 20])] := by
  refine ⟨refines_list _, ?_, ?_⟩ <;> cbv

end Interleaving

end QueryShell
