import QueryShell.Proofs.Channel.Handling

/-! Queues in the states that a network can come to, whatever is done with it: values come first in
them, and a terminator stands behind the last one. -/

namespace QueryShell

namespace Queue

variable {α : Type} {fuse : Fuse} {q next : Queue α}

/-- As long as one end of the queue is open, there are values in it, and the terminator behind them
once it is written. -/
def Orderly (q : Queue α) : Prop :=
  q.inputClosed = false ∨ q.terminated = false →
    q.unread = q.values.map .value ++ if q.inputClosed then [.terminator] else []

theorem orderly_of_unread_eq (vs : List α)
    (h : q.inputClosed = false ∨ q.terminated = false →
      q.unread = vs.map .value ++ if q.inputClosed then [.terminator] else []) : q.Orderly := by
  intro hend
  have hunread := h hend
  rwa [values_of_unread_eq vs hunread]

theorem orderly_made (preset : Option (List α)) : (made preset).Orderly := by
  cases preset with
  | none => exact orderly_of_unread_eq [] fun _ => rfl
  | some vs => exact orderly_of_unread_eq vs fun _ => rfl

theorem Orderly.unread_of_open (h : q.Orderly) (hopen : q.inputClosed = false) :
    q.unread = q.values.map .value := by
  have hunread := h (.inl hopen)
  rwa [hopen, if_neg Bool.false_ne_true, List.append_nil] at hunread

theorem Orderly.put (h : q.Orderly) (hopen : q.inputClosed = false) (vs : List α) :
    (q.put vs).Orderly ∧ (q.put vs).values = q.values ++ vs := by
  have hunread : (q.put vs).unread = (q.values ++ vs).map .value ++
      if (q.put vs).inputClosed then [.terminator] else [] := by
    have hclosed : (q.put vs).inputClosed = false := hopen
    rw [hclosed, if_neg Bool.false_ne_true, List.append_nil, Queue.put, h.unread_of_open hopen,
      List.map_append]
  exact ⟨orderly_of_unread_eq _ fun _ => hunread, values_of_unread_eq _ hunread⟩

theorem Orderly.close (h : q.Orderly) (hopen : q.inputClosed = false) :
    q.close.Orderly ∧ q.close.values = q.values := by
  have hunread : q.close.unread =
      q.values.map .value ++ if q.close.inputClosed then [.terminator] else [] := by
    rw [Queue.close, h.unread_of_open hopen]
    rfl
  exact ⟨orderly_of_unread_eq _ fun _ => hunread, values_of_unread_eq _ hunread⟩

theorem Orderly.closeIf (h : q.Orderly) (hopen : q.inputClosed = false) (closing : Bool) :
    (if closing then q.close else q).Orderly := by
  cases closing with
  | true => exact (h.close hopen).1
  | false => exact h

/-- Nothing is said of a queue with both ends closed. -/
theorem orderly_of_ended (hclosed : q.inputClosed = true) (hended : q.terminated = true) :
    q.Orderly := by
  rintro (hopen | hgoing)
  · cases hclosed.symm.trans hopen
  · cases hended.symm.trans hgoing

/-- What is left behind values that were taken from the front. -/
theorem Orderly.drop (h : q.Orderly) (hend : q.inputClosed = false ∨ q.terminated = false)
    (vs : List α) {left : List (Entry α)} (hunread : q.unread = vs.map .value ++ left) :
    left = (valuesOf left).map .value ++ if q.inputClosed then [.terminator] else [] := by
  have hvalues : q.values = vs ++ valuesOf left := by rw [values, hunread, valuesOf_append]
  have hshape := h hend
  rwa [hunread, hvalues, List.map_append, List.append_assoc, List.append_cancel_left_eq] at hshape

theorem Orderly.closed_of_terminator (h : q.Orderly) (vs : List α) {left : List (Entry α)}
    (hunread : q.unread = vs.map .value ++ .terminator :: left) : q.inputClosed = true := by
  cases hclosed : q.inputClosed with
  | true => rfl
  | false =>
    have hleft := h.drop (.inl hclosed) vs hunread
    rw [hclosed] at hleft
    cases hleft

theorem Orderly.read (h : q.Orderly) (sought : α → Bool) (fuse : Fuse) :
    (q.readThrough sought fuse).2.2.Orderly := by
  rcases q.readThrough_cases sought fuse with ⟨_, hread⟩ | ⟨vs, left, hunread, hread⟩ |
    ⟨vs, halt, left, hgoing, _, _, hunread, hread⟩ <;> rw [hread]
  · exact h
  · exact orderly_of_ended (h.closed_of_terminator vs hunread) rfl
  · exact orderly_of_unread_eq (valuesOf left) fun _ => h.drop (.inr hgoing) vs hunread

theorem Orderly.pop (h : q.Orderly) (access : Access) : (q.pop access).2.Orderly := by
  rcases q.pop_cases access with ⟨_, hpop⟩ | ⟨_, hpop⟩ | ⟨_, hpop⟩ | ⟨v, rest, hunread, hpop⟩ |
    ⟨rest, hunread, hpop⟩ <;>
    rw [hpop]
  · exact h
  · exact h
  · exact h
  · exact orderly_of_unread_eq (valuesOf rest) fun hend => h.drop hend [v] hunread
  · exact orderly_of_ended (h.closed_of_terminator [] hunread) rfl

theorem Orderly.turned (h : q.Orderly) (sought : α → Bool) (fuse : Fuse) (closing : Bool) :
    (q.turnThrough sought fuse closing).2.2.Orderly := by
  cases hopen : q.inputClosed with
  | true =>
    rw [turnThrough, if_pos hopen]
    exact h
  | false =>
    rcases turnThrough_cases hopen sought fuse closing with
      hturn | ⟨vs, halt, left, _, _, hturned, hturn⟩ <;> rw [hturn]
    · exact h.closeIf hopen closing
    · rw [h.unread_of_open hopen, ← List.map_append] at hturned
      obtain ⟨front, back, _, _, hback⟩ := List.map_eq_append_iff.mp hturned
      -- The terminator cannot have been read, since it was not written.
      have hgoing : halt ≠ .ended := by
        intro hended
        rw [if_pos hended] at hback
        cases back <;> cases hback
      rw [if_neg hgoing] at hback
      have hleft : Orderly { q with unread := left, terminated := decide (halt = .ended) } := by
        refine orderly_of_unread_eq back fun _ => ?_
        rw [hopen, if_neg Bool.false_ne_true, List.append_nil]
        exact hback.symm
      exact hleft.closeIf hopen (closing && halt.isRegular)

theorem orderly_of_handled (h : q.Orderly) (hhandled : q.Handled fuse next) : next.Orderly := by
  induction hhandled with
  | kept => exact h
  | put _ hopen vs ih => exact (ih.put hopen vs).1
  | closed _ hopen ih => exact (ih.close hopen).1
  | read _ sought ih => exact ih.read sought fuse
  | turned _ sought closing ih => exact ih.turned sought fuse closing

theorem Orderly.detached (h : q.Orderly) : q.detached.Orderly := by
  unfold Queue.detached
  split
  · exact h
  · next hgoing =>
    refine orderly_of_unread_eq [] fun hend => ?_
    rcases hend with hopen | hend
    · rw [hopen]
      rfl
    · cases hend

theorem orderly_replica (q : Queue α) : q.replica.Orderly := by
  unfold replica
  dsimp only
  split
  · exact orderly_made (some _)
  · exact ((orderly_made none).put rfl _).1

/-- The worker that forwards from a queue reads it when it has been split. -/
theorem Orderly.receive (h : q.Orderly) (hend : q.terminated = true) {entry : Entry α}
    (hreceive : q.receive? = some (entry, next)) : next.Orderly := by
  rw [receive?] at hreceive
  split at hreceive
  · cases hreceive
  · next entry' rest hunread =>
    cases hreceive
    refine orderly_of_unread_eq (valuesOf rest) fun hends => ?_
    have hopen : q.inputClosed = false :=
      hends.resolve_right fun hgoing => Bool.noConfusion (hend.symm.trans hgoing)
    cases entry with
    | value v => exact h.drop (.inl hopen) [v] hunread
    | terminator =>
      have hclosed := h.closed_of_terminator [] hunread
      cases hclosed.symm.trans hopen

/-! ### An end that has been read -/

theorem terminated_of_handled (h : q.terminated = true) (hhandled : q.Handled fuse next) :
    next.terminated = true := by
  induction hhandled with
  | kept => exact h
  | put _ _ _ ih => exact ih
  | closed _ _ ih => exact ih
  | read _ sought ih =>
    rw [readThrough_of_terminated ih]
    exact ih
  | turned _ sought closing ih =>
    rw [turnThrough, if_pos ih]
    split
    · exact ih
    · split <;> exact ih

theorem terminated_detached (q : Queue α) : q.detached.terminated = true := by
  unfold Queue.detached
  split
  · assumption
  · rfl

theorem terminated_receive {entry : Entry α} (hreceive : q.receive? = some (entry, next)) :
    next.terminated = q.terminated := by
  rw [receive?] at hreceive
  split at hreceive
  · cases hreceive
  · cases hreceive
    rfl

end Queue

namespace Network

variable {net : Network} {id : Nat}

theorem terminated_perform (h : (net.queue id).terminated = true) (action : Action) :
    ((net.perform action).2.queue id).terminated = true := by
  have hold : id < net.channels.length := by
    by_contra hnew
    rw [queue_of_ge (Nat.le_of_not_lt hnew)] at h
    cases h
  have htouched := touched_perform net action id
  generalize (net.perform action).2.queue id = q at htouched ⊢
  cases htouched with
  | handled hhandled => exact Queue.terminated_of_handled h hhandled
  | popped _ => rwa [Queue.pop_of_terminated h]
  | detached _ _ => exact Queue.terminated_detached _
  | received _ _ hreceive hhandled =>
    exact Queue.terminated_of_handled ((Queue.terminated_receive hreceive).trans h) hhandled
  | made hnew _ => exact absurd hold (Nat.not_lt.mpr hnew)
  | copied hnew _ => exact absurd hold (Nat.not_lt.mpr hnew)

theorem terminated_performAll (h : (net.queue id).terminated = true) (history : List Action) :
    ((net.performAll history).queue id).terminated = true := by
  induction history generalizing net with
  | nil => exact h
  | cons action history ih => exact ih (terminated_perform h action)

/-! ### Workers that forward -/

theorem workers_take (net : Network) (source count : Nat) :
    (net.take source count).2.workers = net.workers := by
  induction count generalizing net with
  | zero => rfl
  | succ count ih =>
    rw [take]
    split
    · exact ih _
    · rfl

theorem workers_transfer (net : Network) (source target : Nat) (sought : Value → Bool)
    (closing : Bool) :
    (net.transfer source target sought closing).2.workers = net.workers := by
  rw [transfer]
  split <;> rfl

theorem workers_updateAll (net : Network) (targets : List Nat) (change : Channel → Channel) :
    (net.updateAll targets change).workers = net.workers := by
  rw [updateAll_eq]

theorem workers_relay (net : Network) (source : Nat) (kinds : List SlotKind) (targets : List Nat) :
    (net.relay source kinds targets).workers = net.workers := by
  unfold relay
  induction kinds generalizing net with
  | nil => rfl
  | cons kind kinds ih =>
    rw [List.foldl_cons, ih]
    split
    · exact workers_updateAll ..
    · rfl

/-- A worker goes on as the kind of worker that it is. -/
theorem forward_of_step {worker : Worker} {next : Network} {source : Nat} {targets : List Nat}
    (hstep : net.step worker = some (next, some (.forward source targets))) :
    worker = .forward source targets := by
  cases worker with
  | forward source targets =>
    rw [step] at hstep
    split at hstep
    · cases hstep
    · split at hstep <;> cases hstep
      rfl
  | relay kind source targets =>
    rw [step] at hstep
    split at hstep <;> cases hstep
  | stage stage =>
    rw [step] at hstep
    split at hstep
    · split at hstep <;> cases hstep
    · split at hstep <;> cases hstep

theorem forward_of_advance {index source : Nat} {targets : List Nat}
    (h : .forward source targets ∈ (net.advance index).workers) :
    .forward source targets ∈ net.workers := by
  cases hworker : net.workers[index]? with
  | none =>
    rw [advance, hworker] at h
    exact h
  | some worker =>
    rw [advance_of_step hworker] at h
    rcases hstep : net.step worker with _ | ⟨after, _ | left⟩ <;> rw [hstep] at h
    · exact h
    · exact List.mem_of_mem_eraseIdx h
    · rcases List.mem_or_eq_of_mem_set h with hold | hnew
      · exact hold
      · rw [← hnew] at hstep
        exact forward_of_step hstep ▸ List.mem_of_getElem? hworker

/-- Only a split starts a worker that forwards, and that from a queue whose end is yet to come. -/
theorem forward_of_perform {action : Action} {source : Nat} {targets : List Nat}
    (h : .forward source targets ∈ (net.perform action).2.workers) :
    .forward source targets ∈ net.workers ∨
      ∃ count, action = .split source count ∧ (net.queue source).isFinished = false := by
  cases action with
  | split id count =>
    have hworkers : (net.perform (.split id count)).2.workers = _ := workers_split net id count
    rw [hworkers, List.mem_append, List.mem_append] at h
    rcases h with hold | hforward | hrelay
    · exact .inl hold
    · cases hfinished : (net.queue id).isFinished with
      | true => simp [hfinished] at hforward
      | false =>
        rw [hfinished, if_neg Bool.false_ne_true, List.mem_singleton] at hforward
        cases hforward
        exact .inr ⟨count, rfl, hfinished⟩
    · obtain ⟨kind, _, hrelay⟩ := List.mem_map.mp hrelay
      cases hrelay
  | advance index => exact .inl (forward_of_advance h)
  | start evaluate input =>
    rcases List.mem_append.mp h with hold | hnew
    · exact .inl hold
    · cases List.mem_singleton.mp hnew
  | take id count => exact .inl (workers_take net id count ▸ h)
  | pull source target closing => exact .inl (workers_transfer net source target _ closing ▸ h)
  | pullThroughException source target closing =>
    exact .inl (workers_transfer net source target _ closing ▸ h)
  | relay source kinds targets => exact .inl (workers_relay net source kinds targets ▸ h)
  | push id v => exact .inl (by rwa [perform_push] at h)
  | terminate id => exact .inl (by rwa [perform_terminate] at h)
  | cancel id =>
    rw [perform] at h
    cases htoken : (net.channel id).token <;> rw [htoken] at h <;> exact .inl h
  | assign id kind content =>
    rw [perform] at h
    split at h <;> exact .inl h
  | name namer input =>
    rw [perform, resolve] at h
    cases hliteral : namer.literal? <;> rw [hliteral] at h <;> exact .inl h
  | _ => exact .inl h

/-! ### Every run -/

/-- All queues are orderly, and workers forward only from queues that read as ended. -/
structure Orderly (net : Network) : Prop where
  queues : ∀ id, (net.queue id).Orderly
  forwards : ∀ source targets, .forward source targets ∈ net.workers →
    (net.queue source).terminated = true

theorem Orderly.perform (h : net.Orderly) (action : Action) : (net.perform action).2.Orderly where
  queues := by
    intro id
    have htouched := touched_perform net action id
    generalize (net.perform action).2.queue id = q at htouched ⊢
    cases htouched with
    | handled hhandled => exact Queue.orderly_of_handled (h.queues id) hhandled
    | popped _ => exact (h.queues id).pop .immediate
    | detached _ _ => exact (h.queues id).detached
    | received hworker _ hreceive hhandled =>
      exact Queue.orderly_of_handled ((h.queues id).receive (h.forwards id _ hworker) hreceive)
        hhandled
    | made _ preset => exact Queue.orderly_made preset
    | copied _ source => exact Queue.orderly_replica _
  forwards := by
    intro source targets hforward
    rcases forward_of_perform hforward with hold | ⟨count, rfl, hgoing⟩
    · exact terminated_perform (h.forwards source targets hold) action
    · have hlt : source < net.channels.length := by
        by_contra hnew
        rw [queue_of_ge (Nat.le_of_not_lt hnew)] at hgoing
        cases hgoing
      have hqueue : (net.perform (.split source count)).2.queue source = _ :=
        queue_split_of_lt net hlt count hlt
      rw [hqueue, if_pos rfl]
      exact Queue.terminated_detached _

theorem Orderly.performAll (h : net.Orderly) (history : List Action) :
    (net.performAll history).Orderly := by
  induction history generalizing net with
  | nil => exact h
  | cons action history ih => exact ih (h.perform action)

theorem orderly_initial : initial.Orderly where
  queues := fun _ => Queue.orderly_made (some [])
  forwards := fun _ _ hforward => nomatch hforward

end Network
end QueryShell
