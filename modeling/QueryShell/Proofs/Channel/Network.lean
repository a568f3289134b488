import Mathlib.Data.List.Nodup
import QueryShell.Channel.Action
import QueryShell.Proofs.Channel.Copies

/-! What the parts of a network look like after a change and after a step of a worker: a change
reaches the channels that it names, and no change gives a channel another token. -/

namespace QueryShell

def Worker.forwarded? : Worker → Option Nat
  | .forward source _ => some source
  | _ => none

namespace Network

def forwarding (net : Network) : List Nat := net.workers.filterMap Worker.forwarded?

def isForwarding (net : Network) (id : Nat) : Bool := net.forwarding.contains id

variable {net next : Network} {id j : Nat}

theorem queue_of_ge {id : Nat} (hid : net.channels.length ≤ id) : net.queue id = .ofValues [] := by
  rw [queue, channel, List.getElem?_eq_none hid]
  rfl

theorem channel_update (net : Network) (id : Nat) (change : Channel → Channel)
    (hid : id < net.channels.length) (j : Nat) :
    (net.update id change).channel j =
      if j = id then change (net.channel j) else net.channel j := by
  unfold channel update
  rw [List.getElem?_modify]
  by_cases hj : j = id
  · subst hj
    simp [hid]
  · simp [hj, Ne.symm hj]

theorem length_update (net : Network) (id : Nat) (change : Channel → Channel) :
    (net.update id change).channels.length = net.channels.length := by
  simp [update]

theorem length_updateAll (net : Network) (ids : List Nat) (change : Channel → Channel) :
    (net.updateAll ids change).channels.length = net.channels.length := by
  unfold updateAll
  induction ids generalizing net with
  | nil => rfl
  | cons id ids ih => rw [List.foldl_cons, ih, length_update]

theorem channel_updateAll (net : Network) {ids : List Nat} (hnodup : ids.Nodup)
    (hids : ∀ id ∈ ids, id < net.channels.length) (change : Channel → Channel) (j : Nat) :
    (net.updateAll ids change).channel j =
      if j ∈ ids then change (net.channel j) else net.channel j := by
  unfold updateAll
  induction ids generalizing net with
  | nil => simp
  | cons id ids ih =>
    have hlength := length_update net id change
    obtain ⟨hnot, hnodup⟩ := List.nodup_cons.mp hnodup
    obtain ⟨hid, hids⟩ := List.forall_mem_cons.mp hids
    rw [List.foldl_cons, ih (net.update id change) hnodup (fun i hi => hlength ▸ hids i hi),
      channel_update net id change hid]
    by_cases hj : j = id
    · subst hj
      simp [hnot]
    · simp [hj]

theorem length_setQueue (net : Network) (id : Nat) (q : Queue Value) :
    (net.setQueue id q).channels.length = net.channels.length :=
  length_update ..

theorem queue_setQueue (net : Network) (hid : id < net.channels.length) (q : Queue Value)
    (j : Nat) :
    (net.setQueue id q).queue j = if j = id then q else net.queue j := by
  unfold queue setQueue
  rw [channel_update net id _ hid]
  split <;> rfl

theorem queue_spread (net : Network) (entry : Entry Value) {targets : List Nat}
    (hnodup : targets.Nodup) (htargets : ∀ id ∈ targets, id < net.channels.length) (j : Nat) :
    (net.spread entry targets).queue j =
      if j ∈ targets then (net.queue j).accept entry else net.queue j := by
  unfold queue spread
  rw [channel_updateAll net hnodup htargets]
  split <;> rfl

/-! ### What a change leaves alone -/

theorem apply_channel_update {β : Type} (f : Channel → β) {change : Channel → Channel}
    (h : ∀ c, f (change c) = f c) (net : Network) (id j : Nat) :
    f ((net.update id change).channel j) = f (net.channel j) := by
  unfold channel update
  rw [List.getElem?_modify]
  cases net.channels[j]? with
  | none => simp
  | some c =>
    by_cases hj : id = j
    · simp [hj, h]
    · simp [hj]

theorem apply_channel_updateAll {β : Type} (f : Channel → β) {change : Channel → Channel}
    (h : ∀ c, f (change c) = f c) (net : Network) (ids : List Nat) (j : Nat) :
    f ((net.updateAll ids change).channel j) = f (net.channel j) := by
  unfold updateAll
  induction ids generalizing net with
  | nil => rfl
  | cons id ids ih => rw [List.foldl_cons, ih, apply_channel_update f h]

theorem updateAll_eq (net : Network) (ids : List Nat) (change : Channel → Channel) :
    net.updateAll ids change = { net with channels := (net.updateAll ids change).channels } := by
  unfold updateAll
  induction ids generalizing net with
  | nil => rfl
  | cons id ids ih =>
    rw [List.foldl_cons, ih]
    rfl

theorem isCancelled_update {change : Channel → Channel} (h : ∀ c, (change c).token = c.token)
    (net : Network) (id j : Nat) :
    (net.update id change).isCancelled j = net.isCancelled j := by
  unfold isCancelled
  rw [apply_channel_update Channel.token h]
  rfl

theorem isCancelled_updateAll {change : Channel → Channel} (h : ∀ c, (change c).token = c.token)
    (net : Network) (ids : List Nat) (j : Nat) :
    (net.updateAll ids change).isCancelled j = net.isCancelled j := by
  unfold isCancelled
  rw [apply_channel_updateAll Channel.token h, updateAll_eq]
  rfl

theorem isCancelled_setQueue (net : Network) (id : Nat) (q : Queue Value) (j : Nat) :
    (net.setQueue id q).isCancelled j = net.isCancelled j :=
  isCancelled_update (by intro c; rfl) net id j

theorem queue_publish (net : Network) (kind : SlotKind) (content : kind.Content)
    (targets : List Nat) (j : Nat) :
    (net.publish kind content targets).queue j = net.queue j := by
  unfold queue publish
  exact apply_channel_updateAll Channel.queue (by intro c; rfl) net targets j

theorem setQueue_queue (net : Network) (id : Nat) : net.setQueue id (net.queue id) = net := by
  have hchannels : (net.setQueue id (net.queue id)).channels = net.channels := by
    apply List.ext_getElem?
    intro j
    rw [setQueue, update, List.getElem?_modify]
    by_cases hj : id = j
    · subst hj
      cases hget : net.channels[id]? with
      | none => rfl
      | some c => simp [queue, channel, hget, Channel.setQueue]
    · simp [hj]
  calc net.setQueue id (net.queue id)
      = { net with channels := (net.setQueue id (net.queue id)).channels } := rfl
    _ = net := by rw [hchannels]

/-- A queue that is closed refuses what is written to it, which leaves it as it is. -/
theorem perform_push (net : Network) (id : Nat) (v : Value) :
    (net.perform (.push id v)).2 = net.setQueue id ((net.queue id).accept (.value v)) := by
  cases hclosed : (net.queue id).inputClosed with
  | true =>
    simp [perform, attempt, Queue.push, hclosed, Queue.accept_of_closed hclosed, setQueue_queue]
  | false => simp [perform, attempt, Queue.push, hclosed, Queue.accept_value hclosed]

theorem perform_terminate (net : Network) (id : Nat) :
    (net.perform (.terminate id)).2 = net.setQueue id ((net.queue id).accept .terminator) := by
  cases hclosed : (net.queue id).inputClosed with
  | true =>
    simp [perform, attempt, Queue.terminate, hclosed, Queue.accept_of_closed hclosed,
      setQueue_queue]
  | false => simp [perform, attempt, Queue.terminate, hclosed, Queue.accept_terminator hclosed]

theorem fuse_of_unfired {id : Nat} (h : net.isCancelled id = false) : net.fuse id = none := by
  rw [fuse, h, if_neg Bool.false_ne_true]

/-! ### Copies -/

theorem length_split (net : Network) (id count : Nat) :
    (net.split id count).channels.length = net.channels.length + count := by
  simp [split, employ, append, setQueue, length_update]

theorem channels_split (net : Network) (id count : Nat) : (net.split id count).channels =
    (net.setQueue id (net.queue id).detached).channels ++
      List.replicate count ⟨(net.queue id).replica, .empty, (net.channel id).token⟩ := rfl

theorem channel_split_of_lt (net : Network) (hid : id < net.channels.length) (count : Nat)
    (hj : j < net.channels.length) :
    (net.split id count).channel j =
      if j = id then (net.channel j).setQueue (net.queue id).detached else net.channel j := by
  have hlength : j < (net.setQueue id (net.queue id).detached).channels.length := by
    rwa [length_setQueue]
  have hupdate := channel_update net id (·.setQueue (net.queue id).detached) hid j
  rw [← hupdate, channel, channels_split, List.getElem?_append_left hlength]
  rfl

theorem channel_split_of_ge (net : Network) (id count : Nat) (hj : net.channels.length ≤ j) :
    (net.split id count).channel j =
      if j < net.channels.length + count then
        ⟨(net.queue id).replica, .empty, (net.channel id).token⟩
      else net.channel j := by
  have hlength := length_setQueue net id (net.queue id).detached
  rw [channel, channels_split, List.getElem?_append_right (hlength ▸ hj), hlength]
  by_cases hcopy : j < net.channels.length + count
  · have hindex : j - net.channels.length < count := by omega
    rw [if_pos hcopy, List.getElem?_replicate_of_lt hindex, Option.getD_some]
  · have hindex : count ≤ j - net.channels.length := by omega
    rw [if_neg hcopy, List.getElem?_eq_none (by simpa using hindex), channel,
      List.getElem?_eq_none hj]

theorem queue_split_of_lt (net : Network) (hid : id < net.channels.length) (count : Nat)
    (hj : j < net.channels.length) :
    (net.split id count).queue j = if j = id then (net.queue id).detached else net.queue j := by
  unfold queue
  rw [channel_split_of_lt net hid count hj]
  split <;> rfl

theorem queue_split_of_copy (net : Network) (id count : Nat) (hj : net.channels.length ≤ j)
    (hlt : j < net.channels.length + count) :
    (net.split id count).queue j = (net.queue id).replica := by
  rw [queue, channel_split_of_ge net id count hj, if_pos hlt]

theorem queue_split_of_ge (net : Network) (id count : Nat) (hj : net.channels.length + count ≤ j) :
    (net.split id count).queue j = net.queue j := by
  rw [queue, channel_split_of_ge net id count (by omega), if_neg (by omega)]
  rfl

theorem isCancelled_split (net : Network) (hid : id < net.channels.length) (count : Nat)
    (h : ∀ i, net.isCancelled i = false) (j : Nat) :
    (net.split id count).isCancelled j = false := by
  have htoken : ((net.split id count).channel j).token = (net.channel j).token ∨
      ((net.split id count).channel j).token = (net.channel id).token := by
    by_cases hj : j < net.channels.length
    · left
      rw [channel_split_of_lt net hid count hj]
      split <;> rfl
    · rw [channel_split_of_ge net id count (Nat.le_of_not_lt hj)]
      split
      · exact .inr rfl
      · exact .inl rfl
  unfold isCancelled
  rcases htoken with htoken | htoken
  · rw [htoken]
    exact h j
  · rw [htoken]
    exact h id

theorem workers_split (net : Network) (id count : Nat) :
    (net.split id count).workers = net.workers ++ ((if (net.queue id).isFinished then []
      else [Worker.forward id ((List.range count).map (net.channels.length + ·))]) ++
      SlotKind.all.map fun kind =>
        .relay kind id ((List.range count).map (net.channels.length + ·))) := rfl

theorem forwarding_split (net : Network) (id count : Nat) : (net.split id count).forwarding =
    net.forwarding ++ if (net.queue id).isFinished then [] else [id] := by
  unfold forwarding
  rw [workers_split, List.filterMap_append, List.filterMap_append]
  cases (net.queue id).isFinished <;> simp [SlotKind.all, Worker.forwarded?]

/-! ### Steps of the workers -/

theorem isForwarding_of_workers_eq (h : next.workers = net.workers) :
    next.isForwarding = net.isForwarding := by
  unfold isForwarding forwarding
  rw [h]

theorem isForwarding_iff {id : Nat} :
    net.isForwarding id = true ↔ ∃ targets, .forward id targets ∈ net.workers := by
  unfold isForwarding forwarding
  rw [List.contains_iff_mem, List.mem_filterMap]
  constructor
  · rintro ⟨worker, hworker, hid⟩
    cases worker with
    | forward source targets =>
      cases hid
      exact ⟨targets, hworker⟩
    | relay | stage => cases hid
  · rintro ⟨targets, hworker⟩
    exact ⟨_, hworker, rfl⟩

theorem exists_workers_eq {index : Nat} {worker : Worker} (h : net.workers[index]? = some worker) :
    ∃ before after, net.workers = before ++ worker :: after ∧
    net.workers.eraseIdx index = before ++ after := by
  obtain ⟨hindex, rfl⟩ := List.getElem?_eq_some_iff.mp h
  refine ⟨net.workers.take index, net.workers.drop (index + 1), ?_,
    List.eraseIdx_eq_take_drop_succ ..⟩
  rw [← List.drop_eq_getElem_cons, List.take_append_drop]

/-- When a worker leaves that has forwarded from a queue, no other one does. -/
theorem isForwarding_erase (hnodup : net.forwarding.Nodup) {index : Nat} {worker : Worker}
    (hworker : net.workers[index]? = some worker)
    (hnext : next.workers = net.workers.eraseIdx index) (j : Nat) :
    next.isForwarding j = (net.isForwarding j && worker.forwarded? ≠ some j) := by
  obtain ⟨before, after, hworkers, herase⟩ := exists_workers_eq hworker
  unfold isForwarding
  unfold forwarding at hnodup ⊢
  rw [hnext, herase, List.filterMap_append]
  rw [hworkers, List.filterMap_append, List.filterMap_cons] at hnodup ⊢
  cases hforwarded : worker.forwarded? with
  | none => simp
  | some source =>
    rw [hforwarded] at hnodup
    have hnot := (List.nodup_middle.mp hnodup).notMem
    by_cases hj : j = source
    · subst hj
      simpa using hnot
    · simp [hj, Ne.symm hj]

theorem isCancelled_forward (net : Network) (source : Nat) (left : Queue Value)
    (entry : Entry Value) (targets : List Nat) (j : Nat) :
    ((net.setQueue source left).spread entry targets).isCancelled j = net.isCancelled j := by
  unfold spread
  rw [isCancelled_updateAll (by intro c; rfl), isCancelled_setQueue]

theorem length_forward (net : Network) (source : Nat) (left : Queue Value) (entry : Entry Value)
    (targets : List Nat) :
    ((net.setQueue source left).spread entry targets).channels.length = net.channels.length := by
  unfold spread
  rw [length_updateAll, length_setQueue]

theorem step_forward {source : Nat} (hunfired : net.isCancelled source = false) (targets : List Nat)
    {entry : Entry Value} {rest : List (Entry Value)}
    (hunread : (net.queue source).unread = entry :: rest) :
    net.step (.forward source targets) = some
      ((net.setQueue source { net.queue source with unread := rest }).spread entry targets,
        if entry.closes then none else some (.forward source targets)) := by
  rw [step, hunfired, if_neg Bool.false_ne_true, Queue.receive?, hunread]
  cases entry <;> rfl

theorem step_forward_of_empty {source : Nat} (hunfired : net.isCancelled source = false)
    (targets : List Nat) (hunread : (net.queue source).unread = []) :
    net.step (.forward source targets) = none := by
  rw [step, hunfired, if_neg Bool.false_ne_true, Queue.receive?, hunread]

/-- What a worker that copies a slot does is not seen in the queues. -/
theorem step_relay (net : Network) (kind : SlotKind) (source : Nat) (targets : List Nat) :
    net.step (.relay kind source targets) = none ∨
      ∃ after, net.step (.relay kind source targets) = some (after, none) ∧
        after.channels.length = net.channels.length ∧
        ∀ j, after.isCancelled j = net.isCancelled j ∧ after.queue j = net.queue j := by
  rw [step]
  split
  · next content _ =>
    refine .inr ⟨_, rfl, ?_, fun j => ⟨?_, queue_publish ..⟩⟩
    · rw [publish, length_updateAll]
    · exact isCancelled_updateAll (by intro c; rfl) net targets j
  · exact .inl rfl
  · exact .inr ⟨net, rfl, rfl, fun _ => ⟨rfl, rfl⟩⟩

theorem advance_of_step {index : Nat} {worker : Worker}
    (hworker : net.workers[index]? = some worker) :
    net.advance index = match net.step worker with
      | none => net
      | some (after, none) => { after with workers := net.workers.eraseIdx index }
      | some (after, some left) => { after with workers := net.workers.set index left } := by
  rcases hstep : net.step worker with _ | ⟨after, _ | left⟩
  all_goals simp [advance, hworker, hstep]

end Network
end QueryShell
