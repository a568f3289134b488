import QueryShell.Proofs.Channel.Network

/-! What an action can make of a queue. Whatever the action, the queue is only written to and read
under its token, unless it is read at once, split, or read by the worker that forwards what is in
it. -/

namespace QueryShell

namespace Queue

variable {α : Type} {fuse : Fuse} {q middle last : Queue α}

/-- What writers and waiting readers can make of a queue while its token is that far from firing. -/
inductive Handled (fuse : Fuse) (q : Queue α) : Queue α → Prop where
  | kept : Handled fuse q q
  | put {next : Queue α} (h : Handled fuse q next) (hopen : next.inputClosed = false)
    (vs : List α) :
    Handled fuse q (next.put vs)
  | closed {next : Queue α} (h : Handled fuse q next) (hopen : next.inputClosed = false) :
    Handled fuse q next.close
  | read {next : Queue α} (h : Handled fuse q next) (sought : α → Bool) :
    Handled fuse q (next.readThrough sought fuse).2.2
  | turned {next : Queue α} (h : Handled fuse q next) (sought : α → Bool) (closing : Bool) :
    Handled fuse q (next.turnThrough sought fuse closing).2.2

theorem Handled.trans (h : q.Handled fuse middle) (h' : middle.Handled fuse last) :
    q.Handled fuse last := by
  induction h' with
  | kept => exact h
  | put _ hopen vs ih => exact ih.put hopen vs
  | closed _ hopen ih => exact ih.closed hopen
  | read _ sought ih => exact ih.read sought
  | turned _ sought closing ih => exact ih.turned sought closing

theorem handled_accept (fuse : Fuse) (q : Queue α) (entry : Entry α) :
    q.Handled fuse (q.accept entry) := by
  cases hclosed : q.inputClosed with
  | true =>
    rw [accept_of_closed hclosed]
    exact .kept
  | false =>
    cases entry with
    | value v =>
      rw [accept_value hclosed]
      exact .put .kept hclosed [v]
    | terminator =>
      rw [accept_terminator hclosed]
      exact .closed .kept hclosed

theorem handled_foldl_emit (fuse : Fuse) (q : Queue α) (vs : List α) :
    q.Handled fuse (vs.foldl emit q) := by
  induction vs generalizing q with
  | nil => exact .kept
  | cons v vs ih => exact (handled_accept fuse q (.value v)).trans (ih _)

/-- A waiting read is one through the first value of any kind. -/
theorem handled_pop (fuse : Fuse) (q : Queue α) : q.Handled fuse (q.pop (.patient fuse)).2 := by
  have hread : (q.pop (.patient fuse)).2 = (q.readThrough (fun _ => true) fuse).2.2 := by
    obtain ⟨unread, inputClosed, terminated⟩ := q
    cases terminated with
    | true => rfl
    | false =>
      rcases fuse with _ | _ | reads
      · rcases unread with _ | ⟨_ | _, rest⟩ <;> rfl
      · simp [pop, readThrough, takeThrough]
      · rcases unread with _ | ⟨_ | _, rest⟩ <;> rfl
  rw [hread]
  exact .read .kept _

theorem handled_pullThrough (fuse fuse' : Fuse) (source target : Queue α) (sought : α → Bool)
    (closing : Bool) :
    source.Handled fuse (source.pullThrough target sought fuse closing).source ∧
      target.Handled fuse' (source.pullThrough target sought fuse closing).target := by
  rw [pullThrough]
  cases hclosed : target.inputClosed with
  | true => exact ⟨.kept, .kept⟩
  | false =>
    rw [if_neg Bool.false_ne_true]
    have hput : target.Handled fuse' (target.put (source.readThrough sought fuse).1) :=
      .put .kept hclosed _
    refine ⟨.read .kept sought, ?_⟩
    dsimp only
    split
    · exact hput.closed hclosed
    · exact hput

end Queue

namespace Network

variable {net next : Network} {fuse : Fuse} {id : Nat}

/-- All that can become of a queue by an action. -/
inductive Touched (net : Network) (action : Action) (id : Nat) : Queue Value → Prop where
  | handled {q : Queue Value} (h : (net.queue id).Handled (net.fuse id) q) : Touched net action id q
  | popped (haction : action = .pop id false) :
    Touched net action id ((net.queue id).pop .immediate).2
  | detached (hid : id < net.channels.length) {count : Nat} (haction : action = .split id count) :
    Touched net action id (net.queue id).detached
  | received {targets : List Nat} {entry : Entry Value} {left q : Queue Value}
    (hworker : .forward id targets ∈ net.workers) (hunfired : net.isCancelled id = false)
    (hreceive : (net.queue id).receive? = some (entry, left)) (h : left.Handled (net.fuse id) q) :
    Touched net action id q
  | made (hnew : net.channels.length ≤ id) (preset : Option (List Value)) :
    Touched net action id (.made preset)
  | copied (hnew : net.channels.length ≤ id) (source : Nat) :
    Touched net action id (net.queue source).replica

/-! ### Changes of channels -/

theorem handled_update (net : Network) (target : Nat) {change : Channel → Channel}
    (h : target = id → (net.queue id).Handled fuse (change (net.channel id)).queue) :
    (net.queue id).Handled fuse ((net.update target change).queue id) := by
  by_cases hid : id = target
  · subst hid
    by_cases hlt : id < net.channels.length
    · rw [queue, queue, channel_update net id change hlt, if_pos rfl]
      exact h rfl
    · have hge := Nat.le_of_not_lt hlt
      rw [queue_of_ge hge, queue_of_ge (by rwa [length_update])]
      exact .kept
  · have hsame : (net.update target change).queue id = net.queue id := by
      unfold queue channel update
      rw [List.getElem?_modify_ne change _ (Ne.symm hid)]
    rw [hsame]
    exact .kept

theorem handled_setQueue (net : Network) (target : Nat) {q : Queue Value}
    (h : target = id → (net.queue id).Handled fuse q) :
    (net.queue id).Handled fuse ((net.setQueue target q).queue id) :=
  handled_update net target h

theorem queue_setQueue_of_ge (net : Network) (target : Nat) (q : Queue Value)
    (hid : net.channels.length ≤ id) :
    (net.setQueue target q).queue id = net.queue id := by
  rw [queue_of_ge hid, queue_of_ge (by rwa [length_setQueue])]

theorem queue_setQueue_of_ne (net : Network) {target : Nat} (q : Queue Value) (hid : id ≠ target) :
    (net.setQueue target q).queue id = net.queue id := by
  unfold queue channel setQueue update
  rw [List.getElem?_modify_ne _ _ (Ne.symm hid)]

theorem handled_updateAll {change : Channel → Channel}
    (h : ∀ c : Channel, c.queue.Handled fuse (change c).queue) (net : Network) (targets : List Nat)
    (id : Nat) : (net.queue id).Handled fuse ((net.updateAll targets change).queue id) := by
  unfold updateAll
  induction targets generalizing net with
  | nil => exact .kept
  | cons target targets ih => exact (handled_update net target fun _ => h _).trans (ih _)

theorem handled_spread (fuse : Fuse) (net : Network) (entry : Entry Value) (targets : List Nat)
    (id : Nat) :
    (net.queue id).Handled fuse ((net.spread entry targets).queue id) :=
  handled_updateAll (fun c => Queue.handled_accept fuse c.queue entry) net targets id

theorem queue_append (net : Network) (channels : List Channel) (id : Nat) :
    (net.append channels).queue id = if id < net.channels.length then net.queue id
      else ((channels[id - net.channels.length]?).getD (.ofStream ⟨[], .empty⟩)).queue := by
  unfold queue channel append
  by_cases hid : id < net.channels.length
  · rw [if_pos hid, List.getElem?_append_left hid]
  · rw [if_neg hid, List.getElem?_append_right (Nat.le_of_not_lt hid)]

theorem queue_relay (net : Network) (source : Nat) (kinds : List SlotKind) (targets : List Nat)
    (id : Nat) :
    (net.relay source kinds targets).queue id = net.queue id := by
  unfold relay
  induction kinds generalizing net with
  | nil => rfl
  | cons kind kinds ih =>
    rw [List.foldl_cons, ih]
    split
    · exact queue_publish ..
    · rfl

theorem fuse_setQueue (net : Network) (target : Nat) (q : Queue Value) (id : Nat) :
    (net.setQueue target q).fuse id = net.fuse id := by
  rw [fuse, fuse, isCancelled_setQueue]

theorem handled_take (net : Network) (source count id : Nat) :
    (net.queue id).Handled (net.fuse id) ((net.take source count).2.queue id) := by
  induction count generalizing net with
  | zero => exact .kept
  | succ count ih =>
    have hpop := Queue.handled_pop (net.fuse source) (net.queue source)
    have hstep : (net.queue id).Handled (net.fuse id)
        ((net.setQueue source ((net.queue source).pop (.patient (net.fuse source))).2).queue id) :=
      handled_setQueue net source fun heq => heq ▸ hpop
    rw [take]
    split
    · next v left heq =>
      rw [heq] at hstep
      have hrest := ih (net.setQueue source left)
      rw [fuse_setQueue] at hrest
      exact hstep.trans hrest
    · next reading left _ heq =>
      rw [heq] at hstep
      exact hstep

theorem handled_transfer (net : Network) (source target : Nat) (sought : Value → Bool)
    (closing : Bool) (id : Nat) :
    (net.queue id).Handled (net.fuse id)
      ((net.transfer source target sought closing).2.queue id) := by
  rw [transfer]
  split
  · exact handled_setQueue net source fun heq => heq ▸ .turned .kept sought closing
  · next hne =>
    have hpull (fuse : Fuse) :=
      Queue.handled_pullThrough (net.fuse source) fuse (net.queue source) (net.queue target)
        sought closing
    generalize (net.queue source).pullThrough (net.queue target) sought (net.fuse source) closing =
      moved at hpull ⊢
    have hsource : (net.queue id).Handled (net.fuse id)
        ((net.setQueue source moved.source).queue id) :=
      handled_setQueue net source fun heq => heq ▸ (hpull none).1
    refine hsource.trans (handled_setQueue _ target fun heq => ?_)
    subst heq
    rw [queue_setQueue_of_ne net moved.source (Ne.symm hne)]
    exact (hpull _).2

/-! ### Steps of the workers -/

theorem touched_forward (net : Network) {source : Nat} {targets : List Nat}
    (hworker : .forward source targets ∈ net.workers) {left : Option Worker}
    (hstep : net.step (.forward source targets) = some (next, left)) (action : Action) (id : Nat) :
    net.Touched action id (next.queue id) := by
  rw [step] at hstep
  split at hstep
  · cases hstep
    exact .handled (handled_spread _ net _ targets id)
  · next hcancelled =>
    have hunfired : net.isCancelled source = false := Bool.eq_false_iff.mpr hcancelled
    -- The queue loses an entry before its copies get it, should it be one of them.
    have hforward : ∀ (rest : Queue Value) entry, (net.queue source).receive? = some (entry, rest) →
        net.Touched action id (((net.setQueue source rest).spread entry targets).queue id) := by
      intro rest entry hreceive
      have hspread := handled_spread (net.fuse id) (net.setQueue source rest) entry targets id
      by_cases hid : source = id
      · subst hid
        by_cases hlt : source < net.channels.length
        · rw [queue_setQueue net hlt, if_pos rfl] at hspread
          exact .received hworker hunfired hreceive hspread
        · rw [queue_setQueue_of_ge net source rest (Nat.le_of_not_lt hlt)] at hspread
          exact .handled hspread
      · have hkept : (net.queue id).Handled (net.fuse id) ((net.setQueue source rest).queue id) :=
          handled_setQueue net source fun heq => absurd heq hid
        exact .handled (hkept.trans hspread)
    split at hstep
    · cases hstep
    · next rest hreceive =>
      cases hstep
      exact hforward rest _ hreceive
    · next v rest hreceive =>
      cases hstep
      exact hforward rest _ hreceive

theorem handled_stage (net : Network) {stage : Stage} {left : Option Worker}
    (hstep : net.step (.stage stage) = some (next, left)) (id : Nat) :
    (net.queue id).Handled (net.fuse id) (next.queue id) := by
  rw [step] at hstep
  split at hstep
  · split at hstep
    · cases hstep
      refine handled_update net stage.output fun heq => ?_
      exact (Queue.handled_foldl_emit _ _ _).trans (Queue.handled_accept _ _ .terminator)
    · cases hstep
  · have hpop := Queue.handled_pop (net.fuse stage.input) (net.queue stage.input)
    have hinput : (net.queue id).Handled (net.fuse id)
        ((net.setQueue stage.input
          ((net.queue stage.input).pop (.patient (net.fuse stage.input))).2).queue id) :=
      handled_setQueue net stage.input fun heq => heq ▸ hpop
    split at hstep
    · next v rest heq =>
      rw [heq] at hinput
      cases hstep
      exact hinput
    · cases hstep
    · next reading rest _ _ heq =>
      rw [heq] at hinput
      cases hstep
      exact hinput

theorem touched_step (net : Network) {worker : Worker} (hworker : worker ∈ net.workers)
    {left : Option Worker} (hstep : net.step worker = some (next, left)) (action : Action)
    (id : Nat) : net.Touched action id (next.queue id) := by
  cases worker with
  | forward source targets => exact touched_forward net hworker hstep action id
  | stage stage => exact .handled (handled_stage net hstep id)
  | relay kind source targets =>
    rcases net.step_relay kind source targets with hnone | ⟨after, hsome, _, hsame⟩
    · cases hnone.symm.trans hstep
    · cases hsome.symm.trans hstep
      rw [(hsame id).2]
      exact .handled .kept

theorem touched_advance (net : Network) (index id : Nat) :
    net.Touched (.advance index) id ((net.advance index).queue id) := by
  cases hworker : net.workers[index]? with
  | none =>
    rw [advance, hworker]
    exact .handled .kept
  | some worker =>
    have hmem := List.mem_of_getElem? hworker
    rw [advance_of_step hworker]
    rcases hstep : net.step worker with _ | ⟨after, _ | left⟩
    · exact .handled .kept
    · exact touched_step net hmem hstep _ id
    · exact touched_step net hmem hstep _ id

/-! ### Every action -/

theorem touched_split (net : Network) (source count id : Nat) :
    net.Touched (.split source count) id ((net.split source count).queue id) := by
  by_cases hold : id < net.channels.length
  · by_cases hid : source = id
    · subst hid
      rw [queue_split_of_lt net hold count hold, if_pos rfl]
      exact .detached hold rfl
    · refine .handled ?_
      have hqueue : (net.split source count).queue id =
          (net.setQueue source (net.queue source).detached).queue id := by
        rw [queue, channel, channels_split, List.getElem?_append_left (by rwa [length_setQueue])]
        rfl
      rw [hqueue]
      exact handled_setQueue net source fun heq => absurd heq hid
  · by_cases hcopy : id < net.channels.length + count
    · rw [queue_split_of_copy net source count (Nat.le_of_not_lt hold) hcopy]
      exact .copied (Nat.le_of_not_lt hold) source
    · rw [queue_split_of_ge net source count (Nat.le_of_not_lt hcopy)]
      exact .handled .kept

theorem touched_append (net : Network) {c : Channel} (hmade : ∃ preset, c.queue = .made preset)
    (action : Action) (id : Nat) : net.Touched action id ((net.append [c]).queue id) := by
  rw [queue_append]
  split
  · exact .handled .kept
  · next hnew =>
    have hge := Nat.le_of_not_lt hnew
    rcases hindex : id - net.channels.length with _ | index
    · obtain ⟨preset, hqueue⟩ := hmade
      rw [List.getElem?_cons_zero, Option.getD_some, hqueue]
      exact .made hge preset
    · exact .made hge (some [])

theorem touched_perform (net : Network) (action : Action) (id : Nat) :
    net.Touched action id ((net.perform action).2.queue id) := by
  cases action with
  | addToken | fire token | renew | read c kind | snapshot c => exact .handled .kept
  | cancel c =>
    rw [perform]
    cases (net.channel c).token with
    | none => exact .handled .kept
    | some token => exact .handled .kept
  | openChannel token => exact touched_append net ⟨none, rfl⟩ _ id
  | openStream stream => exact touched_append net ⟨some stream.values, rfl⟩ _ id
  | push c v =>
    rw [perform_push]
    exact .handled (handled_setQueue net c fun heq => heq ▸ Queue.handled_accept _ _ _)
  | terminate c =>
    rw [perform_terminate]
    exact .handled (handled_setQueue net c fun heq => heq ▸ Queue.handled_accept _ _ _)
  | emit c v =>
    exact .handled (handled_setQueue net c fun heq => heq ▸ Queue.handled_accept _ _ (.value v))
  | close c =>
    exact .handled (handled_setQueue net c fun heq => heq ▸ Queue.handled_accept _ _ .terminator)
  | throw c e =>
    refine .handled (handled_update net c fun heq => ?_)
    exact (Queue.handled_accept _ _ (.value e)).trans (Queue.handled_accept _ _ .terminator)
  | pop c waits =>
    cases waits with
    | true => exact .handled (handled_setQueue net c fun heq => heq ▸ Queue.handled_pop _ _)
    | false =>
      have hqueue : (net.perform (.pop c false)).2 =
          net.setQueue c ((net.queue c).pop .immediate).2 := rfl
      rw [hqueue]
      by_cases hid : id = c
      · subst hid
        by_cases hlt : id < net.channels.length
        · rw [queue_setQueue net hlt, if_pos rfl]
          exact .popped rfl
        · rw [queue_setQueue_of_ge net id _ (Nat.le_of_not_lt hlt)]
          exact .handled .kept
      · rw [queue_setQueue_of_ne net _ hid]
        exact .handled .kept
  | drain c => exact .handled (handled_setQueue net c fun heq => heq ▸ .read .kept _)
  | take c count => exact .handled (handled_take net c count id)
  | nextException c => exact .handled (handled_setQueue net c fun heq => heq ▸ .read .kept _)
  | pull source target closing => exact .handled (handled_transfer net source target _ closing id)
  | pullThroughException source target closing =>
    exact .handled (handled_transfer net source target _ closing id)
  | split c count => exact touched_split net c count id
  | assign c kind content =>
    rw [perform]
    split
    · exact .handled (handled_update net c fun heq => .kept)
    · exact .handled .kept
  | fillDefaults c => exact .handled (handled_update net c fun heq => .kept)
  | relay source kinds targets =>
    refine .handled ?_
    rw [perform, queue_relay]
    exact .kept
  | start evaluate input => exact touched_append net ⟨none, rfl⟩ _ id
  | name namer input =>
    rw [perform, resolve]
    cases namer.literal? with
    | some label => exact .handled .kept
    | none => exact .handled (handled_setQueue net input fun heq => heq ▸ .read .kept _)
  | advance index => exact touched_advance net index id

end Network
end QueryShell
