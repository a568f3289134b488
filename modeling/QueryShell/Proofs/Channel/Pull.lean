import QueryShell.Proofs.Channel.Orderly

/-! Reading one queue into another one moves values: whatever stops the transfer, no value is lost,
and none is in both queues. -/

namespace QueryShell

namespace Queue

variable {α : Type} {fuse : Fuse} {q : Queue α}

/-- The values that are read before a token fires. -/
def within (fuse : Fuse) (vs : List α) : List α := vs.take (fuse.getD vs.length)

/-- The values through the first one that is looked for. -/
def through (sought : α → Bool) (vs : List α) : List α := vs.take (vs.findIdx sought + 1)

theorem within_cons (h : fuse ≠ some 0) (v : α) (vs : List α) :
    within fuse (v :: vs) = v :: within (fuse.map (· - 1)) vs := by
  rcases fuse with _ | _ | reads
  · rfl
  · exact absurd rfl h
  · rfl

theorem within_zero (vs : List α) : within (some 0) vs = [] := rfl

theorem through_cons (sought : α → Bool) (v : α) (vs : List α) :
    through sought (v :: vs) = v :: if sought v then [] else through sought vs := by
  rw [through, List.findIdx_cons]
  cases sought v <;> rfl

/-- What stops a waiting read: a value that is looked for, or the token, or the end, whichever comes
first. -/
def stopOf (sought : α → Bool) (fuse : Fuse) (ends : Bool) (vs : List α) : Halt :=
  if (through sought (within fuse vs)).any sought then .found
  else if fuse.any (· ≤ vs.length) then .failed .cancelled
  else if ends then .ended
  else .waiting

theorem stopOf_cons (h : fuse ≠ some 0) (sought : α → Bool) (ends : Bool) (v : α) (vs : List α) :
    stopOf sought fuse ends (v :: vs) =
      if sought v then .found else stopOf sought (fuse.map (· - 1)) ends vs := by
  have hfires : fuse.any (· ≤ (v :: vs).length) = (fuse.map (· - 1)).any (· ≤ vs.length) := by
    rcases fuse with _ | _ | reads
    · rfl
    · exact absurd rfl h
    · simp
  rw [stopOf, within_cons h, through_cons, hfires]
  cases hsought : sought v with
  | true => simp [hsought]
  | false => simp [hsought, stopOf]

theorem takeThrough_value (h : fuse ≠ some 0) (sought : α → Bool) (v : α) (rest : List (Entry α)) :
    takeThrough sought fuse (.value v :: rest) =
      if sought v then ([v], .found, rest)
      else (v :: (takeThrough sought (fuse.map (· - 1)) rest).1,
        (takeThrough sought (fuse.map (· - 1)) rest).2) := by
  rcases fuse with _ | _ | reads
  · rfl
  · exact absurd rfl h
  · rfl

theorem takeThrough_eq (sought : α → Bool) (fuse : Fuse) (entries : List (Entry α)) :
    (takeThrough sought fuse entries).1 = through sought (within fuse (valuesOf entries)) ∧
      (takeThrough sought fuse entries).2.1 =
        stopOf sought fuse (entries.any Entry.closes) (valuesOf entries) := by
  induction entries generalizing fuse with
  | nil => rcases fuse with _ | _ | reads <;> exact ⟨rfl, rfl⟩
  | cons entry rest ih =>
    by_cases hfuse : fuse = some 0
    · subst hfuse
      rw [takeThrough, stopOf, within_zero]
      simp [through]
    · cases entry with
      | terminator =>
        rcases fuse with _ | _ | reads
        · exact ⟨rfl, rfl⟩
        · exact absurd rfl hfuse
        · exact ⟨rfl, rfl⟩
      | value v =>
        obtain ⟨hvalues, hhalt⟩ := ih (fuse.map (· - 1))
        have hends : (Entry.value v :: rest).any Entry.closes = rest.any Entry.closes := rfl
        rw [takeThrough_value hfuse, valuesOf, within_cons hfuse, through_cons, stopOf_cons hfuse,
          hends]
        cases sought v with
        | true => exact ⟨rfl, rfl⟩
        | false => exact ⟨congrArg (v :: ·) hvalues, hhalt⟩

theorem isFinished_eq (q : Queue α) :
    q.isFinished = (q.terminated || q.unread.any Entry.closes) := by
  rw [isFinished]
  refine congrArg (fun closes : Entry α → Bool => q.terminated || q.unread.any closes)
    (funext fun entry => ?_)
  cases entry <;> rfl

/-- What a waiting read takes and what stops it. An end that was read before comes before the
token. -/
theorem readThrough_eq (q : Queue α) (sought : α → Bool) (fuse : Fuse) :
    (q.readThrough sought fuse).1 = through sought (within fuse q.readable) ∧
      (q.readThrough sought fuse).2.1 =
        if (through sought (within fuse q.readable)).any sought then .found
        else if !q.terminated && fuse.any (· ≤ q.readable.length) then .failed .cancelled
        else if q.isFinished then .ended
        else .waiting := by
  obtain ⟨hvalues, hhalt⟩ := takeThrough_eq sought fuse q.unread
  rw [isFinished_eq, readThrough, readable]
  cases q.terminated with
  | true => simp [through, within]
  | false => exact ⟨hvalues, hhalt⟩

/-- Nothing is lost in a waiting read, and nothing is read that stays. -/
theorem readable_readThrough (q : Queue α) (sought : α → Bool) (fuse : Fuse) :
    q.readable = (q.readThrough sought fuse).1 ++ (q.readThrough sought fuse).2.2.readable := by
  by_cases hend : q.terminated = true
  · rw [readThrough_of_terminated hend]
    rfl
  · rw [readThrough, if_neg hend, readable, if_neg hend, values]
    rcases htake : takeThrough sought fuse q.unread with ⟨vs, halt, left⟩
    rw [unread_of_takeThrough htake, valuesOf_append]
    by_cases hended : halt = .ended
    · simp [hended, readable, valuesOf]
    · simp [hended, readable, values]

theorem ends_readThrough (q : Queue α) (sought : α → Bool) (fuse : Fuse) :
    (q.readThrough sought fuse).2.2.inputClosed = q.inputClosed ∧
      (q.readThrough sought fuse).2.2.terminated =
        (q.terminated || (q.readThrough sought fuse).2.1 = .ended) := by
  rw [readThrough]
  split
  · next hend => exact ⟨rfl, by simp [hend]⟩
  · next hgoing => exact ⟨rfl, by simp [hgoing]⟩

/-- The source of a transfer is read, whatever becomes of the target. -/
theorem source_pullThrough (source : Queue α) {target : Queue α}
    (hopen : target.inputClosed = false) (sought : α → Bool) (fuse : Fuse) (closing : Bool) :
    (source.pullThrough target sought fuse closing).halt = (source.readThrough sought fuse).2.1 ∧
      (source.pullThrough target sought fuse closing).source =
        (source.readThrough sought fuse).2.2 := by
  rw [pullThrough_of_open hopen rfl closing]
  exact ⟨rfl, rfl⟩

/-- The target of a transfer is written to, and closed if the transfer went well. -/
theorem target_pullThrough (source : Queue α) {target : Queue α}
    (hopen : target.inputClosed = false) (horderly : target.Orderly) (sought : α → Bool)
    (fuse : Fuse) (closing : Bool) :
    let after := source.pullThrough target sought fuse closing
    let moved := through sought (within fuse source.readable)
    after.target.values = target.values ++ moved ∧
      after.target.unread = target.unread ++ moved.map .value ++
        (if after.target.inputClosed then [.terminator] else []) ∧
      after.target.inputClosed = (closing && after.halt.isRegular) ∧
      after.target.terminated = target.terminated := by
  intro after moved
  have hmoved : (source.readThrough sought fuse).1 = moved := (readThrough_eq source sought fuse).1
  have hafter : after.target =
      if closing && after.halt.isRegular then (target.put moved).close else target.put moved := by
    rw [(source_pullThrough source hopen sought fuse closing).1, ← hmoved]
    exact congrArg Transfer.target (pullThrough_of_open hopen rfl closing)
  have hstill : (target.put moved).inputClosed = false := hopen
  obtain ⟨hput, hvalues⟩ := horderly.put hopen moved
  rw [hafter]
  cases closing && after.halt.isRegular with
  | true => exact ⟨(hput.close hstill).2.trans hvalues, rfl, rfl, rfl⟩
  | false =>
    rw [if_neg Bool.false_ne_true, hstill]
    exact ⟨hvalues, (List.append_nil _).symm, rfl, rfl⟩

end Queue

namespace Network

theorem channel_setQueue (net : Network) {id : Nat} (hid : id < net.channels.length)
    (q : Queue Value) (j : Nat) :
    (net.setQueue id q).channel j =
      (net.channel j).setQueue (if j = id then q else net.queue j) := by
  rw [setQueue, channel_update net id _ hid]
  split <;> rfl

/-- A transfer between two channels changes their queues, and nothing else. -/
theorem channel_transfer (net : Network) {source target : Nat} (hne : source ≠ target)
    (hsource : source < net.channels.length) (htarget : target < net.channels.length)
    (sought : Value → Bool) (closing : Bool) (id : Nat) :
    let after := (net.queue source).pullThrough (net.queue target) sought (net.fuse source) closing
    (net.transfer source target sought closing).2.channel id = (net.channel id).setQueue
      (if id = source then after.source else if id = target then after.target
        else net.queue id) := by
  intro after
  have htransfer : (net.transfer source target sought closing).2 =
      (net.setQueue source after.source).setQueue target after.target := by
    rw [transfer, if_neg hne]
  have htarget' : target < (net.setQueue source after.source).channels.length := by
    rwa [length_setQueue]
  rw [htransfer, channel_setQueue _ htarget', channel_setQueue net hsource,
    queue_setQueue net hsource]
  by_cases hid : id = target
  · simp [hid, Ne.symm hne, Channel.setQueue]
  · simp [hid, Channel.setQueue]

/-- In every state that a network comes to, a transfer from one queue to another one is refused if
the target is closed. If not, it takes the values that can be read through the first one that is
looked for, or as many as are read before the token fires. They stand behind those of the target, in
order, and the rest can still be read from the source. The transfer tells whether it has come upon
what is looked for, and closes the target if it is to and has not failed. Other queues stay as they
are. -/
theorem pull_moves (history : List Action) {source target : Nat} (hne : source ≠ target)
    (sought : Value → Bool) (fuse : Fuse) (closing : Bool) :
    let net := initial.performAll history
    let before := net.queue source
    let filled := net.queue target
    let after := before.pullThrough filled sought fuse closing
    let moved := Queue.through sought (Queue.within fuse before.readable)
    (filled.inputClosed = true → after = ⟨.failed .closed, before, filled⟩) ∧
    (filled.inputClosed = false →
      (before.readable = moved ++ after.source.readable ∧
        (∀ access count, access ≠ .patient (some 0) →
          after.source.delivered (List.replicate count (.pop access)) =
            after.source.readable.take count) ∧
        after.source.inputClosed = before.inputClosed ∧
        after.source.terminated = (before.terminated || after.halt = .ended) ∧
        (before.terminated = true → after.source = before)) ∧
      (after.target.values = filled.values ++ moved ∧
        after.target.unread =
          filled.unread ++ moved.map .value ++
            (if after.target.inputClosed then [.terminator] else []) ∧
        after.target.inputClosed = (closing && after.halt.isRegular) ∧
        after.target.terminated = filled.terminated) ∧
      after.halt =
        if moved.any sought then .found
        else if !before.terminated && fuse.any (· ≤ before.readable.length) then .failed .cancelled
        else if before.isFinished then .ended
        else .waiting) ∧
    (source < net.channels.length → target < net.channels.length → net.fuse source = fuse →
      (net.transfer source target sought closing).1 = after.halt ∧
        ∀ id, (net.transfer source target sought closing).2.channel id = (net.channel id).setQueue
          (if id = source then after.source else if id = target then after.target
            else net.queue id)) := by
  intro net before filled after moved
  have horderly : net.Orderly := orderly_initial.performAll history
  refine ⟨fun hclosed => if_pos hclosed, fun hopen => ?_, fun hsource htarget hfuse => ?_⟩
  · obtain ⟨hhalt, hsource⟩ := Queue.source_pullThrough before hopen sought fuse closing
    obtain ⟨hmoved, hstop⟩ := Queue.readThrough_eq before sought fuse
    have hends := Queue.ends_readThrough before sought fuse
    have hrest := Queue.readable_readThrough before sought fuse
    rw [hmoved, ← hsource] at hrest
    rw [← hhalt, ← hsource] at hends
    refine ⟨⟨hrest, fun access count hunfired => Queue.delivered_readable _ hunfired count, hends.1,
      hends.2, fun hend => ?_⟩, ?_, ?_⟩
    · rw [hsource, Queue.readThrough_of_terminated hend]
    · exact Queue.target_pullThrough before hopen (horderly.queues target) sought fuse closing
    · exact hhalt.trans hstop
  · subst hfuse
    have hhalt : (net.transfer source target sought closing).1 = after.halt := by
      rw [transfer, if_neg hne]
    exact ⟨hhalt, channel_transfer net hne hsource htarget sought closing⟩

/-- The exception goes over, and what follows it stays. -/
theorem pull_moves_through_exception :
    let history : List Action :=
      [.openChannel (some 0), .openChannel none, .push 0 .null, .push 0 (.exception "a" []),
        .push 0 (.boolean true), .terminate 0, .push 1 (.boolean false)]
    let net := initial.performAll history
    let after := (net.queue 0).pullThrough (net.queue 1) Value.isException none true
    after.target.values = [.boolean false, .null, .exception "a" []] ∧
      after.source.readable = [.boolean true] ∧
      after.halt = .found ∧ after.target.inputClosed = true := by
  intro history net after
  obtain ⟨_, hmoves, _⟩ := @pull_moves history 0 1 (by decide) Value.isException none true
  obtain ⟨⟨hrest, _⟩, ⟨htarget, _, hclosed, _⟩, hhalt⟩ := hmoves rfl
  have hfound : after.halt = .found := hhalt
  have hreadable : [Value.null, .exception "a" [], .boolean true] = [.null, .exception "a" []] ++
      after.source.readable := hrest
  refine ⟨htarget, by simpa using hreadable.symm, hfound, ?_⟩
  rw [hclosed, hfound]
  rfl

end Network
end QueryShell
