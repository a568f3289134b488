import QueryShell.Channel.Queue

/-! What becomes of the values of a queue under any sequence of operations: they leave it in the
order in which they were written, none twice and none lost, and the end is read behind the last of
them and for ever after. -/

namespace QueryShell

namespace Queue

variable {α : Type}

/-- A queue is made open and empty, or closed with all its values in it. -/
def made : Option (List α) → Queue α
  | none => empty
  | some vs => ofValues vs

/-- What can be done with a queue. Transfers are from another queue or to another one, in any state,
or from the queue to itself. -/
inductive Operation (α : Type) where
  | push (v : α)
  | terminate
  | pop (access : Access)
  | pullFrom (source : Queue α) (sought : α → Bool) (fuse : Fuse) (closing : Bool)
  | pullTo (target : Queue α) (sought : α → Bool) (fuse : Fuse) (closing : Bool)
  | pullSelf (sought : α → Bool) (fuse : Fuse) (closing : Bool)

namespace Operation

def writes : Operation α → Bool
  | push _ => true
  | terminate => true
  | pullFrom .. => true
  | pullSelf .. => true
  | _ => false

/-- Whether the operation closes the queue if it succeeds. -/
def closes : Operation α → Bool
  | terminate => true
  | pullFrom _ _ _ closing => closing
  | pullSelf _ _ closing => closing
  | _ => false

theorem writes_of_closes {op : Operation α} (h : op.closes = true) : op.writes = true := by
  cases op <;> first | rfl | cases h

end Operation

inductive Reply (α : Type) where
  | done
  | value (v : α)
  | ended
  | waiting
  | failed (e : ChannelError)

namespace Reply

def isDone : Reply α → Bool
  | done => true
  | _ => false

def ofReading : Reading α → Reply α
  | .value v => value v
  | .ended => ended
  | .waiting => waiting
  | .failed e => failed e

/-- The reply to a transfer, given the one for a source that has come to its end. -/
def ofHalt (onEnd : Reply α) : Halt → Reply α
  | .found => done
  | .ended => onEnd
  | .waiting => waiting
  | .failed e => failed e

def values : Reply α → List α
  | value v => [v]
  | _ => []

end Reply

/-- What an operation replies, the values that it puts in and takes out, and the queue that it
leaves. -/
structure Effect (α : Type) where
  reply : Reply α
  accepted : List α
  delivered : List α
  queue : Queue α

def attempt (q : Queue α) (accepted : List α) : Except ChannelError (Queue α) → Effect α
  | .ok next => ⟨.done, accepted, [], next⟩
  | .error e => ⟨.failed e, [], [], q⟩

/-- A transfer into a queue that is closed moves nothing, any other all that it reads from its
source. -/
def moved (source target : Queue α) (sought : α → Bool) (fuse : Fuse) : List α :=
  if target.inputClosed then [] else (source.readThrough sought fuse).1

def perform (q : Queue α) : Operation α → Effect α
  | .push v => q.attempt [v] (q.push v)
  | .terminate => q.attempt [] q.terminate
  | .pop access =>
    let (reading, left) := q.pop access
    ⟨.ofReading reading, [], (Reply.ofReading reading).values, left⟩
  | .pullFrom source sought fuse closing =>
    let transfer := source.pullThrough q sought fuse closing
    ⟨.ofHalt .done transfer.halt, moved source q sought fuse, [], transfer.target⟩
  | .pullTo target sought fuse closing =>
    let transfer := q.pullThrough target sought fuse closing
    ⟨.ofHalt .ended transfer.halt, [], moved q target sought fuse, transfer.source⟩
  | .pullSelf sought fuse closing =>
    let (vs, halt, left) := q.turnThrough sought fuse closing
    ⟨.ofHalt .done halt, vs, vs, left⟩

def effects (q : Queue α) : List (Operation α) → List (Effect α)
  | [] => []
  | op :: history => q.perform op :: effects (q.perform op).queue history

def after (q : Queue α) (history : List (Operation α)) : Queue α :=
  history.foldl (fun q op => (q.perform op).queue) q

def accepted (q : Queue α) (history : List (Operation α)) : List α :=
  (q.effects history).flatMap Effect.accepted

def delivered (q : Queue α) (history : List (Operation α)) : List α :=
  (q.effects history).flatMap Effect.delivered

/-- How many of the operations close the queue. -/
def closings (q : Queue α) : List (Operation α) → Nat
  | [] => 0
  | op :: history =>
    (if op.closes && (q.perform op).reply.isDone then 1 else 0) +
      closings (q.perform op).queue history

theorem effects_append (q : Queue α) (earlier later : List (Operation α)) :
    q.effects (earlier ++ later) = q.effects earlier ++ (q.after earlier).effects later := by
  induction earlier generalizing q with
  | nil => rfl
  | cons op earlier ih =>
    rw [List.cons_append, effects, effects, ih, List.cons_append]
    rfl

theorem after_append (q : Queue α) (earlier later : List (Operation α)) :
    q.after (earlier ++ later) = (q.after earlier).after later :=
  List.foldl_append

theorem accepted_append (q : Queue α) (earlier later : List (Operation α)) :
    q.accepted (earlier ++ later) = q.accepted earlier ++ (q.after earlier).accepted later := by
  rw [accepted, effects_append, List.flatMap_append]
  rfl

theorem delivered_append (q : Queue α) (earlier later : List (Operation α)) :
    q.delivered (earlier ++ later) = q.delivered earlier ++ (q.after earlier).delivered later := by
  rw [delivered, effects_append, List.flatMap_append]
  rfl

theorem accepted_cons (q : Queue α) (op : Operation α) (history : List (Operation α)) :
    q.accepted (op :: history) = (q.perform op).accepted ++ (q.perform op).queue.accepted history :=
  List.flatMap_cons

theorem delivered_cons (q : Queue α) (op : Operation α) (history : List (Operation α)) :
    q.delivered (op :: history) = (q.perform op).delivered ++
      (q.perform op).queue.delivered history :=
  List.flatMap_cons

/-! ### What a read can come upon -/

theorem pop_cases (q : Queue α) (access : Access) :
    (q.terminated = true ∧ q.pop access = (.ended, q)) ∨
    (access = .patient (some 0) ∧ q.pop access = (.failed .cancelled, q)) ∨
    (q.unread = [] ∧ q.pop access = (access.onEmpty, q)) ∨
    (∃ v rest, q.unread = .value v :: rest ∧ q.pop access = (.value v, { q with unread := rest })) ∨
    ∃ rest, q.unread = .terminator :: rest ∧
      q.pop access = (.ended, { q with unread := rest, terminated := true }) := by
  unfold pop
  by_cases hterminated : q.terminated = true
  · exact .inl ⟨hterminated, if_pos hterminated⟩
  · rw [if_neg hterminated]
    by_cases hfired : access = .patient (some 0)
    · exact .inr (.inl ⟨hfired, if_pos hfired⟩)
    · rw [if_neg hfired]
      right; right
      cases hunread : q.unread with
      | nil => exact .inl ⟨rfl, rfl⟩
      | cons entry rest =>
        cases entry with
        | value v => exact .inr (.inl ⟨v, rest, rfl, rfl⟩)
        | terminator => exact .inr (.inr ⟨rest, rfl, rfl⟩)

theorem pop_of_terminated {q : Queue α} (h : q.terminated = true) (access : Access) :
    q.pop access = (.ended, q) := by
  rw [pop, if_pos h]

/-- A read takes a part from the front, and the terminator with it when it comes to the end. -/
theorem unread_of_takeThrough {sought : α → Bool} {fuse : Fuse} {entries : List (Entry α)}
    {vs : List α} {halt : Halt} {left : List (Entry α)}
    (h : takeThrough sought fuse entries = (vs, halt, left)) :
    entries = vs.map .value ++ if halt = .ended then .terminator :: left else left := by
  fun_induction takeThrough sought fuse entries generalizing vs halt left with
  | case1 | case2 | case3 =>
    cases h
    rfl
  | case4 fuse v rest _ hsought =>
    cases h
    simp
  | case5 fuse v rest _ hsought ws halt' left' heq ih =>
    cases h
    simpa using ih heq

theorem cancelled_of_takeThrough {sought : α → Bool} {fuse : Fuse} {entries : List (Entry α)}
    {vs : List α} {e : ChannelError} {left : List (Entry α)}
    (h : takeThrough sought fuse entries = (vs, .failed e, left)) :
    e = .cancelled := by
  fun_induction takeThrough sought fuse entries generalizing vs left with
  | case1 =>
    cases h
    rfl
  | case5 fuse v rest _ hsought ws halt' left' heq ih =>
    cases h
    exact ih heq
  | _ => cases h

theorem readThrough_cases (q : Queue α) (sought : α → Bool) (fuse : Fuse) :
    (q.terminated = true ∧ q.readThrough sought fuse = ([], .ended, q)) ∨
    (∃ vs left, q.unread = vs.map .value ++ .terminator :: left ∧
      q.readThrough sought fuse = (vs, .ended, { q with unread := left, terminated := true })) ∨
    ∃ vs halt left, q.terminated = false ∧ halt ≠ .ended ∧
    (∀ e, halt = .failed e → e = .cancelled) ∧
      q.unread = vs.map .value ++ left ∧
      q.readThrough sought fuse = (vs, halt, { q with unread := left }) := by
  unfold readThrough
  by_cases hterminated : q.terminated = true
  · exact .inl ⟨hterminated, if_pos hterminated⟩
  · rw [if_neg hterminated]
    right
    rcases htake : takeThrough sought fuse q.unread with ⟨vs, halt, left⟩
    have hunread := unread_of_takeThrough htake
    by_cases hended : halt = .ended
    · subst hended
      exact .inl ⟨vs, left, hunread, rfl⟩
    · rw [if_neg hended] at hunread
      have hopen : q.terminated = false := Bool.eq_false_iff.mpr hterminated
      refine .inr ⟨vs, halt, left, hopen, hended, fun e he => ?_, hunread, ?_⟩
      · exact cancelled_of_takeThrough (he ▸ htake)
      · simp [hended, hopen]

theorem readThrough_of_terminated {q : Queue α} (h : q.terminated = true) (sought : α → Bool)
    (fuse : Fuse) :
    q.readThrough sought fuse = ([], .ended, q) := by
  rw [readThrough, if_pos h]

/-- What is moved is at the front before and at the back after, however often it goes round. -/
theorem unread_of_turnWithin {sought : α → Bool} {spent : Halt} (hspent : spent ≠ .ended)
    {reads : Nat} {entries : List (Entry α)} {vs : List α} {halt : Halt} {left : List (Entry α)}
    (h : turnWithin sought spent reads entries = (vs, halt, left)) :
    entries ++ vs.map .value =
      vs.map .value ++ if halt = .ended then .terminator :: left else left := by
  fun_induction turnWithin sought spent reads entries generalizing vs halt left with
  | case1 entries =>
    cases h
    simp [hspent]
  | case2 | case3 =>
    cases h
    simp
  | case4 reads v rest hsought =>
    cases h
    simp
  | case5 reads v rest hsought ws halt' left' heq ih =>
    cases h
    simpa using ih heq

theorem spent_of_turnWithin {sought : α → Bool} {spent : Halt} {reads : Nat}
    {entries : List (Entry α)} {vs : List α} {e : ChannelError} {left : List (Entry α)}
    (h : turnWithin sought spent reads entries = (vs, .failed e, left)) :
    spent = .failed e := by
  fun_induction turnWithin sought spent reads entries generalizing vs left with
  | case1 =>
    cases h
    rfl
  | case5 reads v rest hsought ws halt' left' heq ih =>
    cases h
    exact ih heq
  | _ => cases h

theorem turnThrough_cases {q : Queue α} (hopen : q.inputClosed = false) (sought : α → Bool)
    (fuse : Fuse) (closing : Bool) :
    q.turnThrough sought fuse closing = ([], .ended, if closing then q.close else q) ∨
    ∃ vs halt left, q.terminated = false ∧ (∀ e, halt = .failed e → e = .cancelled) ∧
      q.unread ++ vs.map .value =
        vs.map .value ++ (if halt = .ended then .terminator :: left else left) ∧
      q.turnThrough sought fuse closing =
        (vs, halt,
          if closing && halt.isRegular then
            close { q with unread := left, terminated := halt = .ended }
          else { q with unread := left, terminated := halt = .ended }) := by
  rw [turnThrough, if_neg (by simp [hopen])]
  by_cases hterminated : q.terminated = true
  · exact .inl (if_pos hterminated)
  · rw [if_neg hterminated]
    right
    rcases hturn : turnWithin sought (haltOfFuse fuse) (fuse.getD q.unread.length) q.unread with
      ⟨vs, halt, left⟩
    refine ⟨vs, halt, left, Bool.eq_false_iff.mpr hterminated, fun e he => ?_,
      unread_of_turnWithin ?_ hturn, rfl⟩
    · have hspent := spent_of_turnWithin (he ▸ hturn)
      cases fuse <;> cases hspent
      rfl
    · cases fuse <;> exact Halt.noConfusion

theorem perform_pop {q left : Queue α} {access : Access} {reading : Reading α}
    (h : q.pop access = (reading, left)) :
    q.perform (.pop access) = ⟨.ofReading reading, [], (Reply.ofReading reading).values, left⟩ := by
  rw [perform, h]

theorem pullThrough_of_open {source target : Queue α} (h : target.inputClosed = false)
    {sought : α → Bool} {fuse : Fuse} {vs : List α} {halt : Halt} {left : Queue α}
    (hread : source.readThrough sought fuse = (vs, halt, left)) (closing : Bool) :
    source.pullThrough target sought fuse closing =
      ⟨halt, left, if closing && halt.isRegular then (target.put vs).close else target.put vs⟩ := by
  rw [pullThrough, if_neg (by simp [h]), hread]

theorem perform_pullFrom {q source left : Queue α} (h : q.inputClosed = false) {sought : α → Bool}
    {fuse : Fuse} {vs : List α} {halt : Halt}
    (hread : source.readThrough sought fuse = (vs, halt, left)) (closing : Bool) :
    q.perform (.pullFrom source sought fuse closing) =
      ⟨.ofHalt .done halt, vs, [],
        if closing && halt.isRegular then (q.put vs).close else q.put vs⟩ := by
  rw [perform, pullThrough_of_open h hread, moved, hread, h]
  rfl

theorem perform_pullTo_of_closed {q target : Queue α} (h : target.inputClosed = true)
    (sought : α → Bool) (fuse : Fuse) (closing : Bool) :
    q.perform (.pullTo target sought fuse closing) = ⟨.failed .closed, [], [], q⟩ := by
  rw [perform, pullThrough, moved, if_pos h, if_pos h]
  rfl

theorem perform_pullTo {q target left : Queue α} (h : target.inputClosed = false)
    {sought : α → Bool} {fuse : Fuse} {vs : List α} {halt : Halt}
    (hread : q.readThrough sought fuse = (vs, halt, left)) (closing : Bool) :
    q.perform (.pullTo target sought fuse closing) = ⟨.ofHalt .ended halt, [], vs, left⟩ := by
  rw [perform, pullThrough_of_open h hread, moved, hread, h]
  rfl

theorem accepted_of_not_writes (q : Queue α) {op : Operation α} (hreads : op.writes = false) :
    (q.perform op).accepted = [] := by
  cases op <;> first | rfl | cases hreads

theorem perform_of_writes {q : Queue α} (hclosed : q.inputClosed = true) {op : Operation α}
    (hwrites : op.writes = true) :
    q.perform op = ⟨.failed .closed, [], [], q⟩ := by
  cases op with
  | push v =>
    rw [perform, push, if_pos hclosed]
    rfl
  | terminate =>
    rw [perform, terminate, if_pos hclosed]
    rfl
  | pop access => cases hwrites
  | pullFrom source sought fuse closing =>
    rw [perform, pullThrough, moved, if_pos hclosed, if_pos hclosed]
    rfl
  | pullTo target sought fuse closing => cases hwrites
  | pullSelf sought fuse closing =>
    rw [perform, turnThrough, if_pos hclosed]
    rfl

/-! ### What an operation can do -/

/-- A failure of a channel that tells the caller to stop or to come again, and not that somebody has
cancelled. -/
def Refused (reply : Reply α) : Prop := reply = .failed .closed ∨ reply = .failed .wouldBlock

/-- A writer that is to close the queue does so when it has come to its end. -/
def closedBy (q : Queue α) (op : Operation α) (reply : Reply α) : Queue α :=
  if op.closes && reply.isDone then q.close else q

/-- An operation does nothing, or puts values in and perhaps closes the queue, or takes values out
and perhaps the terminator behind them, or takes values out and puts them in again. -/
inductive Does (q : Queue α) (op : Operation α) : Effect α → Prop where
  | nothing {reply : Reply α} (hdone : reply.isDone = false)
    (hended : reply = .ended → q.terminated = true) :
    Does q op ⟨reply, [], [], q⟩
  | puts {reply : Reply α} (vs : List α) (hopen : q.inputClosed = false)
    (hrefused : ¬ Refused reply)
    (hended : reply ≠ .ended) : Does q op ⟨reply, vs, [], (q.put vs).closedBy op reply⟩
  | takes {reply : Reply α} (vs : List α) {left : List (Entry α)} (hreads : op.writes = false)
    (hunread : q.unread = vs.map .value ++ left) (hrefused : ¬ Refused reply)
    (hended : reply ≠ .ended) :
    Does q op ⟨reply, [], vs, { q with unread := left }⟩
  | ends (vs : List α) {left : List (Entry α)} (hreads : op.writes = false)
    (hunread : q.unread = vs.map .value ++ .terminator :: left) :
    Does q op ⟨.ended, [], vs, { q with unread := left, terminated := true }⟩
  | turns {halt : Halt} (vs : List α) {left : List (Entry α)} (hopen : q.inputClosed = false)
    (hgoing : q.terminated = false)
    (hturned : q.unread ++ vs.map .value =
      vs.map .value ++ if halt = .ended then .terminator :: left else left)
    (hrefused : ¬ Refused (.ofHalt .done halt : Reply α)) :
    Does q op ⟨.ofHalt .done halt, vs, vs,
      closedBy { q with unread := left, terminated := halt = .ended } op (.ofHalt .done halt)⟩

theorem not_refused_done : ¬ Refused (Reply.done : Reply α) := by
  rintro (h | h) <;> cases h

theorem not_refused_ofHalt {onEnd : Reply α} {halt : Halt}
    (hfailed : ∀ e, halt = .failed e → e = .cancelled) (honEnd : ¬ Refused onEnd) :
    ¬ Refused (.ofHalt onEnd halt) := by
  cases halt with
  | failed e =>
    obtain rfl := hfailed e rfl
    rintro (h | h) <;> cases h
  | ended => exact honEnd
  | found => exact not_refused_done
  | waiting => rintro (h | h) <;> cases h

theorem isRegular_eq_isDone (halt : Halt) :
    halt.isRegular = (Reply.ofHalt .done halt : Reply α).isDone := by
  cases halt <;> rfl

theorem put_nil (q : Queue α) : q.put [] = q := by
  rw [put, List.map_nil, List.append_nil]

theorem cancelled_of_readThrough {q left : Queue α} {sought : α → Bool} {fuse : Fuse} {vs : List α}
    {halt : Halt} (hread : q.readThrough sought fuse = (vs, halt, left)) (e : ChannelError)
    (he : halt = .failed e) : e = .cancelled := by
  subst he
  rcases readThrough_cases q sought fuse with ⟨_, h⟩ | ⟨_, _, _, h⟩ |
    ⟨_, _, _, _, _, hfailed, _, h⟩ <;>
    cases hread.symm.trans h
  exact hfailed e rfl

theorem does_pop (q : Queue α) (access : Access) :
    q.Does (.pop access) (q.perform (.pop access)) := by
  rcases pop_cases q access with ⟨hend, hpop⟩ | ⟨_, hpop⟩ | ⟨_, hpop⟩ | ⟨v, rest, hunread, hpop⟩ |
    ⟨rest, hunread, hpop⟩ <;>
    rw [perform_pop hpop]
  · exact .nothing rfl fun _ => hend
  · exact .nothing rfl nofun
  · cases access <;> exact .nothing rfl nofun
  · refine .takes [v] rfl hunread ?_ nofun
    rintro (h | h) <;> cases h
  · exact .ends [] rfl hunread

theorem does_pullFrom (q source : Queue α) (sought : α → Bool) (fuse : Fuse) (closing : Bool) :
    q.Does (.pullFrom source sought fuse closing)
      (q.perform (.pullFrom source sought fuse closing)) := by
  cases hclosed : q.inputClosed with
  | true =>
    rw [perform_of_writes hclosed rfl]
    exact .nothing rfl nofun
  | false =>
    rcases hread : source.readThrough sought fuse with ⟨vs, halt, left⟩
    rw [perform_pullFrom hclosed hread, isRegular_eq_isDone]
    refine .puts vs hclosed (not_refused_ofHalt (cancelled_of_readThrough hread) not_refused_done)
      ?_
    cases halt <;> nofun

theorem does_pullTo (q target : Queue α) (sought : α → Bool) (fuse : Fuse) (closing : Bool) :
    q.Does (.pullTo target sought fuse closing)
      (q.perform (.pullTo target sought fuse closing)) := by
  cases hclosed : target.inputClosed with
  | true =>
    rw [perform_pullTo_of_closed hclosed]
    exact .nothing rfl nofun
  | false =>
    rcases readThrough_cases q sought fuse with
      ⟨hend, hread⟩ | ⟨vs, left, hunread, hread⟩ |
        ⟨vs, halt, left, _, hgoing, hfailed, hunread, hread⟩ <;>
      rw [perform_pullTo hclosed hread]
    · exact .nothing rfl fun _ => hend
    · exact .ends vs rfl hunread
    · refine .takes vs rfl hunread (not_refused_ofHalt hfailed ?_) ?_
      · rintro (h | h) <;> cases h
      · cases halt <;> first | exact absurd rfl hgoing | nofun

theorem does_pullSelf (q : Queue α) (sought : α → Bool) (fuse : Fuse) (closing : Bool) :
    q.Does (.pullSelf sought fuse closing) (q.perform (.pullSelf sought fuse closing)) := by
  cases hclosed : q.inputClosed with
  | true =>
    rw [perform_of_writes hclosed rfl]
    exact .nothing rfl nofun
  | false =>
    rcases turnThrough_cases hclosed sought fuse closing with
      hturn | ⟨vs, halt, left, hgoing, hfailed, hturned, hturn⟩ <;>
      rw [perform, hturn]
    · have hputs : q.Does (.pullSelf sought fuse closing) _ :=
        .puts [] hclosed not_refused_done nofun
      rw [put_nil, closedBy, Operation.closes, Reply.isDone, Bool.and_true] at hputs
      exact hputs
    · rw [isRegular_eq_isDone]
      exact .turns vs hclosed hgoing hturned (not_refused_ofHalt hfailed not_refused_done)

theorem does_perform (q : Queue α) (op : Operation α) : q.Does op (q.perform op) := by
  cases op with
  | push v =>
    cases hclosed : q.inputClosed with
    | true =>
      rw [perform_of_writes hclosed rfl]
      exact .nothing rfl nofun
    | false =>
      rw [perform, push, if_neg (by simp [hclosed])]
      exact .puts [v] hclosed not_refused_done nofun
  | terminate =>
    cases hclosed : q.inputClosed with
    | true =>
      rw [perform_of_writes hclosed rfl]
      exact .nothing rfl nofun
    | false =>
      have hputs : q.Does .terminate _ := .puts [] hclosed not_refused_done nofun
      rw [perform, terminate, if_neg (by simp [hclosed])]
      rwa [put_nil] at hputs
  | pop access => exact does_pop q access
  | pullFrom source sought fuse closing => exact does_pullFrom q source sought fuse closing
  | pullTo target sought fuse closing => exact does_pullTo q target sought fuse closing
  | pullSelf sought fuse closing => exact does_pullSelf q sought fuse closing

theorem length_emit_le (q : Queue α) (v : α) : (q.emit v).unread.length ≤ q.unread.length + 1 := by
  unfold emit
  split <;> simp [put]

theorem length_finish_le (q : Queue α) : q.finish.unread.length ≤ q.unread.length + 1 := by
  unfold finish
  split <;> simp [close]

/-! ### The values and the terminator -/

/-- The values come first, and the terminator stands behind them from when it is written until it is
read. -/
structure WellFormed (q : Queue α) : Prop where
  unread : q.unread =
    q.values.map .value ++ if q.inputClosed && !q.terminated then [.terminator] else []
  terminated : q.terminated = true → q.inputClosed = true ∧ q.values = []

theorem valuesOf_append (vs : List α) (entries : List (Entry α)) :
    valuesOf (vs.map .value ++ entries) = vs ++ valuesOf entries := by
  induction vs with
  | nil => rfl
  | cons v vs ih => rw [List.map_cons, List.cons_append, valuesOf, ih, List.cons_append]

theorem valuesOf_terminator (entries : List (Entry α)) : valuesOf (.terminator :: entries) = [] :=
  rfl

theorem values_of_unread_eq {q : Queue α} (vs : List α) {p : Prop} [Decidable p]
    (h : q.unread = vs.map .value ++ if p then [.terminator] else []) : q.values = vs := by
  rw [values, h, valuesOf_append]
  split <;> exact List.append_nil vs

theorem wellFormed_of_unread_eq {q : Queue α} (vs : List α)
    (hunread : q.unread =
      vs.map .value ++ if q.inputClosed && !q.terminated then [.terminator] else [])
    (hterminated : q.terminated = true → q.inputClosed = true ∧ vs = []) : q.WellFormed where
  unread := by rwa [values_of_unread_eq vs hunread]
  terminated := by rwa [values_of_unread_eq vs hunread]

theorem wellFormed_made (preset : Option (List α)) : (made preset).WellFormed := by
  cases preset with
  | none => exact wellFormed_of_unread_eq [] rfl nofun
  | some vs => exact wellFormed_of_unread_eq vs rfl nofun

theorem values_made (preset : Option (List α)) : (made preset).values = preset.getD [] := by
  cases preset with
  | none => rfl
  | some vs => exact values_of_unread_eq vs (p := True) rfl

namespace WellFormed

theorem terminated_eq_false {q : Queue α} (h : q.WellFormed) (hopen : q.inputClosed = false) :
    q.terminated = false := by
  cases hterminated : q.terminated with
  | false => rfl
  | true =>
    rw [(h.terminated hterminated).1] at hopen
    cases hopen

theorem drop {q : Queue α} (h : q.WellFormed) (vs : List α) {left : List (Entry α)}
    (hunread : q.unread = vs.map .value ++ left) :
    WellFormed { q with unread := left } ∧ q.values = vs ++ valuesOf left := by
  have hvalues : q.values = vs ++ valuesOf left := by rw [values, hunread, valuesOf_append]
  have hrest := h.unread
  rw [hunread, hvalues, List.map_append, List.append_assoc, List.append_cancel_left_eq] at hrest
  refine ⟨wellFormed_of_unread_eq _ hrest fun hterminated => ?_, hvalues⟩
  have hempty := h.terminated hterminated
  exact ⟨hempty.1, (List.append_eq_nil_iff.mp (hvalues ▸ hempty.2)).2⟩

theorem dropAll {q : Queue α} (h : q.WellFormed) (vs : List α) {left : List (Entry α)}
    (hunread : q.unread = vs.map .value ++ .terminator :: left) :
    WellFormed { q with unread := left, terminated := true } ∧ q.values = vs ∧ left = [] := by
  have hvalues : q.values = vs := by
    rw [values, hunread, valuesOf_append, valuesOf_terminator, List.append_nil]
  have hrest := h.unread
  rw [hunread, hvalues, List.append_cancel_left_eq] at hrest
  by_cases hcond : (q.inputClosed && !q.terminated) = true
  · rw [if_pos hcond, List.cons.injEq] at hrest
    have hclosed : q.inputClosed = true := (Bool.and_eq_true_iff.mp hcond).1
    have hwell := wellFormed_of_unread_eq (q := { q with unread := left, terminated := true }) []
      (by simpa using hrest.2) fun _ => ⟨hclosed, rfl⟩
    exact ⟨hwell, hvalues, hrest.2⟩
  · rw [if_neg hcond] at hrest
    cases hrest

theorem put {q : Queue α} (h : q.WellFormed) (hopen : q.inputClosed = false) (vs : List α) :
    (q.put vs).WellFormed ∧ (q.put vs).values = q.values ++ vs := by
  have hunread : (q.put vs).unread = (q.values ++ vs).map .value ++
      if (q.put vs).inputClosed && !(q.put vs).terminated then [.terminator] else [] := by
    have hbefore := h.unread
    rw [hopen] at hbefore
    simp [Queue.put, hopen, hbefore]
  refine ⟨wellFormed_of_unread_eq _ hunread fun hterminated => ?_, values_of_unread_eq _ hunread⟩
  rw [Queue.put, h.terminated_eq_false hopen] at hterminated
  cases hterminated

theorem close {q : Queue α} (h : q.WellFormed) (hopen : q.inputClosed = false) :
    q.close.WellFormed ∧ q.close.values = q.values := by
  have hterminated := h.terminated_eq_false hopen
  have hunread : q.close.unread = q.values.map .value ++
      if q.close.inputClosed && !q.close.terminated then [.terminator] else [] := by
    have hbefore := h.unread
    rw [hopen] at hbefore
    simp [Queue.close, hterminated, hbefore]
  refine ⟨wellFormed_of_unread_eq _ hunread fun hend => ?_, values_of_unread_eq _ hunread⟩
  rw [Queue.close, hterminated] at hend
  cases hend

theorem closedBy {q : Queue α} (h : q.WellFormed) (hopen : q.inputClosed = false) (op : Operation α)
    (reply : Reply α) :
    (q.closedBy op reply).WellFormed ∧ (q.closedBy op reply).values = q.values := by
  unfold Queue.closedBy
  split
  · exact h.close hopen
  · exact ⟨h, rfl⟩

theorem turn {q : Queue α} (h : q.WellFormed) (hopen : q.inputClosed = false) (vs : List α)
    {halt : Halt} {left : List (Entry α)}
    (hturned : q.unread ++ vs.map .value =
      vs.map .value ++ if halt = .ended then .terminator :: left else left) :
    WellFormed { q with unread := left, terminated := halt = .ended } ∧
    q.values ++ vs = vs ++ valuesOf left := by
  have hbefore := h.unread
  rw [hopen, Bool.false_and, if_neg Bool.false_ne_true, List.append_nil] at hbefore
  rw [hbefore, ← List.map_append] at hturned
  obtain ⟨front, back, hvalues, hfront, hback⟩ := List.map_eq_append_iff.mp hturned
  have hsame : front = vs := (List.map_inj_right fun _ _ => Entry.value.inj).mp hfront
  by_cases hended : halt = .ended
  · -- There is no terminator to come upon in a queue that is open.
    rw [if_pos hended] at hback
    cases back <;> cases hback
  · rw [if_neg hended] at hback
    have hleft : valuesOf left = back := by
      rw [← hback, ← List.append_nil (back.map _), valuesOf_append]
      exact List.append_nil back
    refine ⟨wellFormed_of_unread_eq back ?_ fun hterminated =>
      absurd (of_decide_eq_true hterminated) hended, ?_⟩
    · simp [hopen, hback]
    · rw [hvalues, hsame, hleft]

end WellFormed

/-- No value gets lost or is made up by an operation, and none changes its place. -/
def Conserves (q : Queue α) (effect : Effect α) : Prop :=
  effect.queue.WellFormed ∧ q.values ++ effect.accepted = effect.delivered ++ effect.queue.values

theorem conserves_of_does {q : Queue α} (h : q.WellFormed) {op : Operation α} {effect : Effect α}
    (hdoes : q.Does op effect) : q.Conserves effect := by
  cases hdoes with
  | nothing _ _ => exact ⟨h, List.append_nil _⟩
  | puts vs hopen _ _ =>
    obtain ⟨hput, hvalues⟩ := h.put hopen vs
    obtain ⟨hwell, hsame⟩ := hput.closedBy hopen op _
    exact ⟨hwell, (hsame.trans hvalues).symm⟩
  | takes vs _ hunread _ _ =>
    obtain ⟨hwell, hvalues⟩ := h.drop vs hunread
    exact ⟨hwell, (List.append_nil _).trans hvalues⟩
  | ends vs _ hunread =>
    obtain ⟨hwell, hvalues, rfl⟩ := h.dropAll vs hunread
    exact ⟨hwell, (List.append_nil _).trans (hvalues.trans (List.append_nil _).symm)⟩
  | turns vs hopen _ hturned _ =>
    obtain ⟨hturn, hvalues⟩ := h.turn hopen vs hturned
    obtain ⟨hwell, hsame⟩ := hturn.closedBy hopen op _
    exact ⟨hwell, hvalues.trans (congrArg (vs ++ ·) hsame.symm)⟩

/-- What was there or was written has left the queue, or is in it, in this order. -/
theorem conserves_after {q : Queue α} (h : q.WellFormed) (history : List (Operation α)) :
    (q.after history).WellFormed ∧ q.values ++ q.accepted history = q.delivered history ++
      (q.after history).values := by
  induction history generalizing q with
  | nil => exact ⟨h, List.append_nil _⟩
  | cons op history ih =>
    obtain ⟨hwell, hstep⟩ := conserves_of_does h (does_perform q op)
    obtain ⟨hafter, hrun⟩ := ih hwell
    refine ⟨hafter, ?_⟩
    rw [accepted_cons, delivered_cons, ← List.append_assoc, hstep, List.append_assoc, hrun,
      List.append_assoc]
    rfl

/-- What readers of a queue can still get. -/
def readable (q : Queue α) : List α := if q.terminated then [] else q.values

theorem WellFormed.readable_eq {q : Queue α} (h : q.WellFormed) : q.readable = q.values := by
  rw [readable]
  split
  · next hend => rw [(h.terminated hend).2]
  · rfl

/-- A read that heeds no token that has fired delivers the next value, if there is one, and leaves
the others. -/
theorem readable_pop (q : Queue α) {access : Access} (hunfired : access ≠ .patient (some 0)) :
    (q.perform (.pop access)).delivered = q.readable.take 1 ∧
      (q.perform (.pop access)).queue.readable = q.readable.drop 1 := by
  by_cases hend : q.terminated = true
  · rw [perform_pop (pop_of_terminated hend access), readable, if_pos hend]
    exact ⟨rfl, rfl⟩
  · rcases pop_cases q access with ⟨hended, _⟩ | ⟨hfired, _⟩ | ⟨hunread, hpop⟩ |
      ⟨v, rest, hunread, hpop⟩ |
      ⟨rest, hunread, hpop⟩
    · exact absurd hended hend
    · exact absurd hfired hunfired
    · rw [perform_pop hpop, readable, if_neg hend, values, hunread]
      exact ⟨by cases access <;> rfl, rfl⟩
    · rw [perform_pop hpop, readable, readable, if_neg hend, if_neg hend, values, hunread]
      exact ⟨rfl, rfl⟩
    · rw [perform_pop hpop, readable, if_neg hend, values, hunread]
      exact ⟨rfl, rfl⟩

theorem delivered_readable (q : Queue α) {access : Access} (hunfired : access ≠ .patient (some 0))
    (count : Nat) :
    q.delivered (List.replicate count (.pop access)) = q.readable.take count := by
  induction count generalizing q with
  | zero => rfl
  | succ count ih =>
    obtain ⟨hfirst, hrest⟩ := readable_pop q hunfired
    rw [List.replicate_succ, delivered_cons, ih, hfirst, hrest, ← List.take_add, Nat.add_comm]

theorem delivered_replicate_pop {q : Queue α} (h : q.WellFormed) {access : Access}
    (hunfired : access ≠ .patient (some 0)) (count : Nat) :
    q.delivered (List.replicate count (.pop access)) = q.values.take count := by
  rw [delivered_readable q hunfired, h.readable_eq]

/-! ### Both ends are closed for good -/

/-- What is known at one end of a queue stays known. -/
structure Extends (before after : Queue α) : Prop where
  inputClosed : before.inputClosed = true → after.inputClosed = true
  terminated : before.terminated = true → after.terminated = true

theorem Extends.refl (q : Queue α) : q.Extends q := ⟨id, id⟩

theorem Extends.trans {first second third : Queue α} (h : first.Extends second)
    (h' : second.Extends third) :
    first.Extends third :=
  ⟨h'.inputClosed ∘ h.inputClosed, h'.terminated ∘ h.terminated⟩

theorem extends_closedBy (q : Queue α) (op : Operation α) (reply : Reply α) :
    q.Extends (q.closedBy op reply) := by
  unfold closedBy
  split
  · exact ⟨fun _ => rfl, id⟩
  · exact .refl q

theorem extends_of_does {q : Queue α} {op : Operation α} {effect : Effect α}
    (h : q.Does op effect) :
    q.Extends effect.queue := by
  cases h with
  | nothing _ _ => exact .refl q
  | puts vs _ _ _ =>
    have hput : q.Extends (q.put vs) := ⟨id, id⟩
    exact hput.trans (extends_closedBy _ op _)
  | takes _ _ _ _ _ => exact ⟨id, id⟩
  | ends _ _ _ => exact ⟨id, fun _ => rfl⟩
  | @turns halt _ left _ hgoing _ _ =>
    have hturn : q.Extends { q with unread := left, terminated := halt = .ended } :=
      ⟨id, fun hend => absurd (hgoing.symm.trans hend) Bool.false_ne_true⟩
    exact hturn.trans (extends_closedBy _ op _)

theorem extends_perform (q : Queue α) (op : Operation α) : q.Extends (q.perform op).queue :=
  extends_of_does (does_perform q op)

theorem extends_after (q : Queue α) (history : List (Operation α)) :
    q.Extends (q.after history) := by
  induction history generalizing q with
  | nil => exact .refl q
  | cons op history ih => exact (extends_perform q op).trans (ih _)

theorem accepted_of_closed {q : Queue α} (hclosed : q.inputClosed = true)
    (history : List (Operation α)) :
    q.accepted history = [] := by
  induction history generalizing q with
  | nil => rfl
  | cons op history ih =>
    rw [accepted_cons, ih ((extends_perform q op).inputClosed hclosed), List.append_nil]
    cases hwrites : op.writes with
    | true => rw [perform_of_writes hclosed hwrites]
    | false => exact accepted_of_not_writes q hwrites

theorem inputClosed_closedBy (q : Queue α) {op : Operation α} {reply : Reply α}
    (hcloses : op.closes = true) (hdone : reply.isDone = true) :
    (q.closedBy op reply).inputClosed = true := by
  rw [closedBy, if_pos (Bool.and_eq_true_iff.mpr ⟨hcloses, hdone⟩)]
  rfl

theorem inputClosed_of_does {q : Queue α} {op : Operation α} {effect : Effect α}
    (h : q.Does op effect) (hcloses : op.closes = true) (hdone : effect.reply.isDone = true) :
    effect.queue.inputClosed = true := by
  have hwrites := Operation.writes_of_closes hcloses
  cases h with
  | nothing hundone _ =>
    rw [hundone] at hdone
    cases hdone
  | puts vs _ _ _ => exact inputClosed_closedBy _ hcloses hdone
  | takes _ hreads _ _ _ =>
    rw [hreads] at hwrites
    cases hwrites
  | ends _ hreads _ =>
    rw [hreads] at hwrites
    cases hwrites
  | turns _ _ _ _ _ => exact inputClosed_closedBy _ hcloses hdone

theorem closings_of_closed {q : Queue α} (hclosed : q.inputClosed = true)
    (history : List (Operation α)) :
    q.closings history = 0 := by
  induction history generalizing q with
  | nil => rfl
  | cons op history ih =>
    rw [closings, ih ((extends_perform q op).inputClosed hclosed)]
    cases hcloses : op.closes with
    | false => rfl
    | true =>
      rw [perform_of_writes hclosed (Operation.writes_of_closes hcloses)]
      rfl

theorem closings_le_one (q : Queue α) (history : List (Operation α)) : q.closings history ≤ 1 := by
  induction history generalizing q with
  | nil => exact Nat.zero_le 1
  | cons op history ih =>
    rw [closings]
    split
    · next h =>
      -- From here on the queue is closed, and nothing closes it again.
      obtain ⟨hcloses, hdone⟩ := Bool.and_eq_true_iff.mp h
      have hnone :=
        closings_of_closed (inputClosed_of_does (does_perform q op) hcloses hdone) history
      omega
    · simpa using ih (q.perform op).queue

theorem terminated_of_does {q : Queue α} {op : Operation α} {effect : Effect α}
    (h : q.Does op effect) (hreply : effect.reply = .ended) : effect.queue.terminated = true := by
  cases h with
  | nothing _ hended => exact hended hreply
  | puts _ _ _ hended => exact absurd hreply hended
  | takes _ _ _ _ hended => exact absurd hreply hended
  | ends _ _ _ => rfl
  | @turns halt _ _ _ _ _ _ => cases halt <;> cases hreply

theorem reply_pop_of_terminated {q : Queue α} (h : q.terminated = true) (access : Access) :
    (q.perform (.pop access)).reply = .ended := by
  rw [perform, pop, if_pos h]
  rfl

/-- An operation that is refused, or that would have to wait and may not, leaves the queue as it
is. -/
theorem queue_of_refused {q : Queue α} {op : Operation α} {effect : Effect α} (h : q.Does op effect)
    (hreply : Refused effect.reply) : effect.queue = q := by
  cases h with
  | nothing _ _ => rfl
  | puts _ _ hrefused _ => exact absurd hreply hrefused
  | takes _ _ _ hrefused _ => exact absurd hreply hrefused
  | ends _ _ _ => rcases hreply with hreply | hreply <;> cases hreply
  | turns _ _ _ _ hrefused => exact absurd hreply hrefused

/-! ### What holds of every history -/

/-- All that has come into a queue, from the first. -/
def intake (preset : Option (List α)) (history : List (Operation α)) : List α :=
  preset.getD [] ++ (made preset).accepted history

theorem intake_eq (preset : Option (List α)) (history : List (Operation α)) :
    intake preset history = (made preset).delivered history ++
      ((made preset).after history).values := by
  rw [intake, ← values_made preset]
  exact (conserves_after (wellFormed_made preset) history).2

theorem intake_append (preset : Option (List α)) (earlier later : List (Operation α)) :
    intake preset (earlier ++ later) =
      intake preset earlier ++ ((made preset).after earlier).accepted later := by
  rw [intake, accepted_append, ← List.append_assoc, intake]

theorem delivered_of_ended {preset : Option (List α)} {earlier : List (Operation α)}
    {op : Operation α} (h : (((made preset).after earlier).perform op).reply = .ended)
    (later : List (Operation α)) :
    (made preset).delivered (earlier ++ [op]) = intake preset (earlier ++ op :: later) := by
  have hwell := (conserves_after (wellFormed_made preset) (earlier ++ [op])).1
  have hend : ((made preset).after (earlier ++ [op])).terminated = true := by
    rw [after_append]
    exact terminated_of_does (does_perform _ op) h
  obtain ⟨hclosed, hempty⟩ := hwell.terminated hend
  rw [List.append_cons earlier op later, intake_append, accepted_of_closed hclosed, List.append_nil,
    intake_eq, hempty, List.append_nil]

/-- For every history of a queue, whatever it is read into or filled from: what has left it is a
prefix of what has come into it, and reading on gives the rest in turn; at most one terminator is in
it, behind all values; the end is told only when everything has left it, and from then on to every
reader; it is closed once at most, and refuses to be written from then on; and an operation that is
refused leaves it as it is. -/
theorem protocol (preset : Option (List α)) :
    (∀ history, (made preset).delivered history <+: intake preset history) ∧
    (∀ history access count, access ≠ .patient (some 0) →
      (made preset).delivered (history ++ List.replicate count (.pop access)) =
        (intake preset history).take (((made preset).delivered history).length + count)) ∧
    (∀ history, let q := (made preset).after history
      q.unread =
        q.values.map .value ++ (if q.inputClosed && !q.terminated then [.terminator] else []) ∧
        (q.terminated = true → q.inputClosed = true)) ∧
    (∀ earlier op later, (((made preset).after earlier).perform op).reply = .ended →
      (made preset).delivered (earlier ++ [op]) = intake preset (earlier ++ op :: later) ∧
        ∀ access, (((made preset).after (earlier ++ op :: later)).perform (.pop access)).reply =
          .ended) ∧
    (∀ history, (made preset).closings history ≤ 1) ∧
    (∀ earlier op later op', op.closes = true →
      (((made preset).after earlier).perform op).reply.isDone = true →
      op'.writes = true →
      (((made preset).after (earlier ++ op :: later)).perform op').reply = .failed .closed) ∧
    ∀ history op, Refused (((made preset).after history).perform op).reply →
      (((made preset).after history).perform op).queue = (made preset).after history := by
  have hwell := fun history => (conserves_after (wellFormed_made preset) history).1
  refine ⟨fun history => ⟨_, (intake_eq preset history).symm⟩,
    fun history access count hunfired => ?_,
    fun history => ⟨(hwell history).unread, fun hend => ((hwell history).terminated hend).1⟩,
    fun earlier op later hended => ⟨delivered_of_ended hended later, fun access => ?_⟩,
    closings_le_one _, fun earlier op later op' hcloses hdone hwrites => ?_,
    fun history op => queue_of_refused (does_perform _ op)⟩
  · rw [delivered_append, delivered_replicate_pop (hwell history) hunfired, intake_eq,
      List.take_length_add_append]
  · rw [after_append]
    have hend := (extends_after _ later).terminated (terminated_of_does (does_perform _ op) hended)
    exact reply_pop_of_terminated hend access
  · rw [after_append]
    have hclosed :=
      (extends_after _ later).inputClosed (inputClosed_of_does (does_perform _ op) hcloses hdone)
    exact congrArg Effect.reply (perform_of_writes hclosed hwrites)

end Queue
end QueryShell
