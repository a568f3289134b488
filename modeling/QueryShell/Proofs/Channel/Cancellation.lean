import QueryShell.Proofs.Channel.Orderly
import QueryShell.Proofs.Channel.Tokens

/-! What becomes of readers and writers once a token has fired: readers that wait fail and take
nothing, an end that was read stays an end, and nothing else is any different. -/

namespace QueryShell

namespace Queue

variable {α : Type} {q next target : Queue α}

/-! ### Waiting reads -/

theorem pop_of_fired (hgoing : q.terminated = false) :
    q.pop (.patient (some 0)) = (.failed .cancelled, q) := by
  simp [pop, hgoing]

theorem readThrough_of_fired (hgoing : q.terminated = false) (sought : α → Bool) :
    q.readThrough sought (some 0) = ([], .failed .cancelled, q) := by
  obtain ⟨unread, inputClosed, terminated⟩ := q
  subst hgoing
  simp [readThrough, takeThrough]

theorem pullThrough_of_fired (hgoing : q.terminated = false) (hopen : target.inputClosed = false)
    (sought : α → Bool) (closing : Bool) :
    q.pullThrough target sought (some 0) closing = ⟨.failed .cancelled, q, target⟩ := by
  rw [pullThrough_of_open hopen (readThrough_of_fired hgoing sought), put_nil]
  simp [Halt.isRegular]

theorem turnThrough_of_fired (hgoing : q.terminated = false) (hopen : q.inputClosed = false)
    (sought : α → Bool) (closing : Bool) :
    q.turnThrough sought (some 0) closing = ([], .failed .cancelled, q) := by
  obtain ⟨unread, inputClosed, terminated⟩ := q
  subst hgoing hopen
  simp [turnThrough, turnWithin, haltOfFuse, Halt.isRegular]

/-! ### What waiting reads and writes do to the values -/

/-- A queue that has been written to, unless it was closed. -/
structure Gains (q next : Queue α) (written : List α) : Prop where
  wellFormed : next.WellFormed
  values : next.values = q.values ++ written
  closed : q.inputClosed = true → written = [] ∧ next.inputClosed = true

/-- Under a token that has fired, writes are all that changes a queue. -/
theorem gains_of_handled (h : q.WellFormed) (hhandled : q.Handled (some 0) next) :
    ∃ written, q.Gains next written := by
  induction hhandled with
  | kept => exact ⟨[], h, (List.append_nil _).symm, fun hclosed => ⟨rfl, hclosed⟩⟩
  | put _ hopen vs ih =>
    obtain ⟨written, hgains⟩ := ih
    obtain ⟨hwell, hvalues⟩ := hgains.wellFormed.put hopen vs
    refine ⟨written ++ vs, hwell, ?_, fun hclosed => ?_⟩
    · rw [hvalues, hgains.values, List.append_assoc]
    · cases hopen.symm.trans (hgains.closed hclosed).2
  | closed _ hopen ih =>
    obtain ⟨written, hgains⟩ := ih
    obtain ⟨hwell, hvalues⟩ := hgains.wellFormed.close hopen
    exact ⟨written, hwell, hvalues.trans hgains.values,
      fun hclosed => ⟨(hgains.closed hclosed).1, rfl⟩⟩
  | @read next _ sought ih =>
    have hkept : (next.readThrough sought (some 0)).2.2 = next := by
      cases hend : next.terminated with
      | true => rw [readThrough_of_terminated hend]
      | false => rw [readThrough_of_fired hend]
    rwa [hkept]
  | @turned next _ sought closing ih =>
    obtain ⟨written, hgains⟩ := ih
    have hkept : (next.turnThrough sought (some 0) closing).2.2 = next := by
      cases hclosed : next.inputClosed with
      | true => rw [turnThrough, if_pos hclosed]
      | false => rw [turnThrough_of_fired (hgains.wellFormed.terminated_eq_false hclosed) hclosed]
    rw [hkept]
    exact ⟨written, hgains⟩

theorem Orderly.wellFormed (h : q.Orderly) (hgoing : q.terminated = false) : q.WellFormed := by
  refine wellFormed_of_unread_eq q.values ?_ fun hend => ?_
  · rw [hgoing, Bool.not_false, Bool.and_true]
    exact h (.inr hgoing)
  · cases hgoing.symm.trans hend

end Queue

namespace Action

/-- What a pop of the channel delivers. -/
def popped (id : Nat) : Action → Answer → List Value
  | .pop channel _, .value v => if channel = id then [v] else []
  | _, _ => []

/-- Whether the action writes to a channel. -/
def writes : Action → Bool
  | .push .. => true
  | .emit .. => true
  | .terminate _ => true
  | .close _ => true
  | .throw .. => true
  | .assign .. => true
  | .fillDefaults _ => true
  | _ => false

end Action

namespace Network

variable {net : Network} {id : Nat}

theorem lt_of_isCancelled (h : net.isCancelled id = true) : id < net.channels.length := by
  by_contra hge
  rw [isCancelled, channel, List.getElem?_eq_none (Nat.le_of_not_lt hge)] at h
  cases h

theorem isCancelled_of_token {token : Nat} (htoken : (net.channel id).token = some token)
    (hfired : net.isFired token = true) :
    net.isCancelled id = true := by
  rw [isCancelled, htoken]
  exact hfired

theorem fuse_of_fired (h : net.isCancelled id = true) : net.fuse id = some 0 := by
  rw [fuse, if_pos h]

theorem isCancelled_perform (h : net.isCancelled id = true) (action : Action) :
    (net.perform action).2.isCancelled id = true := by
  have hevolves := evolves_perform net action
  rw [isCancelled, (hevolves.token (lt_of_isCancelled h)).2]
  obtain ⟨token, htoken, hfired⟩ := (Option.any_eq_true _ _).mp h
  rw [htoken]
  exact hevolves.isFired hfired

/-! ### Readers that wait -/

/-- Readers that wait on the channel fail, and take nothing from it. -/
structure Refuses (net : Network) (id : Nat) : Prop where
  pop : net.perform (.pop id true) = (.failed .cancelled, net)
  nextException : net.perform (.nextException id) = (.failed .cancelled, net)
  pull : ∀ target closing, (net.queue target).inputClosed = false →
    net.perform (.pull id target closing) = (.failed .cancelled, net)
  pullThroughException : ∀ target closing, (net.queue target).inputClosed = false →
    net.perform (.pullThroughException id target closing) = (.failed .cancelled, net)
  drain : net.perform (.drain id) = (.values [], net)
  take : ∀ count, net.perform (.take id count) = (.values [], net)

/-- Readers of the channel find its end. -/
structure Ended (net : Network) (id : Nat) : Prop where
  pop : ∀ waits, net.perform (.pop id waits) = (.ended, net)
  nextException : net.perform (.nextException id) = (.ended, net)
  pull : ∀ target closing, (net.queue target).inputClosed = false →
    (net.perform (.pull id target closing)).1 = .done
  pullThroughException : ∀ target closing, (net.queue target).inputClosed = false →
    (net.perform (.pullThroughException id target closing)).1 = .flag false
  drain : net.perform (.drain id) = (.values [], net)
  take : ∀ count, net.perform (.take id count) = (.values [], net)

/-- Waiting reads that come to nothing change nothing. -/
theorem perform_of_nothing_read {reading : Reading Value} {halt : Halt}
    (hvalue : ∀ v, reading ≠ .value v) (hfound : halt ≠ .found)
    (hpop : (net.queue id).pop (.patient (net.fuse id)) = (reading, net.queue id))
    (hread : ∀ sought, (net.queue id).readThrough sought (net.fuse id) = ([], halt, net.queue id)) :
    net.perform (.pop id true) = (.ofReading .value reading, net) ∧
      net.perform (.nextException id) = (halt.answer .ended, net) ∧
      net.perform (.drain id) = (.values [], net) ∧
      ∀ count, net.perform (.take id count) = (.values [], net) := by
  have hkept := setQueue_queue net id
  refine ⟨?_, ?_, ?_, fun count => ?_⟩
  · rw [perform, if_pos rfl, hpop]
    exact congrArg (Prod.mk _) hkept
  · rw [perform, nextException, hread]
    dsimp only
    rw [if_neg hfound, hkept]
  · rw [perform, Queue.drain, hread]
    exact congrArg (Prod.mk _) hkept
  · rw [perform]
    cases count with
    | zero => rfl
    | succ count =>
      rw [take, hpop]
      cases reading with
      | value v => exact absurd rfl (hvalue v)
      | ended | waiting | failed e => exact congrArg (Prod.mk _) hkept

theorem transfer_of_fired (hfuse : net.fuse id = some 0)
    (hgoing : (net.queue id).terminated = false) {target : Nat}
    (hopen : (net.queue target).inputClosed = false) (sought : Value → Bool) (closing : Bool) :
    net.transfer id target sought closing = (.failed .cancelled, net) := by
  rw [transfer, hfuse]
  split
  · next heq =>
    subst heq
    rw [Queue.turnThrough_of_fired hgoing hopen]
    exact congrArg (Prod.mk _) (setQueue_queue net id)
  · rw [Queue.pullThrough_of_fired hgoing hopen]
    dsimp only
    rw [setQueue_queue, setQueue_queue]

theorem refuses_of_fired (hfired : net.isCancelled id = true)
    (hgoing : (net.queue id).terminated = false) :
    net.Refuses id := by
  have hfuse := fuse_of_fired hfired
  obtain ⟨hpop, hnext, hdrain, htake⟩ := perform_of_nothing_read (by simp) (by simp)
    (hfuse ▸ Queue.pop_of_fired hgoing) (hfuse ▸ Queue.readThrough_of_fired hgoing)
  refine ⟨hpop, hnext, fun target closing hopen => ?_, fun target closing hopen => ?_, hdrain,
    htake⟩
  · rw [perform, transfer_of_fired hfuse hgoing hopen]
    rfl
  · rw [perform, transfer_of_fired hfuse hgoing hopen]
    rfl

theorem transfer_of_ended (hend : (net.queue id).terminated = true) {target : Nat}
    (hopen : (net.queue target).inputClosed = false) (sought : Value → Bool) (closing : Bool) :
    (net.transfer id target sought closing).1 = .ended := by
  rw [transfer]
  split
  · next heq =>
    subst heq
    rw [Queue.turnThrough, if_neg (Bool.eq_false_iff.mp hopen), if_pos hend]
  · rw [Queue.pullThrough_of_open hopen (Queue.readThrough_of_terminated hend sought _)]

theorem ended_of_terminated (hend : (net.queue id).terminated = true) : net.Ended id := by
  have hread := fun sought => Queue.readThrough_of_terminated hend sought (net.fuse id)
  obtain ⟨_, hnext, hdrain, htake⟩ :=
    perform_of_nothing_read (by simp) (by simp) (Queue.pop_of_terminated hend _) hread
  refine ⟨fun waits => ?_, hnext, fun target closing hopen => ?_, fun target closing hopen => ?_,
    hdrain, htake⟩
  · rw [perform, Queue.pop_of_terminated hend]
    exact congrArg (Prod.mk _) (setQueue_queue net id)
  · rw [perform]
    dsimp only
    rw [transfer_of_ended hend hopen]
    rfl
  · rw [perform]
    dsimp only
    rw [transfer_of_ended hend hopen]
    rfl

/-! ### Readers that do not wait -/

/-- What the pops of a channel deliver in a history. -/
def poppedAll (net : Network) (id : Nat) : List Action → List Value
  | [] => []
  | action :: more =>
    action.popped id (net.perform action).1 ++ poppedAll (net.perform action).2 id more

theorem popped_of_fired (hfired : net.isCancelled id = true) {action : Action}
    (hwaits : action ≠ .pop id false) :
    action.popped id (net.perform action).1 = [] := by
  cases action with
  | pop c waits =>
    by_cases hid : c = id
    · subst hid
      cases waits with
      | false => exact absurd rfl hwaits
      | true =>
        cases hend : (net.queue c).terminated with
        | true =>
          rw [(ended_of_terminated hend).pop]
          rfl
        | false =>
          rw [(refuses_of_fired hfired hend).pop]
          rfl
    · cases (net.perform (.pop c waits)).1 <;> simp [Action.popped, hid]
  | _ => rfl

theorem perform_pop_immediate (hid : id < net.channels.length) :
    Action.popped id (.pop id false) (net.perform (.pop id false)).1 =
      ((net.queue id).perform (.pop .immediate)).delivered ∧
      (net.perform (.pop id false)).2.queue id =
        ((net.queue id).perform (.pop .immediate)).queue := by
  rcases hpop : (net.queue id).pop .immediate with ⟨reading, left⟩
  have hperform : net.perform (.pop id false) =
      (.ofReading .value reading, net.setQueue id left) := by
    rw [perform, if_neg Bool.false_ne_true, hpop]
  rw [hperform, Queue.perform_pop hpop]
  refine ⟨?_, ?_⟩
  · cases reading
      <;> simp [Action.popped, Answer.ofReading, Queue.Reply.ofReading, Queue.Reply.values]
  · rw [queue_setQueue net hid, if_pos rfl]

/-- What an action leaves of the values, when the token has fired: a pop takes the first one, and
writers add to them. -/
theorem pops_perform (hfired : net.isCancelled id = true) (hwell : (net.queue id).WellFormed)
    {action : Action} (hsplit : ∀ count, action ≠ .split id count) :
    let next := (net.perform action).2
    (next.queue id).WellFormed ∧ ∃ written,
      ((net.queue id).inputClosed = true → written = [] ∧ (next.queue id).inputClosed = true) ∧
      (net.queue id).values ++ written = action.popped id (net.perform action).1 ++
        (next.queue id).values := by
  intro next
  have hid := lt_of_isCancelled hfired
  by_cases hpop : action = .pop id false
  · subst hpop
    obtain ⟨hdelivered, hqueue⟩ := perform_pop_immediate hid
    obtain ⟨hnext, hvalues⟩ :=
      Queue.conserves_of_does hwell (Queue.does_pop (net.queue id) .immediate)
    have hclosed := (Queue.extends_perform (net.queue id) (.pop .immediate)).inputClosed
    rw [hdelivered, hqueue]
    exact ⟨hnext, [], fun h => ⟨rfl, hclosed h⟩, hvalues⟩
  · have hgains : ∃ written, (net.queue id).Gains (next.queue id) written := by
      have htouched := touched_perform net action id
      generalize next.queue id = q at htouched ⊢
      cases htouched with
      | handled hhandled => exact Queue.gains_of_handled hwell (fuse_of_fired hfired ▸ hhandled)
      | popped haction => exact absurd haction hpop
      | detached _ haction => exact absurd haction (hsplit _)
      | received _ hunfired _ _ => cases hfired.symm.trans hunfired
      | made hnew _ => exact absurd hid (Nat.not_lt.mpr hnew)
      | copied hnew _ => exact absurd hid (Nat.not_lt.mpr hnew)
    obtain ⟨written, hgains⟩ := hgains
    rw [popped_of_fired hfired hpop]
    exact ⟨hgains.wellFormed, written, hgains.closed, hgains.values.symm⟩

theorem pops_performAll (hfired : net.isCancelled id = true) (hwell : (net.queue id).WellFormed)
    {more : List Action} (hsplit : ∀ count, .split id count ∉ more) :
    ∃ written, ((net.queue id).inputClosed = true → written = []) ∧
      (net.queue id).values ++ written =
        net.poppedAll id more ++ ((net.performAll more).queue id).values := by
  induction more generalizing net with
  | nil => exact ⟨[], fun _ => rfl, List.append_nil _⟩
  | cons action more ih =>
    have hfirst : ∀ count, action ≠ .split id count :=
      fun count heq => hsplit count (heq ▸ List.mem_cons_self)
    obtain ⟨hnext, first, hclosed, hvalues⟩ := pops_perform hfired hwell hfirst
    obtain ⟨rest, hclosed', hvalues'⟩ := ih (isCancelled_perform hfired action) hnext
      fun count hmem => hsplit count (List.mem_cons_of_mem _ hmem)
    refine ⟨first ++ rest, fun h => ?_, ?_⟩
    · rw [(hclosed h).1, hclosed' (hclosed h).2]
      rfl
    · rw [← List.append_assoc, hvalues, List.append_assoc, hvalues', poppedAll, List.append_assoc]
      rfl

/-- Readers that do not wait get what is in the channel, one value after the other, whatever else is
done before it is split. -/
structure Serves (net : Network) (id : Nat) : Prop where
  first : ∀ v rest, (net.queue id).values = v :: rest →
    (net.perform (.pop id false)).1 = .value v ∧
    ((net.perform (.pop id false)).2.queue id).values = rest
  last : (net.queue id).values = [] →
    (net.perform (.pop id false)).1 =
      if (net.queue id).inputClosed then .ended else .failed .wouldBlock
  order : ∀ more, (∀ count, .split id count ∉ more) →
    ∃ written, ((net.queue id).inputClosed = true → written = []) ∧
    (net.queue id).values ++ written =
      net.poppedAll id more ++ ((net.performAll more).queue id).values

theorem serves_of_fired (hfired : net.isCancelled id = true)
    (hgoing : (net.queue id).terminated = false) (horderly : (net.queue id).Orderly) :
    net.Serves id := by
  have hunread := horderly (.inr hgoing)
  have hperform : net.perform (.pop id false) =
      (.ofReading .value ((net.queue id).pop .immediate).1,
        net.setQueue id ((net.queue id).pop .immediate).2) := rfl
  refine ⟨fun v rest hvalues => ?_, fun hvalues => ?_,
    fun more hsplit => pops_performAll hfired (horderly.wellFormed hgoing) hsplit⟩
  · rw [hvalues] at hunread
    have hpop : (net.queue id).pop .immediate = (.value v, { net.queue id with
        unread :=
          List.map .value rest ++ if (net.queue id).inputClosed then [.terminator] else [] }) := by
      simp [Queue.pop, hgoing, hunread]
    rw [hperform, hpop, queue_setQueue net (lt_of_isCancelled hfired), if_pos rfl]
    exact ⟨rfl, Queue.values_of_unread_eq rest rfl⟩
  · rw [hvalues] at hunread
    rw [hperform, Queue.pop, hgoing, hunread]
    cases (net.queue id).inputClosed <;> rfl

/-! ### Slots and writers -/

theorem perform_read_of_fired (hfired : net.isCancelled id = true) (kind : SlotKind) :
    net.perform (.read id kind) = (match (net.slots id).get? kind with
      | some content => .content kind content
      | none => .failed .cancelled, net) := by
  rw [perform, hfired, Slots.read]
  cases (net.slots id).get? kind <;> rfl

theorem perform_snapshot_of_fired (hfired : net.isCancelled id = true) :
    net.perform (.snapshot id) =
      (if (net.slots id).allSet then .namespaces (net.slots id).namespaces else .failed .cancelled,
        net) := by
  rw [perform, hfired, Slots.snapshot]
  cases (net.slots id).allSet <;> rfl

/-- A write does the same whatever tokens have fired. -/
theorem perform_writes (net : Network) {action : Action} (hwrites : action.writes = true)
    (tokens : List Bool) :
    { net with tokens := tokens }.perform action =
      ((net.perform action).1, { (net.perform action).2 with tokens := tokens }) := by
  cases action with
  | push c v =>
    have hattempt : { net with tokens := tokens }.perform (.push c v) =
      attempt { net with tokens := tokens } c ((net.queue c).push v) := rfl
    rw [hattempt, perform]
    cases (net.queue c).push v <;> rfl
  | terminate c =>
    have hattempt : { net with tokens := tokens }.perform (.terminate c) =
      attempt { net with tokens := tokens } c (net.queue c).terminate := rfl
    rw [hattempt, perform]
    cases (net.queue c).terminate <;> rfl
  | assign c kind content =>
    have hslots : slots { net with tokens := tokens } c = net.slots c := rfl
    rw [perform, perform, hslots]
    cases (net.slots c).assign kind content <;> rfl
  | emit c v | close c | throw c e | fillDefaults c => rfl
  | _ => cases hwrites

/-- Whatever is done once a token has fired, the token stays fired, and the channels under it, with
their copies, stay under it. Readers that wait on such a channel fail and take nothing, whatever is
in it, unless they have read its end: that stays the end. Readers that do not wait still get what is
in it, in order. A slot can be read if it is set. Writers do what they would do if no token had
fired. A channel without a token cannot be cancelled. -/
theorem cancellation_final (history later : List Action) {token : Nat}
    (hfired : (initial.performAll history).isFired token = true) :
    let start := initial.performAll history
    let net := start.performAll later
    (net.isFired token = true ∧
      (∀ id, (start.channel id).token = some token → (net.channel id).token = some token) ∧
      ∀ id count copy, net.channels.length ≤ copy → copy < net.channels.length + count →
        ((net.perform (.split id count)).2.channel copy).token = (net.channel id).token) ∧
    (∀ id, (net.channel id).token = some token →
      ((net.queue id).terminated = false → net.Refuses id ∧ net.Serves id) ∧
      ((net.queue id).terminated = true → ∀ more, (net.performAll more).Ended id) ∧
      (∀ kind, net.perform (.read id kind) = (match (net.slots id).get? kind with
        | some content => .content kind content
        | none => .failed .cancelled, net)) ∧
      net.perform (.snapshot id) =
        (if (net.slots id).allSet then .namespaces (net.slots id).namespaces
          else .failed .cancelled, net)) ∧
    (∀ action, action.writes = true → ∀ tokens, { net with tokens := tokens }.perform action =
      ((net.perform action).1, { (net.perform action).2 with tokens := tokens })) ∧
    ∀ id, (net.channel id).token = none → net.perform (.cancel id) = (.flag false, net) := by
  intro start net
  have hevolves : start.Evolves net := evolves_performAll start later
  have hstill : net.isFired token = true := hevolves.isFired hfired
  have horderly : net.Orderly := (orderly_initial.performAll history).performAll later
  refine ⟨⟨hstill, fun id htoken => ?_, fun id count copy hnew hcopy =>
    token_split_of_copy net id count hnew hcopy⟩,
    fun id htoken => ?_, fun action hwrites tokens => perform_writes net hwrites tokens,
    fun id htoken => ?_⟩
  · have hcancelled := isCancelled_of_token htoken hfired
    rw [(hevolves.token (lt_of_isCancelled hcancelled)).2, htoken]
  · have hcancelled := isCancelled_of_token htoken hstill
    refine ⟨fun hgoing => ?_, fun hend more => ?_, perform_read_of_fired hcancelled,
      perform_snapshot_of_fired hcancelled⟩
    · exact ⟨refuses_of_fired hcancelled hgoing,
        serves_of_fired hcancelled hgoing (horderly.queues id)⟩
    · exact ended_of_terminated (terminated_performAll hend more)
  · have hnever : net.isCancelled id = false := by
      rw [isCancelled, htoken]
      rfl
    rw [perform, htoken]
    exact congrArg (fun flag => (Answer.flag flag, net)) hnever

/-- A channel is split when its token has fired: its readers find its end for ever, and its copy has
its values for readers that do not wait only. -/
theorem cancellation_final_of_copy :
    let start :=
      initial.performAll [.openChannel (some 0), .push 0 .null, .push 0 (.boolean true), .fire 0]
    let net := start.performAll [.split 0 1]
    (∀ more, (net.performAll more).perform (.pop 0 true) = (.ended, net.performAll more)) ∧
      net.perform (.pop 1 true) = (.failed .cancelled, net) ∧
      (net.perform (.pop 1 false)).1 = .value .null := by
  intro start net
  obtain ⟨_, hreaders, _⟩ := @cancellation_final
    [.openChannel (some 0), .push 0 .null, .push 0 (.boolean true), .fire 0] [.split 0 1] 0 rfl
  have hended := (hreaders 0 rfl).2.1 rfl
  obtain ⟨hrefuses, hserves⟩ := (hreaders 1 rfl).1 rfl
  exact ⟨fun more => (hended more).pop true, hrefuses.pop,
    (hserves.first .null [.boolean true] rfl).1⟩

end Network
end QueryShell
