import Mathlib.Logic.Relation
import QueryShell.Proofs.Channel.Queue
import QueryShell.Proofs.Eval.Generated
import QueryShell.Proofs.Eval.Terminal

/-! The bridge as two parties that run side by side: the caller moves the values of the input into
the bridge up to the first exception, and a worker drives the node that reads the bridge. However
their steps interleave, what comes out is what the node generates from all it can read. -/

namespace QueryShell

namespace Error

/-- A cancelled operation under any number of notes. -/
def cancelled (notes : List String) : Error := notes.foldr .context (.channel .cancelled)

end Error

namespace Generated

variable {items : List Item} {ending : Ending} {vs : List Value} {raised? : Option Value}

end Generated

namespace Bridging

/-- What the caller is at. It may know of an exception that is yet to be put out. -/
inductive Caller where
  | looking
  | taking
  | closing (pending : Option Value)
  | joining (pending : Option Value)
  | done

/-- What the worker is at: the items that the node has not yielded, or whether an exception was put
out, which is known to the caller when the flag is up. -/
inductive Worker where
  | driving (items : List Item)
  | returned (raised : Bool)
  | finished (raised : Bool)

namespace Worker

def isFinished : Worker → Bool
  | .finished _ => true
  | _ => false

/-- What the worker puts out when the node yields an item or stops, or when the flag goes up. -/
def turn (ending : Ending) : Worker → Option (List Value × Worker)
  | .driving [] =>
    match ending with
    | .finished => some ([], .returned false)
    | .brokenDown _ => some (ending.values, .returned true)
  | .driving (.value v :: items) =>
    some ([v], if v.isException then .returned true else .driving items)
  | .driving (.fault e :: _) =>
    if e.isCancelled then some ([], .returned false)
    else some ([(Exception.internal e.message).toValue], .returned true)
  | .returned raised => some ([], .finished raised)
  | .finished _ => none

end Worker

structure State where
  input : Queue Value
  bridge : Queue Value
  output : Queue Value
  caller : Caller
  worker : Worker
  /-- The values that the node has read. -/
  heard : List Value

def start (values : List Value) (items : List Item) : State :=
  ⟨.ofValues values, .empty, .empty, .looking, .driving items, []⟩

namespace State

/-- A step of the caller, unless it waits. It leaves the input when the worker has finished. -/
def call (state : State) : Option State :=
  match state.caller with
  | .looking =>
    some { state with caller := if state.worker.isFinished then .closing none else .taking }
  | .taking =>
    match state.input.pop (.patient none) with
    | (.value v, left) =>
      if v.isException then some { state with input := left, caller := .closing (some v) }
      else some { state with input := left, bridge := state.bridge.emit v, caller := .looking }
    | (.waiting, _) => none
    | (_, left) => some { state with input := left, caller := .closing none }
  | .closing pending =>
    some { state with bridge := state.bridge.finish, caller := .joining pending }
  | .joining pending =>
    match state.worker with
    | .finished raised =>
      let last := if raised then [] else pending.toList
      some { state with output := (last.foldl Queue.emit state.output).finish, caller := .done }
    | _ => none
  | .done => none

/-- A step of the worker by which the node reads the bridge, unless it has to wait. -/
def read (state : State) : Option State :=
  match state.worker with
  | .driving _ =>
    match state.bridge.pop (.patient none) with
    | (.value v, left) => some { state with bridge := left, heard := state.heard ++ [v] }
    | (.waiting, _) => none
    | (_, left) => some { state with bridge := left }
  | _ => none

/-- Any other step of the worker. -/
def drive (ending : Ending) (state : State) : Option State :=
  (state.worker.turn ending).map fun (vs, worker) =>
    { state with output := vs.foldl Queue.emit state.output, worker := worker }

end State

/-- The parties take steps in any order. Where the node reads, between the items that it yields, is
left open. -/
inductive Step (ending : Ending) (state next : State) : Prop where
  | call (h : state.call = some next)
  | read (h : state.read = some next)
  | drive (h : state.drive ending = some next)

/-! ### What the parties know at each point -/

/-- The caller has come to the end of what it moves: it has moved all, or the worker had finished
before. -/
def Settled (values : List Value) (state : State) (pending : Option Value) : Prop :=
  (pending = Stream.firstException? values ∧
    state.heard ++ state.bridge.values = Stream.plain values) ∨
  (pending = none ∧ state.worker.isFinished = true ∧ state.bridge.terminated = false ∧
    state.heard ++ state.bridge.values <+: Stream.plain values)

/-- Every value that the caller has taken was read by the node or is in the bridge. -/
def Moved (values : List Value) (state : State) : Prop :=
  ∃ rest, state.input = .ofValues rest ∧
    state.heard ++ state.bridge.values ++ Stream.plain rest = Stream.plain values ∧
    Stream.firstException? rest = Stream.firstException? values

/-- The worker has put out what the node has yielded, and the rest of it is to come. -/
def Driven (generated : Generated) (state : State) : Prop :=
  match state.worker with
  | .driving items => ∃ vs, Stream.raises vs = false ∧ state.output = Queue.empty.put vs ∧
      generated.values = vs ++ Generated.values ⟨items, generated.ending⟩
  | .returned raised | .finished raised => state.output = Queue.empty.put generated.values ∧
      raised = Stream.raises generated.values

/-- The caller puts the exception of the input behind what the worker has put out, unless that has
one. -/
def Joined (generated : Generated) (values : List Value) (state : State) : Prop :=
  state.worker.isFinished = true ∧ ∃ pending, Settled values state pending ∧
    state.output =
      .ofValues (generated.values ++ if Stream.raises generated.values then [] else pending.toList)

def Phase (generated : Generated) (values : List Value) (state : State) : Caller → Prop
  | .looking | .taking =>
    Driven generated state ∧ state.bridge.inputClosed = false ∧ Moved values state
  | .closing pending =>
    Driven generated state ∧ state.bridge.inputClosed = false ∧ Settled values state pending
  | .joining pending =>
    Driven generated state ∧ state.bridge.inputClosed = true ∧ Settled values state pending
  | .done => Joined generated values state

structure Invariant (generated : Generated) (values : List Value) (state : State) : Prop where
  bridge : state.bridge.WellFormed
  phase : Phase generated values state state.caller

variable {generated : Generated} {values : List Value} {state next : State}

theorem invariant_start (generated : Generated) (values : List Value) :
    Invariant generated values (start values generated.items) where
  bridge := Queue.wellFormed_made none
  phase := ⟨⟨[], rfl, rfl, rfl⟩, rfl, values, rfl, rfl, rfl⟩

theorem Settled.of_eq {pending : Option Value} (h : Settled values state pending)
    (hvalues : next.heard ++ next.bridge.values = state.heard ++ state.bridge.values)
    (hfinished : state.worker.isFinished = true →
      next.worker.isFinished = true ∧ next.bridge.terminated = state.bridge.terminated) :
    Settled values next pending := by
  rcases h with ⟨hpending, hmoved⟩ | ⟨hpending, hworker, hunread, hmoved⟩
  · exact .inl ⟨hpending, hvalues.trans hmoved⟩
  · obtain ⟨hnext, hterminated⟩ := hfinished hworker
    exact .inr ⟨hpending, hnext, hterminated.trans hunread, hvalues ▸ hmoved⟩

theorem settled_of_finished (hbridge : state.bridge.WellFormed)
    (hopen : state.bridge.inputClosed = false) (hmoved : Moved values state)
    (hfinished : state.worker.isFinished = true) : Settled values state none := by
  obtain ⟨rest, _, hvalues, _⟩ := hmoved
  exact .inr ⟨rfl, hfinished, hbridge.terminated_eq_false hopen, _, hvalues⟩

theorem invariant_take (h : Invariant generated values state) (hcaller : state.caller = .taking)
    (hcall : state.call = some next) : Invariant generated values next := by
  obtain ⟨hdriven, hopen, rest, hinput, hmoved, hfirst⟩ := hcaller ▸ h.phase
  rw [State.call, hcaller, hinput] at hcall
  cases rest with
  | nil =>
    cases hcall
    rw [Stream.plain, List.takeWhile_nil, List.append_nil] at hmoved
    exact ⟨h.bridge, hdriven, hopen, .inl ⟨hfirst, hmoved⟩⟩
  | cons v rest =>
    cases hv : v.isException with
    | true =>
      have hcall : some { state with input := .ofValues rest, caller := .closing (some v) } =
          some next := by
        rw [← hcall]
        simp [Queue.pop, Queue.ofValues, hv]
      cases hcall
      rw [Stream.plain, List.takeWhile_cons_of_neg (by simp [hv]), List.append_nil] at hmoved
      rw [Stream.firstException?, List.find?_cons_of_pos hv] at hfirst
      exact ⟨h.bridge, hdriven, hopen, .inl ⟨hfirst, hmoved⟩⟩
    | false =>
      have hcall : some { state with
          input := .ofValues rest, bridge := state.bridge.put [v], caller := .looking } =
          some next := by
        rw [← hcall]
        simp [Queue.pop, Queue.ofValues, Queue.emit, hopen, hv]
      cases hcall
      obtain ⟨hwell, hput⟩ := h.bridge.put hopen [v]
      rw [Stream.plain, List.takeWhile_cons_of_pos (by simp [hv])] at hmoved
      rw [Stream.firstException?, List.find?_cons_of_neg (by simp [hv])] at hfirst
      refine ⟨hwell, hdriven, hopen, rest, rfl, ?_, hfirst⟩
      rw [← hmoved, hput]
      simp [Stream.plain]

theorem foldl_emit_put (vs more : List Value) :
    more.foldl Queue.emit (Queue.empty.put vs) = Queue.empty.put (vs ++ more) := by
  induction more generalizing vs with
  | nil => rw [List.foldl_nil, List.append_nil]
  | cons v more ih =>
    have hemit : (Queue.empty.put vs).emit v = Queue.empty.put (vs ++ [v]) := by
      simp [Queue.emit, Queue.put, Queue.empty]
    rw [List.foldl_cons, hemit, ih, List.append_assoc, List.singleton_append]

theorem finish_put (vs : List Value) : (Queue.empty.put vs).finish = .ofValues vs := by
  simp [Queue.finish, Queue.close, Queue.put, Queue.empty, Queue.ofValues]

theorem invariant_join (h : Invariant generated values state) {pending : Option Value}
    (hcaller : state.caller = .joining pending) (hcall : state.call = some next) :
    Invariant generated values next := by
  obtain ⟨hdriven, _, hsettled⟩ := hcaller ▸ h.phase
  rw [State.call, hcaller] at hcall
  cases hworker : state.worker with
  | driving items | returned raised =>
    rw [hworker] at hcall
    cases hcall
  | finished raised =>
    rw [hworker] at hcall
    rw [Driven, hworker] at hdriven
    obtain ⟨houtput, rfl⟩ := hdriven
    cases hcall
    refine ⟨h.bridge, rfl, pending, hsettled.of_eq rfl fun _ => ⟨rfl, rfl⟩, ?_⟩
    rw [houtput, foldl_emit_put]
    exact finish_put _

theorem invariant_call (h : Invariant generated values state) (hcall : state.call = some next) :
    Invariant generated values next := by
  cases hcaller : state.caller with
  | looking =>
    obtain ⟨hdriven, hopen, hmoved⟩ := hcaller ▸ h.phase
    rw [State.call, hcaller] at hcall
    cases hcall
    cases hfinished : state.worker.isFinished with
    | true => exact ⟨h.bridge, hdriven, hopen, settled_of_finished h.bridge hopen hmoved hfinished⟩
    | false => exact ⟨h.bridge, hdriven, hopen, hmoved⟩
  | taking => exact invariant_take h hcaller hcall
  | closing pending =>
    obtain ⟨hdriven, hopen, hsettled⟩ := hcaller ▸ h.phase
    rw [State.call, hcaller, Queue.finish, hopen] at hcall
    cases hcall
    obtain ⟨hwell, hvalues⟩ := h.bridge.close hopen
    have hmoved : state.heard ++ state.bridge.close.values =
        state.heard ++ state.bridge.values := by rw [hvalues]
    exact ⟨hwell, hdriven, rfl, hsettled.of_eq hmoved fun hfinished => ⟨hfinished, rfl⟩⟩
  | joining pending => exact invariant_join h hcaller hcall
  | done =>
    rw [State.call, hcaller] at hcall
    cases hcall

theorem read_cases (h : state.read = some next) : (∃ items, state.worker = .driving items) ∧
    (next = state ∨
    (∃ v rest, state.bridge.unread = .value v :: rest ∧
      next = { state with
        bridge := { state.bridge with unread := rest }, heard := state.heard ++ [v] }) ∨
    ∃ rest, state.bridge.unread = .terminator :: rest ∧
      next = { state with
        bridge := { state.bridge with unread := rest, terminated := true } }) := by
  unfold State.read at h
  split at h
  · next items hworker =>
    refine ⟨⟨items, hworker⟩, ?_⟩
    rcases state.bridge.pop_cases (.patient none) with
      ⟨_, hpop⟩ | ⟨hfired, _⟩ | ⟨_, hpop⟩ | ⟨v, rest, hunread, hpop⟩ | ⟨rest, hunread, hpop⟩
    · rw [hpop] at h
      exact .inl (Option.some.inj h).symm
    · cases hfired
    · rw [hpop] at h
      cases h
    · rw [hpop] at h
      exact .inr (.inl ⟨v, rest, hunread, (Option.some.inj h).symm⟩)
    · rw [hpop] at h
      exact .inr (.inr ⟨rest, hunread, (Option.some.inj h).symm⟩)
  · cases h

/-- The node reads in order what is in the bridge. -/
theorem heard_append_of_read (hbridge : state.bridge.WellFormed) (h : state.read = some next) :
    next.bridge.WellFormed ∧ next.heard ++ next.bridge.values = state.heard ++ state.bridge.values ∧
      ∃ bridge heard, next = { state with bridge := bridge, heard := heard } ∧
        bridge.inputClosed = state.bridge.inputClosed := by
  rcases (read_cases h).2 with rfl | ⟨v, rest, hunread, rfl⟩ | ⟨rest, hunread, rfl⟩
  · exact ⟨hbridge, rfl, _, _, rfl, rfl⟩
  · obtain ⟨hwell, hvalues⟩ := hbridge.drop [v] hunread
    refine ⟨hwell, ?_, _, _, rfl, rfl⟩
    rw [hvalues, ← List.append_assoc]
    rfl
  · obtain ⟨hwell, hvalues, rfl⟩ := hbridge.dropAll [] hunread
    refine ⟨hwell, ?_, _, _, rfl, rfl⟩
    rw [hvalues]
    rfl

theorem invariant_read (h : Invariant generated values state) (hread : state.read = some next) :
    Invariant generated values next := by
  obtain ⟨⟨items, hworker⟩, _⟩ := read_cases hread
  obtain ⟨hwell, hvalues, bridge, heard, rfl, hclosed⟩ := heard_append_of_read h.bridge hread
  have hunfinished : state.worker.isFinished ≠ true := by simp [hworker, Worker.isFinished]
  have hsettled : ∀ pending, Settled values state pending →
      Settled values { state with bridge, heard } pending :=
    fun pending hsettled => hsettled.of_eq hvalues fun hfinished => absurd hfinished hunfinished
  have hphase := h.phase
  refine ⟨hwell, ?_⟩
  change Phase _ _ _ state.caller
  cases hcaller : state.caller with
  | looking | taking =>
    obtain ⟨hdriven, hopen, rest, hinput, hmoved, hfirst⟩ := hcaller ▸ hphase
    exact ⟨hdriven, hclosed.trans hopen, rest, hinput, hvalues ▸ hmoved, hfirst⟩
  | closing pending | joining pending =>
    obtain ⟨hdriven, hopen, hpending⟩ := hcaller ▸ hphase
    exact ⟨hdriven, hclosed.trans hopen, hsettled pending hpending⟩
  | done => exact absurd (hcaller ▸ hphase).1 hunfinished

theorem turn_driving {ending : Ending} {items : List Item} {vs : List Value} {worker : Worker}
    (h : (Worker.driving items).turn ending = some (vs, worker)) :
    (∃ rest, worker = .driving rest ∧ Stream.raises vs = false ∧
      Generated.values ⟨items, ending⟩ = vs ++ Generated.values ⟨rest, ending⟩) ∨
    worker = .returned (Stream.raises vs) ∧ Generated.values ⟨items, ending⟩ = vs := by
  cases items with
  | nil =>
    cases ending with
    | finished =>
      cases h
      exact .inr ⟨rfl, rfl⟩
    | brokenDown message =>
      cases h
      cases message <;> exact .inr ⟨rfl, rfl⟩
  | cons item items =>
    cases item with
    | value v =>
      have hraises : Stream.raises [v] = v.isException := Bool.or_false _
      cases h
      cases hv : v.isException with
      | true =>
        rw [if_pos rfl, Generated.values_exception hv, hraises, hv]
        exact .inr ⟨rfl, rfl⟩
      | false =>
        rw [if_neg Bool.false_ne_true, Generated.values_plain hv]
        exact .inl ⟨items, rfl, hraises.trans hv, rfl⟩
    | fault e =>
      rw [Worker.turn] at h
      split at h
      · next he =>
        cases h
        exact .inr ⟨rfl, Generated.values_cancelled he items ending⟩
      · next he =>
        cases h
        exact .inr ⟨rfl, Generated.values_fault (Bool.not_eq_true _ ▸ he) items ending⟩

theorem drive_cases (h : Driven generated state)
    (hdrive : state.drive generated.ending = some next) :
    state.worker.isFinished = false ∧
    (∃ output worker, next = { state with output := output, worker := worker }) ∧
      Driven generated next := by
  obtain ⟨⟨vs, worker⟩, hturn, rfl⟩ := Option.map_eq_some_iff.mp hdrive
  unfold Driven at h
  cases hworker : state.worker with
  | finished raised =>
    rw [hworker] at hturn
    cases hturn
  | returned raised =>
    rw [hworker] at h hturn
    cases hturn
    exact ⟨rfl, ⟨_, _, rfl⟩, h⟩
  | driving items =>
    rw [hworker] at h hturn
    obtain ⟨before, hbefore, houtput, hvalues⟩ := h
    have hnext : vs.foldl Queue.emit state.output = Queue.empty.put (before ++ vs) := by
      rw [houtput, foldl_emit_put]
    refine ⟨rfl, ⟨_, _, rfl⟩, ?_⟩
    rcases turn_driving hturn with ⟨rest, rfl, hvs, hrest⟩ | ⟨rfl, hrest⟩
    · rw [hrest, ← List.append_assoc] at hvalues
      exact ⟨before ++ vs, by rw [Stream.raises_append, hbefore, hvs]; rfl, hnext, hvalues⟩
    · rw [hrest] at hvalues
      refine ⟨hnext.trans (congrArg _ hvalues.symm), ?_⟩
      rw [hvalues, Stream.raises_append, hbefore, Bool.false_or]

theorem invariant_drive (h : Invariant generated values state)
    (hdrive : state.drive generated.ending = some next) :
    Invariant generated values next := by
  have hphase := h.phase
  cases hcaller : state.caller with
  | looking | taking =>
    obtain ⟨hdriven, hopen, hmoved⟩ := hcaller ▸ hphase
    obtain ⟨_, ⟨output, worker, rfl⟩, hnext⟩ := drive_cases hdriven hdrive
    refine ⟨h.bridge, ?_⟩
    change Phase _ _ _ state.caller
    rw [hcaller]
    exact ⟨hnext, hopen, hmoved⟩
  | closing pending | joining pending =>
    obtain ⟨hdriven, hopen, hsettled⟩ := hcaller ▸ hphase
    obtain ⟨hworking, ⟨output, worker, rfl⟩, hnext⟩ := drive_cases hdriven hdrive
    refine ⟨h.bridge, ?_⟩
    change Phase _ _ _ state.caller
    rw [hcaller]
    exact ⟨hnext, hopen, hsettled.of_eq rfl fun hfinished =>
      absurd (hworking ▸ hfinished) Bool.false_ne_true⟩
  | done =>
    have hfinished := (hcaller ▸ hphase).1
    obtain ⟨_, hturn, _⟩ := Option.map_eq_some_iff.mp hdrive
    cases hworker : state.worker with
    | finished raised =>
      rw [hworker] at hturn
      cases hturn
    | driving items | returned raised =>
      rw [hworker] at hfinished
      cases hfinished

theorem invariant_of_steps
    (hrun : Relation.ReflTransGen (Step generated.ending) (start values generated.items) state) :
    Invariant generated values state := by
  induction hrun with
  | refl => exact invariant_start generated values
  | tail _ hstep ih =>
    cases hstep with
    | call h => exact invariant_call ih h
    | read h => exact invariant_read ih h
    | drive h => exact invariant_drive ih h

/-! ### No party waits for ever -/

def Caller.size (entries : Nat) : Caller → Nat
  | .looking => 3 * entries + 5
  | .taking => 3 * entries + 4
  | .closing _ => 3
  | .joining _ => 1
  | .done => 0

def Worker.size : Worker → Nat
  | .driving items => items.length + 2
  | .returned _ => 1
  | .finished _ => 0

/-- A bound on the steps that are left. An entry of the input may have to be looked for, moved and
read. -/
def State.size (state : State) : Nat :=
  state.caller.size state.input.unread.length + state.worker.size + state.bridge.unread.length

/-- In a bridge that is closed the node finds a value or the end. -/
theorem exists_read (hbridge : state.bridge.WellFormed) (hclosed : state.bridge.inputClosed = true)
    {items : List Item} (hworker : state.worker = .driving items) :
    ∃ next, state.read = some next := by
  unfold State.read
  rw [hworker]
  rcases state.bridge.pop_cases (.patient none) with
    ⟨_, hpop⟩ | ⟨hfired, _⟩ | ⟨hunread, hpop⟩ | ⟨v, rest, _, hpop⟩ | ⟨rest, _, hpop⟩
  · exact ⟨_, by rw [hpop]⟩
  · cases hfired
  · cases hterminated : state.bridge.terminated with
    | true => exact ⟨_, by rw [Queue.pop, if_pos hterminated]⟩
    | false =>
      have hend := hbridge.unread
      rw [hunread, hclosed, hterminated] at hend
      simp at hend
  · exact ⟨_, by rw [hpop]⟩
  · exact ⟨_, by rw [hpop]⟩

theorem exists_drive {ending : Ending} (h : state.worker.isFinished = false) :
    ∃ next, state.drive ending = some next := by
  have hturn : ∃ turned, state.worker.turn ending = some turned := by
    cases hworker : state.worker with
    | finished raised =>
      rw [hworker] at h
      cases h
    | returned raised => exact ⟨_, rfl⟩
    | driving items =>
      cases items with
      | nil => cases ending <;> exact ⟨_, rfl⟩
      | cons item items =>
        cases item with
        | value v => exact ⟨_, rfl⟩
        | fault e =>
          rw [Worker.turn]
          split <;> exact ⟨_, rfl⟩
  obtain ⟨turned, hturn⟩ := hturn
  exact ⟨_, by rw [State.drive, hturn, Option.map_some]⟩

/-- The caller goes on, or it waits for the worker, which goes on whatever the node wants to do. -/
theorem exists_step (h : Invariant generated values state) (hcaller : state.caller ≠ .done) :
    (∃ next, state.call = some next) ∨
      (∃ next, state.drive generated.ending = some next) ∧
        ∀ items, state.worker = .driving items → ∃ next, state.read = some next := by
  have hphase := h.phase
  unfold State.call
  cases hat : state.caller with
  | looking => exact .inl ⟨_, rfl⟩
  | taking =>
    obtain ⟨_, _, rest, hinput, _⟩ := hat ▸ hphase
    rw [hinput]
    cases rest with
    | nil => exact .inl ⟨_, rfl⟩
    | cons v rest =>
      left
      cases hv : v.isException <;> exact ⟨_, by simp [Queue.pop, Queue.ofValues, hv]; rfl⟩
  | closing pending => exact .inl ⟨_, rfl⟩
  | joining pending =>
    obtain ⟨_, hclosed, _⟩ := hat ▸ hphase
    cases hworker : state.worker with
    | finished raised => exact .inl ⟨_, rfl⟩
    | driving items | returned raised =>
      right
      rw [← hworker]
      exact ⟨exists_drive (by rw [hworker]; rfl), fun items hitems =>
        exists_read h.bridge hclosed hitems⟩
  | done => exact absurd hat hcaller

/-! ### What comes of it -/

end Bridging
end QueryShell
