import QueryShell.Proofs.Lazy.Basic

/-! Calls on a sequence, one step at a time. A call looks into the store and reads one value after
the other until it can answer; what others do between two of its steps can only add to the store. -/

namespace QueryShell

def Reading.map {α β : Type} (f : α → β) : Reading α → Reading β
  | .value v => .value (f v)
  | .ended => .ended
  | .waiting => .waiting
  | .failed e => .failed e

namespace Lazy

variable {α : Type}

/-- What can be asked of a sequence. -/
inductive Query where
  | get (index : Nat)
  | isEmpty
  | available
  | length
  | items
  | materialize
  deriving DecidableEq

inductive Answer (α : Type) where
  | item (found : Option α)
  | flag (b : Bool)
  | count (n : Nat)
  | sequence (vs : List α)

namespace Query

/-- The answer for a list that holds all there is. -/
def onList (vs : List α) : Query → Answer α
  | get index => .item vs[index]?
  | isEmpty => .flag vs.isEmpty
  | available => .count vs.length
  | length => .count vs.length
  | items => .sequence vs
  | materialize => .sequence vs

/-- How many items settle the answer, unless it takes all of them. -/
def needs : Query → Option Nat
  | get index => some (index + 1)
  | isEmpty => some 1
  | available => some 0
  | _ => none

def isSettled (query : Query) (stored : Nat) : Bool :=
  match query.needs with
  | some n => n ≤ stored
  | none => false

/-- How a whole call on the sequence goes. -/
def ask (query : Query) (lazy : Lazy α) (fuse : Fuse) : Reading (Answer α) × Lazy α :=
  match query with
  | get index =>
    match lazy.get fuse index with
    | (.value v, next) => (.value (.item (some v)), next)
    | (.ended, next) => (.value (.item none), next)
    | (.waiting, next) => (.waiting, next)
    | (.failed e, next) => (.failed e, next)
  | isEmpty =>
    let (reading, next) := lazy.isEmpty fuse
    (reading.map .flag, next)
  | available => (.value (.count lazy.available), lazy)
  | length =>
    let (reading, next) := lazy.length fuse
    (reading.map .count, next)
  | items =>
    let (vs, next) := lazy.items fuse
    (.value (.sequence vs), next)
  | materialize =>
    let (reading, next) := lazy.materialize fuse
    (reading.map .sequence, next)

end Query

inductive Phase (α : Type) where
  /-- About to look into the store. -/
  | looking
  /-- About to read a value, or waiting for one. -/
  | popping
  /-- About to look into the store once more, because the end has been read. -/
  | ending
  | answered (answer : Answer α)

/-- A call that has begun. -/
structure Call (α : Type) where
  store : Nat
  query : Query
  phase : Phase α
  /-- How many items the store held in the beginning. -/
  stored : Nat
  /-- How many values the call has read. -/
  popped : Nat

namespace Call

/-- One step of a call, as long as the token of the queue does not fire. No other step comes in
between while a value goes from the queue into the store. -/
def step (call : Call α) (lazy : Lazy α) : Call α × Lazy α :=
  match call.phase with
  | .looking =>
    if call.query.isSettled lazy.store.length then
      ({ call with phase := .answered (call.query.onList lazy.store) }, lazy)
    else ({ call with phase := .popping }, lazy)
  | .popping =>
    match lazy.fetch none 1 with
    | (.found, next) => ({ call with phase := .looking, popped := call.popped + 1 }, next)
    | (.ended, next) => ({ call with phase := .ending }, next)
    | (_, next) => (call, next)
  | .ending => ({ call with phase := .answered (call.query.onList lazy.store) }, lazy)
  | .answered _ => (call, lazy)

end Call

/-! ### Answers and stores -/

theorem Query.isSettled_iff {query : Query} {stored : Nat} :
    query.isSettled stored = true ↔ ∃ n, query.needs = some n ∧ n ≤ stored := by
  unfold isSettled
  cases query.needs <;> simp

theorem Query.isSettled_mono {query : Query} {m n : Nat} (h : query.isSettled m = true)
    (hmn : m ≤ n) :
    query.isSettled n = true := by
  obtain ⟨needed, hneeds, hle⟩ := isSettled_iff.mp h
  exact isSettled_iff.mpr ⟨needed, hneeds, Nat.le_trans hle hmn⟩

/-- An answer that is settled by the first items is the same for more items. Only the number of
items that there are is not. -/
theorem Query.onList_eq_of_isSettled {query : Query} {vs ws : List α} (hquery : query ≠ .available)
    (hsettled : query.isSettled vs.length = true) (hle : vs <+: ws) :
    query.onList vs = query.onList ws := by
  obtain ⟨added, rfl⟩ := hle
  cases query with
  | get index =>
    have hindex : index < vs.length := of_decide_eq_true hsettled
    rw [onList, onList, List.getElem?_append_left hindex]
  | isEmpty =>
    cases vs with
    | nil => cases hsettled
    | cons v vs => rfl
  | available => exact absurd rfl hquery
  | length | items | materialize => cases hsettled

/-- What can become of a sequence, whatever reads it: items are added to the store, but none behind
the end. -/
structure Grows (lazy next : Lazy α) : Prop where
  store : lazy.store <+: next.store
  final : lazy.queue.terminated = true → next.queue.terminated = true ∧ next.store = lazy.store

theorem Grows.refl (lazy : Lazy α) : lazy.Grows lazy := ⟨List.prefix_rfl, fun h => ⟨h, rfl⟩⟩

theorem Grows.trans {first second third : Lazy α} (h : first.Grows second)
    (h' : second.Grows third) :
    first.Grows third where
  store := h.store.trans h'.store
  final hend := by
    obtain ⟨hsecond, hstore⟩ := h.final hend
    obtain ⟨hthird, hstore'⟩ := h'.final hsecond
    exact ⟨hthird, hstore'.trans hstore⟩

/-- An answer is right for what is in the store, and stays so. -/
def Query.Holds (query : Query) (answer : Answer α) (lazy : Lazy α) : Prop :=
  if query = .available then ∃ n ≤ lazy.store.length, answer = .count n
  else answer = query.onList lazy.store ∧
    (query.isSettled lazy.store.length = true ∨ lazy.queue.terminated = true)

theorem Query.Holds.grow {query : Query} {answer : Answer α} {lazy next : Lazy α}
    (h : query.Holds answer lazy) (hgrows : lazy.Grows next) : query.Holds answer next := by
  have hlength := hgrows.store.length_le
  unfold Holds at h ⊢
  by_cases hquery : query = .available
  · rw [if_pos hquery] at h ⊢
    obtain ⟨n, hn, hanswer⟩ := h
    exact ⟨n, Nat.le_trans hn hlength, hanswer⟩
  · rw [if_neg hquery] at h ⊢
    obtain ⟨hanswer, hsettled | hend⟩ := h
    · exact ⟨hanswer.trans (onList_eq_of_isSettled hquery hsettled hgrows.store),
        .inl (isSettled_mono hsettled hlength)⟩
    · obtain ⟨hend', hstore⟩ := hgrows.final hend
      exact ⟨hstore ▸ hanswer, .inr hend'⟩

/-- Answers to the same question that are both right are the same. -/
theorem Query.Holds.unique {query : Query} {answer answer' : Answer α} {lazy : Lazy α}
    (hquery : query ≠ .available) (h : query.Holds answer lazy) (h' : query.Holds answer' lazy) :
    answer = answer' := by
  rw [Holds, if_neg hquery] at h h'
  exact h.1.trans h'.1.symm

theorem Query.holds_onList {query : Query} {lazy : Lazy α}
    (h : query.isSettled lazy.store.length = true ∨ lazy.queue.terminated = true) :
    query.Holds (query.onList lazy.store) lazy := by
  unfold Holds
  split
  · next hquery => exact ⟨lazy.store.length, Nat.le_refl _, hquery ▸ rfl⟩
  · exact ⟨rfl, h⟩

/-! ### What a step does -/

/-- Values have gone from the queue into the store. -/
structure Moves (lazy next : Lazy α) (moved : List α) : Prop where
  store : next.store = lazy.store ++ moved
  values : lazy.queue.values = moved ++ next.queue.values
  wellFormed : next.queue.WellFormed
  closed : next.queue.inputClosed = lazy.queue.inputClosed
  terminated : lazy.queue.terminated = true → next.queue.terminated = true

theorem Moves.none {lazy : Lazy α} (h : lazy.queue.WellFormed) : lazy.Moves lazy [] :=
  ⟨(List.append_nil _).symm, rfl, h, rfl, id⟩

theorem Moves.grows {lazy next : Lazy α} {moved : List α} (h : lazy.Moves next moved)
    (hwell : lazy.queue.WellFormed) :
    lazy.Grows next where
  store := ⟨moved, h.store.symm⟩
  final hend := by
    have hvalues := h.values
    rw [(hwell.terminated hend).2, List.nil_eq, List.append_eq_nil_iff] at hvalues
    exact ⟨h.terminated hend, by rw [h.store, hvalues.1, List.append_nil]⟩

/-- How many steps a call takes at most while so many values are in the queue. -/
def Phase.remaining (queued : Nat) : Phase α → Nat
  | .looking => 2 * queued + 3
  | .popping => 2 * queued + 2
  | .ending => 1
  | .answered _ => 0

theorem Phase.remaining_le (phase : Phase α) (queued : Nat) :
    phase.remaining queued ≤ 2 * queued + 3 := by
  cases phase <;> simp only [remaining] <;> omega

theorem Phase.answered_of_remaining {phase : Phase α} {queued : Nat}
    (h : phase.remaining queued ≤ 0) :
    ∃ answer, phase = .answered answer := by
  cases phase with
  | answered answer => exact ⟨answer, rfl⟩
  | looking | popping | ending =>
    simp only [remaining] at h
    omega

theorem Phase.remaining_mono (phase : Phase α) {m n : Nat} (h : m ≤ n) :
    phase.remaining m ≤ phase.remaining n := by
  cases phase with
  | looking | popping =>
    simp only [remaining]
    omega
  | ending | answered _ => exact Nat.le_refl _

namespace Call

/-- The steps of a call, by its phase and by what it comes upon. -/
inductive Steps (call : Call α) (lazy : Lazy α) : Call α × Lazy α → Prop where
  | settled (hphase : call.phase = .looking)
    (hsettled : call.query.isSettled lazy.store.length = true) :
    Steps call lazy ({ call with phase := .answered (call.query.onList lazy.store) }, lazy)
  | unsettled (hphase : call.phase = .looking)
    (hsettled : call.query.isSettled lazy.store.length = false) :
    Steps call lazy ({ call with phase := .popping }, lazy)
  | pops (hphase : call.phase = .popping) (v : α) {left : Queue α}
    (hmoves : lazy.Moves ⟨lazy.store ++ [v], left⟩ [v]) :
    Steps call lazy ({ call with phase := .looking, popped := call.popped + 1 },
      ⟨lazy.store ++ [v], left⟩)
  | ends (hphase : call.phase = .popping) {left : Queue α} (hend : left.terminated = true)
    (hmoves : lazy.Moves ⟨lazy.store, left⟩ []) :
    Steps call lazy ({ call with phase := .ending }, ⟨lazy.store, left⟩)
  | waits (hphase : call.phase = .popping) (hopen : lazy.queue.inputClosed = false)
    (hvalues : lazy.queue.values = []) :
    Steps call lazy (call, lazy)
  | answers (hphase : call.phase = .ending) :
    Steps call lazy ({ call with phase := .answered (call.query.onList lazy.store) }, lazy)
  | stands (answer : Answer α) (hphase : call.phase = .answered answer) :
    Steps call lazy (call, lazy)

theorem step_settled {call : Call α} {lazy : Lazy α} (hphase : call.phase = .looking)
    (hsettled : call.query.isSettled lazy.store.length = true) :
    call.step lazy = ({ call with phase := .answered (call.query.onList lazy.store) }, lazy) := by
  rw [step, hphase]
  exact if_pos hsettled

theorem step_unsettled {call : Call α} {lazy : Lazy α} (hphase : call.phase = .looking)
    (hsettled : call.query.isSettled lazy.store.length = false) :
    call.step lazy = ({ call with phase := .popping }, lazy) := by
  rw [step, hphase]
  exact if_neg (by rw [hsettled]; exact Bool.false_ne_true)

theorem step_popping (call : Call α) (lazy : Lazy α) (hphase : call.phase = .popping) :
    call.step lazy = match lazy.queue.pop (.patient none) with
    | (.value v, left) =>
      ({ call with phase := .looking, popped := call.popped + 1 }, ⟨lazy.store ++ [v], left⟩)
    | (.ended, left) => ({ call with phase := .ending }, ⟨lazy.store, left⟩)
    | (_, left) => (call, ⟨lazy.store, left⟩) := by
  rw [step, hphase]
  simp only [fetch]
  rcases lazy.queue.pop (.patient none) with ⟨_ | _ | _ | _, left⟩ <;> rfl

theorem steps (call : Call α) (lazy : Lazy α) (h : lazy.queue.WellFormed) :
    call.Steps lazy (call.step lazy) := by
  rcases hphase : call.phase with _ | _ | _ | answer
  · cases hsettled : call.query.isSettled lazy.store.length with
    | true =>
      rw [step_settled hphase hsettled]
      exact .settled hphase hsettled
    | false =>
      rw [step_unsettled hphase hsettled]
      exact .unsettled hphase hsettled
  · have hpops := h.pops
    rw [step_popping call lazy hphase]
    generalize lazy.queue.pop (.patient none) = popped at hpops
    cases hpops with
    | @value v left hwell hclosed hvalues =>
      refine .pops hphase v ⟨rfl, hvalues, hwell, hclosed, fun hend => ?_⟩
      rw [(h.terminated hend).2] at hvalues
      cases hvalues
    | @ended left hwell hclosed hterminated hvalues =>
      refine .ends hphase hterminated ⟨(List.append_nil _).symm, ?_, hwell, ?_,
        fun _ => hterminated⟩
      · rw [hvalues, (hwell.terminated hterminated).2, List.append_nil]
      · rw [hclosed, (hwell.terminated hterminated).1]
    | waiting hopen hvalues => exact .waits hphase hopen hvalues
  · rw [step, hphase]
    exact .answers hphase
  · rw [step, hphase]
    exact .stands answer hphase

variable {call : Call α} {lazy : Lazy α} {result : Call α × Lazy α}

/-- A step moves one value at most, and counts it. -/
theorem Steps.moves (hsteps : call.Steps lazy result) (h : lazy.queue.WellFormed) :
    ∃ moved, lazy.Moves result.2 moved ∧ result.1.popped = call.popped + moved.length := by
  cases hsteps with
  | pops _ v hmoves => exact ⟨[v], hmoves, rfl⟩
  | ends _ _ hmoves => exact ⟨[], hmoves, rfl⟩
  | _ => exact ⟨[], .none h, rfl⟩

/-- A call keeps to its store and to what was asked, and its answer is the last of it. -/
structure Continues (call next : Call α) : Prop where
  store : next.store = call.store
  query : next.query = call.query
  answered : ∀ answer, call.phase = .answered answer → next = call

theorem Continues.refl (call : Call α) : call.Continues call := ⟨rfl, rfl, fun _ _ => rfl⟩

theorem Continues.trans {first second third : Call α} (h : first.Continues second)
    (h' : second.Continues third) :
    first.Continues third where
  store := h'.store.trans h.store
  query := h'.query.trans h.query
  answered answer hphase := by
    obtain rfl := h.answered answer hphase
    exact h'.answered answer hphase

theorem Steps.continues (hsteps : call.Steps lazy result) : call.Continues result.1 := by
  cases hsteps with
  | waits _ _ _ | stands _ _ => exact .refl call
  | settled hphase _ | unsettled hphase _ | pops hphase _ _ | ends hphase _ _ | answers hphase =>
    exact ⟨rfl, rfl, fun answer hanswered => by rw [hphase] at hanswered; cases hanswered⟩

/-- A step brings a call nearer to its answer, unless it waits. -/
theorem Steps.remaining (hsteps : call.Steps lazy result) :
    lazy.queue.inputClosed = false ∧ lazy.queue.values = [] ∨
      result.1.phase.remaining result.2.queue.values.length ≤
        call.phase.remaining lazy.queue.values.length - 1 := by
  cases hsteps with
  | settled hphase hsettled => exact .inr (Nat.zero_le _)
  | unsettled hphase hsettled =>
    rw [hphase]
    exact .inr (Nat.le_refl _)
  | @pops hphase v left hmoves =>
    rw [hphase, hmoves.values]
    simp only [Phase.remaining, List.length_append, List.length_singleton]
    omega
  | @ends hphase left hend hmoves =>
    rw [hphase]
    simp only [Phase.remaining]
    omega
  | waits hphase hopen hvalues => exact .inl ⟨hopen, hvalues⟩
  | answers hphase => exact .inr (Nat.zero_le _)
  | stands answer hphase =>
    rw [hphase]
    exact .inr (Nat.zero_le _)

/-- What is known of a call while it runs. It reads no more values than were missing in the
beginning. -/
structure Sound (call : Call α) (lazy : Lazy α) : Prop where
  read : call.stored + call.popped ≤ lazy.store.length
  frugal : ∀ n, call.query.needs = some n → call.popped ≤ n - call.stored
  wanting : call.phase = .popping → ∀ n, call.query.needs = some n → call.popped < n - call.stored
  ending : call.phase = .ending → lazy.queue.terminated = true
  answered : ∀ answer, call.phase = .answered answer → call.query.Holds answer lazy

theorem sound_begun (store : Nat) (query : Query) (lazy : Lazy α) :
    Sound ⟨store, query, .looking, lazy.store.length, 0⟩ lazy where
  read := Nat.le_refl _
  frugal _ _ := Nat.zero_le _
  wanting := nofun
  ending := nofun
  answered := nofun

theorem Sound.grow {next : Lazy α} (h : call.Sound lazy) (hgrows : lazy.Grows next) :
    call.Sound next where
  read := Nat.le_trans h.read hgrows.store.length_le
  frugal := h.frugal
  wanting := h.wanting
  ending hphase := (hgrows.final (h.ending hphase)).1
  answered answer hphase := (h.answered answer hphase).grow hgrows

theorem Sound.step (h : call.Sound lazy) (hsteps : call.Steps lazy result) :
    result.1.Sound result.2 := by
  cases hsteps with
  | settled hphase hsettled =>
    refine ⟨h.read, h.frugal, nofun, nofun, ?_⟩
    rintro _ ⟨⟩
    exact Query.holds_onList (.inl hsettled)
  | unsettled hphase hsettled =>
    refine ⟨h.read, h.frugal, fun _ n hneeds => ?_, nofun, nofun⟩
    have hread := h.read
    simp only [Query.isSettled, hneeds, decide_eq_false_iff_not] at hsettled
    change call.popped < n - call.stored
    omega
  | @pops hphase v left hmoves =>
    refine ⟨?_, fun n hneeds => h.wanting hphase n hneeds, nofun, nofun, nofun⟩
    have hread := h.read
    simp only [List.length_append, List.length_singleton]
    omega
  | @ends hphase left hend hmoves => exact ⟨h.read, h.frugal, nofun, fun _ => hend, nofun⟩
  | waits _ _ _ => exact h
  | answers hphase =>
    refine ⟨h.read, h.frugal, nofun, nofun, ?_⟩
    rintro _ ⟨⟩
    exact Query.holds_onList (.inr (h.ending hphase))
  | stands _ _ => exact h

end Call

/-! ### Calls that nothing comes in between -/

namespace Query

variable {query : Query} {lazy : Lazy α}

/-- The values that a call reads of those that are there. -/
def reads (query : Query) (stored : Nat) (values : List α) : List α :=
  match query.needs with
  | some n => values.take (n - stored)
  | none => values

/-- What a call does before it answers. -/
def gather (query : Query) (lazy : Lazy α) : Halt × Lazy α :=
  match query.needs with
  | some n => lazy.fetch none (n - lazy.store.length)
  | none => lazy.fetchAll none

theorem gather_of_isSettled (h : query.isSettled lazy.store.length = true) :
    query.gather lazy = (.found, lazy) := by
  obtain ⟨n, hneeds, hle⟩ := isSettled_iff.mp h
  rw [gather, hneeds]
  simp only [Nat.sub_eq_zero_of_le hle]
  rfl

/-- A call that is not settled reads one value and goes on, until there is none. -/
theorem gather_of_not_isSettled (h : query.isSettled lazy.store.length = false) :
    query.gather lazy = match lazy.queue.pop (.patient none) with
    | (.value v, left) => query.gather ⟨lazy.store ++ [v], left⟩
    | (.ended, left) => (.ended, { lazy with queue := left })
    | (.waiting, left) => (.waiting, { lazy with queue := left })
    | (.failed e, left) => (.failed e, { lazy with queue := left }) := by
  rw [isSettled] at h
  simp only [gather]
  cases hneeds : query.needs with
  | none => exact fetchAll_eq lazy none
  | some n =>
    have hlt : lazy.store.length < n := by simpa [hneeds] using h
    obtain ⟨more, hmore⟩ : ∃ more, n - lazy.store.length = more + 1 :=
      ⟨n - lazy.store.length - 1, by omega⟩
    have hrest : ∀ v : α, n - (lazy.store ++ [v]).length = more := fun v => by
      rw [List.length_append, List.length_singleton]
      omega
    simp only [hmore, hrest]
    rfl

theorem snd_ask (query : Query) (lazy : Lazy α) :
    (query.ask lazy none).2 = (query.gather lazy).2 := by
  cases query with
  | get index =>
    simp only [ask, Lazy.get, gather, needs]
    rcases lazy.fetch none (index + 1 - lazy.store.length) with ⟨halt, next⟩
    cases next.store[index]? <;> cases halt <;> rfl
  | isEmpty =>
    simp only [ask, Lazy.isEmpty, Lazy.get, gather, needs]
    rcases lazy.fetch none (0 + 1 - lazy.store.length) with ⟨halt, next⟩
    cases next.store[0]? <;> cases halt <;> rfl
  | available =>
    simp only [gather, needs, Nat.zero_sub]
    rfl
  | length =>
    simp only [ask, Lazy.length, whole, gather, needs]
    rcases lazy.fetchAll none with ⟨halt, next⟩
    cases halt <;> rfl
  | items => rfl
  | materialize =>
    simp only [ask, Lazy.materialize, whole, gather, needs]
    rcases lazy.fetchAll none with ⟨halt, next⟩
    cases halt <;> rfl

theorem fst_ask {halt : Halt} {next : Lazy α} (h : query.gather lazy = (halt, next))
    (hhalt : halt.isRegular = true) :
    (query.ask lazy none).1 = .value (query.onList next.store) := by
  cases query with
  | get index =>
    simp only [gather, needs] at h
    simp only [ask, Lazy.get, h]
    cases hfound : next.store[index]? <;> cases halt <;> simp_all [onList, Halt.isRegular]
  | isEmpty =>
    simp only [gather, needs] at h
    simp only [ask, Lazy.isEmpty, Lazy.get, h]
    cases hstore : next.store <;> cases halt <;> simp_all [onList, Halt.isRegular, Reading.map]
  | available =>
    simp only [gather, needs, Nat.zero_sub] at h
    cases h
    rfl
  | length =>
    simp only [gather, needs] at h
    simp only [ask, Lazy.length, whole, h]
    cases halt <;> first | rfl | cases hhalt
  | items =>
    simp only [gather, needs] at h
    simp only [ask, Lazy.items, h]
    rfl
  | materialize =>
    simp only [gather, needs] at h
    simp only [ask, Lazy.materialize, whole, h]
    cases halt <;> first | rfl | cases hhalt

theorem reads_of_isSettled {stored : Nat} (h : query.isSettled stored = true) (values : List α) :
    query.reads stored values = [] := by
  obtain ⟨n, hneeds, hle⟩ := isSettled_iff.mp h
  rw [reads, hneeds]
  simp only [Nat.sub_eq_zero_of_le hle, List.take_zero]

theorem reads_of_not_isSettled {stored : Nat} (h : query.isSettled stored = false) (v : α)
    (values : List α) :
    query.reads stored (v :: values) = v :: query.reads (stored + 1) values := by
  rw [isSettled] at h
  simp only [reads]
  cases hneeds : query.needs with
  | none => rfl
  | some n =>
    have hlt : stored < n := by simpa [hneeds] using h
    have hmore : n - stored = n - (stored + 1) + 1 := by omega
    simp only [hmore, List.take_succ_cons]

theorem reads_nil (query : Query) (stored : Nat) : query.reads stored ([] : List α) = [] := by
  unfold reads
  cases query.needs <;> simp

end Query

namespace Call

/-- So many steps in a row. -/
def run (call : Call α) (lazy : Lazy α) : Nat → Call α × Lazy α
  | 0 => (call, lazy)
  | count + 1 =>
    let (next, left) := call.step lazy
    run next left count

theorem run_succ (call : Call α) (lazy : Lazy α) (count : Nat) :
    call.run lazy (count + 1) = (call.step lazy).1.run (call.step lazy).2 count := rfl

/-- What a call has come to that nothing has come in between: it has answered, or it waits. -/
inductive ComesTo (call : Call α) (lazy : Lazy α) (next : Call α) (left : Lazy α) : Prop where
  | answers {halt : Halt} (hhalt : halt.isRegular = true)
    (hgather : call.query.gather lazy = (halt, left))
    (hphase : next.phase = .answered (call.query.onList left.store))
    (henough : call.query.isSettled (lazy.store ++ lazy.queue.values).length = true ∨
      lazy.queue.inputClosed = true)
  | waits (hgather : call.query.gather lazy = (.waiting, left)) (hphase : next.phase = .popping)
    (hunsettled : call.query.isSettled (lazy.store ++ lazy.queue.values).length = false)
    (hopen : lazy.queue.inputClosed = false)

theorem exists_run (call : Call α) (lazy : Lazy α) (h : lazy.queue.WellFormed)
    (hphase : call.phase = .looking) :
    ∃ count next left, call.run lazy count = (next, left) ∧
      left.store = lazy.store ++ call.query.reads lazy.store.length lazy.queue.values ∧
      call.ComesTo lazy next left := by
  cases hsettled : call.query.isSettled lazy.store.length with
  | true =>
    have hmore : lazy.store.length ≤ (lazy.store ++ lazy.queue.values).length := by
      rw [List.length_append]
      exact Nat.le_add_right _ _
    refine ⟨1, { call with phase := .answered (call.query.onList lazy.store) }, lazy,
      step_settled hphase hsettled, ?_,
      .answers rfl (Query.gather_of_isSettled hsettled) rfl
        (.inl (Query.isSettled_mono hsettled hmore))⟩
    rw [Query.reads_of_isSettled hsettled, List.append_nil]
  | false =>
    have hstep := step_popping { call with phase := .popping } lazy rfl
    have hgather := Query.gather_of_not_isSettled hsettled
    have hpops := h.pops
    generalize lazy.queue.pop (.patient none) = popped at hstep hgather hpops
    cases hpops with
    | @value v left hwell hclosed hvalues =>
      -- The call goes on as one that begins with this value in the store, and there is one value
      -- less in the queue.
      obtain ⟨count, next, last, hrun, hstore, hend⟩ :=
        exists_run { call with phase := .looking, popped := call.popped + 1 }
          ⟨lazy.store ++ [v], left⟩ hwell rfl
      have hall : lazy.store ++ lazy.queue.values = lazy.store ++ [v] ++ left.values := by
        rw [hvalues, List.append_assoc, List.singleton_append]
      refine ⟨count + 2, next, last, ?_, ?_, ?_⟩
      · rw [run_succ, step_unsettled hphase hsettled, run_succ, hstep]
        exact hrun
      · rw [hvalues, Query.reads_of_not_isSettled hsettled, hstore, List.append_assoc,
          List.length_append]
        rfl
      · cases hend with
        | answers hhalt hrest hanswered henough =>
          exact .answers hhalt (hgather.trans hrest) hanswered (by rwa [hall, ← hclosed])
        | waits hrest hpopping hunsettled hopen =>
          exact .waits (hgather.trans hrest) hpopping (by rwa [hall]) (hclosed.symm.trans hopen)
    | @ended left hwell hclosed hterminated hvalues =>
      refine ⟨3, { call with phase := .answered (call.query.onList lazy.store) },
        ⟨lazy.store, left⟩, ?_, ?_, .answers rfl hgather rfl (.inr hclosed)⟩
      · rw [run_succ, step_unsettled hphase hsettled, run_succ, hstep]
        rfl
      · rw [hvalues, Query.reads_nil, List.append_nil]
    | waiting hopen hvalues =>
      refine ⟨2, { call with phase := .popping }, lazy, ?_, ?_, .waits hgather rfl ?_ hopen⟩
      · rw [run_succ, step_unsettled hphase hsettled, run_succ, hstep]
        rfl
      · rw [hvalues, Query.reads_nil, List.append_nil]
      · rwa [hvalues, List.append_nil]
termination_by lazy.queue.values.length
decreasing_by
  rw [hvalues]
  exact Nat.lt_succ_self _

/-- How the steps of a call end that nothing comes in between. The sequence is left as the whole
call leaves it, with what was needed of the values that were there read. If these are enough the
call has answered what the whole call answers, and otherwise it waits. -/
structure Ends (call : Call α) (lazy : Lazy α) (next : Call α) : Prop where
  store : (call.query.ask lazy none).2.store =
    lazy.store ++ call.query.reads lazy.store.length lazy.queue.values
  enough : call.query.isSettled (lazy.store ++ lazy.queue.values).length = true ∨
    lazy.queue.inputClosed = true →
    next.phase = .answered (call.query.onList (call.query.ask lazy none).2.store) ∧
      (call.query.ask lazy none).1 = .value (call.query.onList (call.query.ask lazy none).2.store)
  missing : call.query.isSettled (lazy.store ++ lazy.queue.values).length = false →
    lazy.queue.inputClosed = false →
    next.phase = .popping

theorem exists_run_eq_ask (call : Call α) (lazy : Lazy α) (h : lazy.queue.WellFormed)
    (hphase : call.phase = .looking) :
    ∃ count next, call.run lazy count = (next, (call.query.ask lazy none).2) ∧
    call.Ends lazy next := by
  obtain ⟨count, next, left, hrun, hstore, hend⟩ := call.exists_run lazy h hphase
  have hleft : (call.query.ask lazy none).2 = left := by
    rw [Query.snd_ask]
    cases hend with
    | answers _ hgather _ _ => rw [hgather]
    | waits hgather _ _ _ => rw [hgather]
  subst hleft
  refine ⟨count, next, hrun, hstore, fun henough => ?_, fun hunsettled hopen => ?_⟩
  · cases hend with
    | answers hhalt hgather hanswered _ => exact ⟨hanswered, Query.fst_ask hgather hhalt⟩
    | waits _ _ hunsettled hopen =>
      rw [hunsettled, hopen] at henough
      simp at henough
  · cases hend with
    | answers _ _ _ henough =>
      rw [hunsettled, hopen] at henough
      simp at henough
    | waits _ hpopping _ _ => exact hpopping

end Call

end Lazy
end QueryShell
