import Mathlib.Algebra.BigOperators.Group.Finset.Piecewise
import Mathlib.Algebra.Order.BigOperators.Group.Finset
import QueryShell.Proofs.Channel.Split

/-! What the copies of a queue deliver: together with what was read from the queue itself, exactly
the values that have reached it, in their order. When the queue has been closed, all that is left to
be forwarded is forwarded after finitely many steps, and every copy comes to its end. -/

namespace QueryShell

namespace Queue

variable {α : Type} {q left : Queue α} {vs : List α}

theorem takeThrough_values (vs : List α) (rest : List (Entry α)) :
    takeThrough (fun _ => false) none (vs.map .value ++ .terminator :: rest) =
      (vs, .ended, rest) := by
  induction vs with
  | nil => rfl
  | cons v vs ih => simp [takeThrough, ih]

theorem WellFormed.drain_of_closed (h : q.WellFormed) (hclosed : q.inputClosed = true) :
    ∃ left, q.drain none = (q.values, .ended, left) := by
  unfold drain readThrough
  cases hterminated : q.terminated with
  | true => exact ⟨q, by simp [(h.terminated hterminated).2]⟩
  | false =>
    have hunread : q.unread = q.values.map .value ++ [.terminator] := by
      simpa [hclosed, hterminated] using h.unread
    rw [hunread, takeThrough_values]
    exact ⟨_, rfl⟩

theorem WellFormed.closed_of_drain (h : q.WellFormed) {fuse : Fuse}
    (hdrain : q.drain fuse = (vs, .ended, left)) :
    vs = q.values ∧ q.inputClosed = true := by
  rcases q.readThrough_cases (fun _ => false) fuse with
    ⟨hterminated, hread⟩ | ⟨ws, rest, hunread, hread⟩ | ⟨ws, halt, rest, _, hhalt, _, _, hread⟩
  · have hsame := hdrain.symm.trans hread
    obtain ⟨hclosed, hempty⟩ := h.terminated hterminated
    cases hsame
    exact ⟨hempty.symm, hclosed⟩
  · have hsame := hdrain.symm.trans hread
    obtain ⟨hleft, hvalues, _⟩ := h.dropAll ws hunread
    cases hsame
    exact ⟨hvalues.symm, (hleft.terminated rfl).1⟩
  · have hsame := hdrain.symm.trans hread
    cases hsame
    exact absurd rfl hhalt

end Queue

namespace Network

variable {net next : Network} {record : Record}

/-- A queue delivers what was read from it and then what is read from it to its end, or, if it has
been split, what one of the copies of the first split delivers. -/
inductive Delivers (net : Network) (record : Record) : Nat → List Value → Prop where
  | directly {q : Nat} {vs : List Value} {left : Queue Value} (hwhole : record.splits q = [])
    (hdrain : (net.queue q).drain (net.fuse q) = (vs, .ended, left)) :
    Delivers net record q (record.taken q ++ vs)
  | through {q c : Nat} {cs : List Nat} {more : List (List Nat)} {vs : List Value}
    (hsplit : record.splits q = cs :: more) (hc : c ∈ cs) (h : Delivers net record c vs) :
    Delivers net record q (record.taken q ++ vs)

/-- What comes to its end at a copy has all been forwarded. -/
theorem reached_of_delivers (h : Tree net record) {q : Nat} {vs : List Value}
    (hdelivers : Delivers net record q vs) :
    vs = record.reached q ∧ (net.queue q).inputClosed = true := by
  induction hdelivers with
  | directly hwhole hdrain =>
    obtain ⟨hwell, hreached⟩ := h.content.whole hwhole
    obtain ⟨rfl, hclosed⟩ := hwell.closed_of_drain hdrain
    exact ⟨hreached.symm, hclosed⟩
  | @through q c cs more vs hsplit hc _ ih =>
    obtain ⟨rfl, hclosed⟩ := ih
    obtain ⟨hreached, hfed⟩ := h.content.fed hsplit hc
    have hidle : net.isForwarding q = false := by simpa [hclosed] using hfed
    obtain ⟨hclosedq, hempty⟩ := (h.content.detached hsplit).exhausted hidle
    rw [hempty, List.append_nil] at hreached
    exact ⟨hreached.symm, hclosedq⟩

/-! ### What has reached the first queue -/

/-- The values that are written before the queue is closed. -/
def written : List Action → List Value
  | [] => []
  | .push _ v :: history => v :: written history
  | .terminate _ :: _ => []
  | _ :: history => written history

def pushed : Action → List Value
  | .push _ v => [v]
  | _ => []

def closing : Action → Bool
  | .terminate _ => true
  | _ => false

theorem written_cons (action : Action) (history : List Action) :
    written (action :: history) =
      pushed action ++ if closing action then [] else written history := by
  cases action <;> rfl

/-- Nothing but writing puts anything into the first queue or closes it. -/
theorem root_kept (h : Tree net record) {action : Action} (hpermits : net.Permits action)
    (hpushed : pushed action = []) (hcloses : closing action = false) :
    ((net.perform action).2.queue 0).inputClosed = (net.queue 0).inputClosed ∧
    net.added action 0 = [] := by
  have hsame : (net.perform action).2.queue 0 = net.queue 0 →
      ((net.perform action).2.queue 0).inputClosed = (net.queue 0).inputClosed ∧
      net.added action 0 = [] :=
    fun heq => ⟨by rw [heq], added_of_queue_eq heq⟩
  cases action with
  | push id v => cases hpushed
  | terminate id => cases hcloses
  | pop id waits =>
    by_cases hsplit : record.splits id = []
    · obtain ⟨reading, left, hperform, _, hclosed, hvalues⟩ :=
        perform_pop_of_whole (h.content.whole hsplit).1 waits
      have hqueue := queue_setQueue net hpermits left 0
      by_cases hid : 0 = id
      · subst hid
        rw [if_pos rfl] at hqueue
        refine ⟨by rw [hperform, hqueue, hclosed], added_of_length_le ?_⟩
        rw [hperform, hqueue, hvalues]
        simp
      · rw [if_neg hid] at hqueue
        exact hsame (by rw [hperform, hqueue])
    · exact hsame (by rw [perform_pop_of_split h hsplit])
  | split id count =>
    have hqueue : (net.split id count).queue 0 =
        if 0 = id then (net.queue id).detached else net.queue 0 :=
      queue_split_of_lt net hpermits count h.shape.nonempty
    have hnonempty := h.shape.nonempty
    have hclosed : ((net.split id count).queue 0).inputClosed = (net.queue 0).inputClosed := by
      rw [hqueue]
      split
      · next hid => rw [Queue.inputClosed_detached, hid]
      · rfl
    refine ⟨hclosed, ?_⟩
    rw [added_split net hpermits, if_neg (by omega)]
  | advance index =>
    obtain ⟨_, _, ⟨hqueue, _⟩ | ⟨source, targets, more, entry, hsource, hforwarded⟩⟩ :=
      advance_cases h.shape index
    · exact hsame (hqueue 0)
    · have hnot : 0 ∉ targets := fun hmem => by
        have hlt := ((h.shape.copies source targets (by simp [hsource])).2 0 hmem).1
        omega
      have hadded := added_forward h hsource hforwarded 0
      rw [if_neg hnot] at hadded
      refine ⟨?_, hadded⟩
      obtain ⟨_, _, rest, _, hqueue⟩ := hforwarded
      rw [perform, hqueue, if_neg hnot]
      split
      · next hid => rw [hid]
      · rfl
  | _ => exact hpermits.elim

theorem root_written (h : Tree net record) {action : Action} {entry : Entry Value}
    (hperform : (net.perform action).2 = net.setQueue 0 ((net.queue 0).accept entry)) :
    ((net.perform action).2.queue 0).inputClosed = ((net.queue 0).inputClosed || entry.closes) ∧
      net.added action 0 = if (net.queue 0).inputClosed then [] else entry.values := by
  have hqueue : (net.perform action).2.queue 0 = (net.queue 0).accept entry := by
    rw [hperform, queue_setQueue net h.shape.nonempty, if_pos rfl]
  cases hclosed : (net.queue 0).inputClosed with
  | true =>
    rw [Queue.accept_of_closed hclosed] at hqueue
    exact ⟨by rw [hqueue, hclosed, Bool.true_or], added_of_queue_eq hqueue⟩
  | false =>
    have hvalues := h.values_accept hclosed entry
    rw [← hqueue] at hvalues
    exact ⟨by rw [hqueue, Queue.inputClosed_accept hclosed, Bool.false_or],
      added_of_values_eq hvalues⟩

theorem root_perform (h : Tree net record) {action : Action} (hpermits : net.Permits action) :
    ((net.perform action).2.queue 0).inputClosed = ((net.queue 0).inputClosed || closing action) ∧
      net.added action 0 = if (net.queue 0).inputClosed then [] else pushed action := by
  cases action with
  | push id v =>
    cases hpermits
    exact root_written h (perform_push net 0 v)
  | terminate id =>
    cases hpermits
    exact root_written h (perform_terminate net 0)
  | _ =>
    obtain ⟨hclosed, hadded⟩ := root_kept h hpermits rfl rfl
    simp [hclosed, hadded, closing, pushed]

theorem reached_root (h : Tree net record) {history : List Action}
    (hpermits : net.PermitsAll history) :
    (record.after net history).reached 0 =
      record.reached 0 ++ if (net.queue 0).inputClosed then [] else written history := by
  induction history generalizing net record with
  | nil => simp [Record.after, written]
  | cons action history ih =>
    obtain ⟨hclosed, hadded⟩ := root_perform h hpermits.1
    have hnext := ih (tree_perform h hpermits.1) hpermits.2
    have hreached : (record.next net action).reached 0 = record.reached 0 ++ net.added action 0 :=
      rfl
    rw [Record.after, hnext, hreached, hclosed, hadded, written_cons]
    cases (net.queue 0).inputClosed <;> simp

theorem closed_root (h : Tree net record) {history : List Action}
    (hpermits : net.PermitsAll history)
    (hclosed : (net.queue 0).inputClosed = true ∨ .terminate 0 ∈ history) :
    ((net.performAll history).queue 0).inputClosed = true := by
  induction history generalizing net record with
  | nil => exact hclosed.resolve_right List.not_mem_nil
  | cons action history ih =>
    have hstep := (root_perform h hpermits.1).1
    refine ih (tree_perform h hpermits.1) hpermits.2 ?_
    rw [List.mem_cons] at hclosed
    rcases hclosed with hclosed | rfl | hlater
    · exact .inl (by rw [hstep, hclosed, Bool.true_or])
    · exact .inl (by rw [hstep, closing, Bool.or_true])
    · exact .inr hlater

/-! ### Everything is forwarded in the end -/

/-- No worker that forwards has anything to do. -/
def Quiet (net : Network) : Prop :=
  ∀ source targets, .forward source targets ∈ net.workers →
  net.step (.forward source targets) = none

theorem step_forward_ne_none (h : Tree net record) {source : Nat} {targets : List Nat}
    (hclosed : (net.queue source).inputClosed = true)
    (hworker : .forward source targets ∈ net.workers) :
    net.step (.forward source targets) ≠ none := by
  rcases h.shape.workers _ hworker with ⟨_, _, _, hrelay⟩ | ⟨_, _, more, hforward, hsplits⟩
  · cases hrelay
  · cases hforward
    have hforwarding : net.isForwarding source = true := isForwarding_iff.mpr ⟨targets, hworker⟩
    have hunread := (h.content.detached hsplits).unread
    rw [hforwarding, hclosed, Bool.and_true, if_pos rfl] at hunread
    cases hentries : (net.queue source).unread with
    | nil => simp [hentries] at hunread
    | cons entry rest => simp [step_forward (h.shape.unfired source) targets hentries]

/-- A queue is closed when nothing more is forwarded to it, the first one when it is closed from
outside. -/
theorem closed_of_quiet (h : Tree net record) (hroot : (net.queue 0).inputClosed = true)
    (hquiet : net.Quiet) {q : Nat} (hq : q < net.channels.length) :
    (net.queue q).inputClosed = true := by
  induction q using Nat.strong_induction_on with
  | _ q ih =>
    by_cases hzero : q = 0
    · rw [hzero, hroot]
    · obtain ⟨p, cs, hcs, hmem⟩ := h.shape.origin q hzero hq
      have hlt := ((h.shape.copies p cs hcs).2 q hmem).1
      have hclosedp := ih p hlt (by omega)
      cases hsplits : record.splits p with
      | nil => simp [hsplits] at hcs
      | cons ds more =>
        rw [hsplits, List.mem_cons] at hcs
        rcases hcs with rfl | hlater
        · have hidle : net.isForwarding p = false := by
            by_contra hforwarding
            obtain ⟨targets, hworker⟩ := isForwarding_iff.mp (Bool.not_eq_false _ ▸ hforwarding)
            exact step_forward_ne_none h hclosedp hworker (hquiet p targets hworker)
          rw [(h.content.fed hsplits hmem).2, hidle]
          rfl
        · exact (h.content.later hsplits hlater hmem).1

/-- When the first queue is closed and nothing is left to be forwarded, a queue that was not split
delivers all that has reached it. -/
theorem delivers_of_quiet (h : Tree net record) (hroot : (net.queue 0).inputClosed = true)
    (hquiet : net.Quiet) {q : Nat} (hq : q < net.channels.length) (hwhole : record.splits q = []) :
    Delivers net record q (record.reached q) := by
  obtain ⟨hwell, hreached⟩ := h.content.whole hwhole
  obtain ⟨left, hdrain⟩ := hwell.drain_of_closed (closed_of_quiet h hroot hquiet hq)
  rw [← fuse_of_unfired (h.shape.unfired q)] at hdrain
  rw [hreached]
  exact .directly hwhole hdrain

/-- An entry of an older queue weighs more than all the copies that it can become. -/
def weight (count q : Nat) : Nat := (count + 1) ^ (count - q)

def backlog (net : Network) : Nat :=
  ∑ q ∈ Finset.range net.channels.length, (net.queue q).unread.length * weight net.channels.length q

theorem backlog_lt_of_forwarded {source : Nat} {targets : List Nat} {entry : Entry Value}
    (hlength : next.channels.length = net.channels.length) (hsource : source < net.channels.length)
    (htargets : ∀ c ∈ targets, source < c) (hforwarded : Forwarded net next source targets entry) :
    next.backlog < net.backlog := by
  obtain ⟨_, _, rest, hunread, hqueue⟩ := hforwarded
  set count := net.channels.length with hcount
  let copy := (count + 1) ^ (count - source - 1)
  have hweight : weight count source = count * copy + copy := by
    have hexp : count - source = (count - source - 1) + 1 := by omega
    rw [weight, hexp, Nat.pow_succ, Nat.mul_comm, Nat.add_mul, Nat.one_mul]
  have hpoint : ∀ q ∈ Finset.range count, (next.queue q).unread.length * weight count q +
      (if q = source then weight count q else 0) ≤
        (net.queue q).unread.length * weight count q + copy := by
    intro q hq
    rw [hqueue]
    by_cases heq : q = source
    · subst heq
      simp only [if_pos, hunread, List.length_cons, Nat.add_mul, Nat.one_mul]
      omega
    · rw [if_neg heq, if_neg heq, Nat.add_zero]
      by_cases hmem : q ∈ targets
      · have hlt := htargets q hmem
        have hlight : weight count q ≤ copy := Nat.pow_le_pow_right (by omega) (by omega)
        have hgrown := Queue.length_accept_le (net.queue q) entry
        rw [if_pos hmem]
        calc ((net.queue q).accept entry).unread.length * weight count q
            ≤ ((net.queue q).unread.length + 1) * weight count q := Nat.mul_le_mul_right _ hgrown
          _ = (net.queue q).unread.length * weight count q + weight count q := by
            rw [Nat.add_mul, Nat.one_mul]
          _ ≤ (net.queue q).unread.length * weight count q + copy := Nat.add_le_add_left hlight _
      · rw [if_neg hmem]
        omega
  have hcopies : ∑ _q ∈ Finset.range count, copy = count * copy := by
    rw [Finset.sum_const_nat fun _ _ => rfl, Finset.card_range]
  have hsum := Finset.sum_le_sum hpoint
  rw [Finset.sum_add_distrib, Finset.sum_add_distrib, Finset.sum_ite_eq',
    if_pos (Finset.mem_range.mpr hsource), hcopies, hweight] at hsum
  have hpos : 0 < copy := Nat.pow_pos (by omega)
  unfold backlog
  rw [hlength, ← hcount]
  omega

/-- Every step that forwards something leaves less to be forwarded, in whatever order the workers
take their steps. -/
theorem backlog_advance_lt (h : Tree net record) {index source : Nat} {targets : List Nat}
    (hworker : net.workers[index]? = some (.forward source targets))
    (hstep : net.step (.forward source targets) ≠ none) :
    (net.advance index).backlog < net.backlog := by
  rcases h.shape.workers _ (List.mem_of_getElem? hworker) with ⟨_, _, _, hrelay⟩ |
    ⟨_, _, more, hforward, hsplits⟩
  · cases hrelay
  · cases hforward
    cases hunread : (net.queue source).unread with
    | nil => exact absurd (step_forward_of_empty (h.shape.unfired source) targets hunread) hstep
    | cons entry rest =>
      obtain ⟨_, hlength, hforwarded⟩ := advance_forward h.shape hworker hsplits hunread
      have hcopies := (h.shape.copies source targets (by simp [hsplits])).2
      exact backlog_lt_of_forwarded hlength (h.shape.lt_of_cons hsplits)
        (fun c hc => (hcopies c hc).1) hforwarded

theorem exists_quiet (h : Tree net record) :
    ∃ schedule : List Nat, (net.performAll (schedule.map .advance)).Quiet := by
  induction hbacklog : net.backlog using Nat.strong_induction_on generalizing net record with
  | _ size ih =>
    by_cases hquiet : net.Quiet
    · exact ⟨[], hquiet⟩
    · obtain ⟨source, targets, hworker, hstep⟩ :
          ∃ source targets, .forward source targets ∈ net.workers ∧
          net.step (.forward source targets) ≠ none := by
        by_contra hnone
        exact hquiet fun source targets hworker => by_contra fun hstep =>
          hnone ⟨source, targets, hworker, hstep⟩
      obtain ⟨index, hindex⟩ := List.mem_iff_getElem?.mp hworker
      have hless := backlog_advance_lt h hindex hstep
      have hnext : Tree (net.advance index) (record.next net (.advance index)) :=
        tree_advance h index
      obtain ⟨schedule, hschedule⟩ := ih (net.advance index).backlog (hbacklog ▸ hless) hnext rfl
      exact ⟨index :: schedule, hschedule⟩

theorem performAll_append (net : Network) (earlier later : List Action) :
    net.performAll (earlier ++ later) = (net.performAll earlier).performAll later := by
  induction earlier generalizing net with
  | nil => rfl
  | cons action earlier ih => exact ih (net.perform action).2

theorem permitsAll_append {earlier later : List Action} (hearlier : net.PermitsAll earlier)
    (hlater : (net.performAll earlier).PermitsAll later) : net.PermitsAll (earlier ++ later) := by
  induction earlier generalizing net with
  | nil => exact hlater
  | cons action earlier ih => exact ⟨hearlier.1, ih hearlier.2 hlater⟩

theorem permitsAll_advance (net : Network) (schedule : List Nat) :
    net.PermitsAll (schedule.map .advance) := by
  induction schedule generalizing net with
  | nil => trivial
  | cons index schedule ih => exact ⟨trivial, ih _⟩

/-! ### Splits -/

section

variable (tokens : List Bool) (runtime : Nat) (preset : Option (List Value)) (slots : Slots)
    (token : Option Nat)

/-- For every queue whose token has not fired and everything that is done with it and its copies:
what has reached the queue is what it was made with, or what was written to it before it was closed.
Each queue, through itself and whatever copies of its first splits, delivers exactly what has
reached it, and so the copies of a split deliver the same; up to then, what has reached the queue
but no copy is still in it. A queue that has been split reads as ended, and the copies of later
splits of it are empty and ended. When the first queue is closed, it takes the workers only so many
steps until nothing is left to be forwarded, and every queue that was not split then delivers what
has reached it. -/
theorem delivers_reached (hunfired : (root tokens runtime preset slots token).isCancelled 0 = false)
    {history : List Action}
    (hpermits : (root tokens runtime preset slots token).PermitsAll history) :
    let start := root tokens runtime preset slots token
    let net := start.performAll history
    let record := (Record.start start).after start history
    record.reached 0 = preset.getD (written history) ∧
    (.terminate 0 ∈ history → (net.queue 0).inputClosed = true) ∧
    (∀ q vs, Delivers net record q vs → vs = record.reached q) ∧
    (∀ q cs more, record.splits q = cs :: more →
      (∀ c ∈ cs, record.reached q = record.taken q ++ record.reached c ++ (net.queue q).values ∧
        ∀ d ∈ cs, ∀ vs ws, Delivers net record c vs → Delivers net record d ws → vs = ws) ∧
      (∀ waits, net.perform (.pop q waits) = (.ended, net)) ∧
      ∀ ds ∈ more, ∀ d ∈ ds, record.reached d = [] ∧
        (record.splits d = [] → ∃ left, (net.queue d).drain (net.fuse d) = ([], .ended, left))) ∧
    ((net.queue 0).inputClosed = true → net.Quiet →
      ∀ q < net.channels.length, record.splits q = [] → Delivers net record q (record.reached q)) ∧
    (∀ index source targets, net.workers[index]? = some (.forward source targets) →
      net.step (.forward source targets) ≠ none → (net.advance index).backlog < net.backlog) ∧
    ∃ schedule : List Nat, start.PermitsAll (history ++ schedule.map .advance) ∧
      (start.performAll (history ++ schedule.map .advance)).Quiet := by
  intro start net record
  have htree : Tree net record :=
    tree_after (tree_root tokens runtime preset slots token hunfired) hpermits
  have hdelivers : ∀ q vs, Delivers net record q vs → vs = record.reached q :=
    fun q vs h => (reached_of_delivers htree h).1
  refine ⟨?_, fun hterminate => ?_, hdelivers,
    fun q cs more hq =>
      ⟨fun c hc => ⟨?_, fun d hd vs ws hvs hws => ?_⟩, fun waits => ?_, fun ds hds d hd => ?_⟩,
    fun hroot hquiet q hq hwhole => delivers_of_quiet htree hroot hquiet hq hwhole,
    fun index source targets hworker hstep => backlog_advance_lt htree hworker hstep, ?_⟩
  · have hroot := reached_root (tree_root tokens runtime preset slots token hunfired) hpermits
    have hfirst : (Record.start start).reached 0 = preset.getD [] := Queue.values_made preset
    rw [hfirst] at hroot
    refine hroot.trans ?_
    cases preset with
    | none => rfl
    | some vs => exact List.append_nil vs
  · exact closed_root (tree_root tokens runtime preset slots token hunfired) hpermits
      (.inr hterminate)
  · exact (htree.content.fed hq hc).1
  · have hc' := hdelivers q _ (.through hq hc hvs)
    have hd' := hdelivers q _ (.through hq hd hws)
    exact List.append_cancel_left (hc'.trans hd'.symm)
  · exact perform_pop_of_split htree (by simp [hq]) waits
  · obtain ⟨hclosed, hnone⟩ := htree.content.later hq hds hd
    refine ⟨hnone, fun hwhole => ?_⟩
    obtain ⟨hwell, hreached⟩ := htree.content.whole hwhole
    obtain ⟨left, hdrain⟩ := hwell.drain_of_closed hclosed
    have hempty := (List.append_eq_nil_iff.mp (hreached.symm.trans hnone)).2
    rw [fuse_of_unfired (htree.shape.unfired d), hdrain, hempty]
    exact ⟨left, rfl⟩
  · obtain ⟨schedule, hquiet⟩ := exists_quiet htree
    refine ⟨schedule, permitsAll_append hpermits (permitsAll_advance _ schedule), ?_⟩
    rw [performAll_append]
    exact hquiet

end

/-- A queue is read, split, and split again, and so is one of its copies, between writes to it and
steps of the workers. All that was written to it comes through a copy, and a copy of the later split
gets none of it. -/
theorem delivers_reached_nested :
    let start := root [false] 0 none .empty (some 0)
    let history : List Action :=
      [.push 0 .null, .push 0 (.boolean true), .pop 0 true, .split 0 2, .push 0 (.boolean false),
        .advance 0, .pop 1 true, .split 1 1, .split 0 1, .push 0 (.string "a"), .terminate 0,
        .advance 0, .advance 0, .advance 4, .advance 4]
    let net := start.performAll history
    let record := (Record.start start).after start history
    Delivers net record 0 [.null, .boolean true, .boolean false, .string "a"] ∧
      record.reached 4 = [] := by
  intro start history net record
  have hpermits : start.PermitsAll history := by decide +kernel
  have hfirst : record.splits 0 = [[1, 2], [4]] := by decide +kernel
  have hcopy : record.splits 2 = [] := by decide +kernel
  have hquiet : net.Quiet := by
    have hnone : ∀ worker ∈ net.workers, worker.forwarded?.isSome = true →
        (net.step worker).isNone = true := by
      decide +kernel
    exact fun source targets hworker => Option.isNone_iff_eq_none.mp (hnone _ hworker rfl)
  obtain ⟨hreached, hclosed, hdelivers, hsplits, hends, _⟩ :=
    delivers_reached [false] 0 none .empty (some 0) rfl hpermits
  have hroot : (net.queue 0).inputClosed = true := hclosed (List.mem_of_getElem? (i := 10) rfl)
  have hthrough :=
    Delivers.through hfirst (by simp) (hends hroot hquiet 2 (by decide +kernel) hcopy)
  have hall := (hdelivers 0 _ hthrough).trans hreached
  rw [hall] at hthrough
  refine ⟨hthrough, ?_⟩
  exact ((hsplits 0 _ _ hfirst).2.2 [4] (by simp) 4 (by simp)).1

end Network
end QueryShell
