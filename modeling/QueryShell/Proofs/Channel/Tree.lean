import QueryShell.Proofs.Channel.Network

/-! A queue, its copies, the copies of these, and so on, with a record of what has been seen of
each: which queue is a copy of which, and where the values are that have reached it. -/

namespace QueryShell

namespace Network

def root (tokens : List Bool) (runtime : Nat) (preset : Option (List Value)) (slots : Slots)
    (token : Option Nat) : Network :=
  ⟨tokens, runtime, [⟨.made preset, slots, token⟩], []⟩

/-- What can be done with a queue and its copies: writing to the queue, reading and splitting any of
them, and forwarding. -/
def Permits (net : Network) : Action → Prop
  | .push id _ | .terminate id => id = 0
  | .pop id _ | .split id _ => id < net.channels.length
  | .advance _ => True
  | _ => False

def PermitsAll (net : Network) : List Action → Prop
  | [] => True
  | action :: history => net.Permits action ∧ (net.perform action).2.PermitsAll history

instance decidablePermits (net : Network) (action : Action) : Decidable (net.Permits action) := by
  unfold Permits
  cases action <;> infer_instance

instance decidablePermitsAll (net : Network) :
    (history : List Action) → Decidable (net.PermitsAll history)
  | [] => .isTrue trivial
  | action :: history =>
    have := decidablePermitsAll (net.perform action).2 history
    inferInstanceAs (Decidable (net.Permits action ∧ (net.perform action).2.PermitsAll history))

/-- The values that an action puts into a queue. -/
def added (net : Network) (action : Action) (id : Nat) : List Value :=
  ((net.perform action).2.queue id).values.drop (net.queue id).values.length

/-- The value that a read takes from a queue. -/
def popped (net : Network) (action : Action) (id : Nat) : List Value :=
  match action, (net.perform action).1 with
  | .pop source _, .value v => if source = id then [v] else []
  | _, _ => []

/-- The copies that a split makes of a queue. -/
def copied (net : Network) (action : Action) (id : Nat) : List (List Nat) :=
  match action with
  | .split source count =>
    if source = id then [(List.range count).map (net.channels.length + ·)] else []
  | _ => []

end Network

/-- What has been seen of each queue: the values that have reached it, those that were read from it,
and the copies that each split of it made, the first split first. -/
structure Record where
  reached : Nat → List Value
  taken : Nat → List Value
  splits : Nat → List (List Nat)

namespace Record

def start (net : Network) : Record := ⟨fun id => (net.queue id).values, fun _ => [], fun _ => []⟩

def next (record : Record) (net : Network) (action : Action) : Record where
  reached id := record.reached id ++ net.added action id
  taken id := record.taken id ++ net.popped action id
  splits id := record.splits id ++ net.copied action id

def after (record : Record) (net : Network) : List Action → Record
  | [] => record
  | action :: history => (record.next net action).after (net.perform action).2 history

end Record

namespace Network

/-- Which queue is a copy of which, and what is still forwarded. A queue is older than its
copies. -/
structure Shape (net : Network) (splits : Nat → List (List Nat)) : Prop where
  nonempty : 0 < net.channels.length
  unfired : ∀ id, net.isCancelled id = false
  fresh : ∀ id, net.channels.length ≤ id → splits id = []
  copies : ∀ q, ∀ cs ∈ splits q, cs.Nodup ∧ ∀ c ∈ cs, q < c ∧ c < net.channels.length
  unique : ∀ {p q ps qs ms ns c}, splits p = ps :: ms → splits q = qs :: ns → c ∈ ps →
    c ∈ qs → p = q
  origin : ∀ c, c ≠ 0 → c < net.channels.length → ∃ q, ∃ cs ∈ splits q, c ∈ cs
  nodup : net.forwarding.Nodup
  workers : ∀ worker ∈ net.workers, (∃ kind source targets, worker = .relay kind source targets) ∨
    ∃ source targets more, worker = .forward source targets ∧ splits source = targets :: more

/-- Where the values are that have reached a queue. -/
structure Content (net : Network) (record : Record) : Prop where
  fresh : ∀ id, net.channels.length ≤ id → record.reached id = [] ∧ record.taken id = []
  whole : ∀ {q}, record.splits q = [] →
    (net.queue q).WellFormed ∧ record.reached q = record.taken q ++ (net.queue q).values
  detached : ∀ {q cs more}, record.splits q = cs :: more →
    (net.queue q).Detached (net.isForwarding q)
  fed : ∀ {q cs more c}, record.splits q = cs :: more → c ∈ cs →
    record.reached q = record.taken q ++ record.reached c ++ (net.queue q).values ∧
      (net.queue c).inputClosed = !net.isForwarding q
  later : ∀ {q cs more ds c}, record.splits q = cs :: more → ds ∈ more → c ∈ ds →
    (net.queue c).inputClosed = true ∧ record.reached c = []

variable {net next : Network} {record record' : Record}

theorem Shape.keep {splits : Nat → List (List Nat)} (h : Shape net splits)
    (hlength : next.channels.length = net.channels.length)
    (hcancelled : ∀ id, next.isCancelled id = net.isCancelled id)
    (hworkers : next.workers.Sublist net.workers) : Shape next splits where
  nonempty := hlength ▸ h.nonempty
  unfired id := (hcancelled id).trans (h.unfired id)
  fresh id hid := h.fresh id (hlength ▸ hid)
  copies := hlength ▸ h.copies
  unique := h.unique
  origin := hlength ▸ h.origin
  nodup := (hworkers.filterMap Worker.forwarded?).nodup h.nodup
  workers worker hworker := h.workers worker (hworkers.subset hworker)

theorem Shape.lt_of_cons {splits : Nat → List (List Nat)} (h : Shape net splits) {q : Nat}
    {cs : List Nat} {more : List (List Nat)} (hq : splits q = cs :: more) :
    q < net.channels.length := by
  by_contra hge
  simp [h.fresh q (by omega)] at hq

theorem Shape.notMem {splits : Nat → List (List Nat)} (h : Shape net splits) {q : Nat}
    {cs : List Nat} {more : List (List Nat)} (hq : splits q = cs :: more) : q ∉ cs := fun hmem => by
  have hlt := ((h.copies q cs (by simp [hq])).2 q hmem).1
  omega

/-- An entry comes to some queues, from outside or from the queue that they are copies of. -/
theorem Content.give (h : Content net record) (entry : Entry Value) (source? : Option Nat)
    (targets : List Nat) (hopen : ∀ c ∈ targets, (net.queue c).inputClosed = false)
    (hsource : ∀ q, source? = some q → q ∉ targets ∧ record.splits q ≠ [] ∧
      net.isForwarding q = true ∧ next.isForwarding q = !entry.closes ∧
      ∃ rest, (net.queue q).unread = entry :: rest ∧
      next.queue q = { net.queue q with unread := rest })
    (hedge : ∀ {q cs more c}, record.splits q = cs :: more → c ∈ cs →
      (c ∈ targets ↔ source? = some q))
    (htargets : ∀ c ∈ targets, c < net.channels.length ∧ next.queue c = (net.queue c).accept entry)
    (hother : ∀ j, j ∉ targets → source? ≠ some j → next.queue j = net.queue j)
    (hforwarding : ∀ j, source? ≠ some j → next.isForwarding j = net.isForwarding j)
    (hlength : next.channels.length = net.channels.length)
    (hreached : ∀ j, record'.reached j =
      record.reached j ++ if j ∈ targets then entry.values else [])
    (htaken : record'.taken = record.taken) (hsplits : record'.splits = record.splits) :
    Content next record' := by
  have hclosed : ∀ c, c ∉ targets → (next.queue c).inputClosed = (net.queue c).inputClosed := by
    intro c hc
    by_cases hq : source? = some c
    · obtain ⟨_, _, _, _, rest, _, hnext⟩ := hsource c hq
      rw [hnext]
    · rw [hother c hc hq]
  constructor
  case fresh =>
    intro id hid
    have hnot : id ∉ targets := fun hmem => by
      have hlt := (htargets id hmem).1
      omega
    have hfresh := h.fresh id (hlength ▸ hid)
    simpa [hreached, htaken, hnot] using hfresh
  case whole =>
    intro q hq
    rw [hsplits] at hq
    have hnosource : source? ≠ some q := fun hs => (hsource q hs).2.1 hq
    obtain ⟨hwell, hbefore⟩ := h.whole hq
    by_cases hmem : q ∈ targets
    · obtain ⟨hnext, hvalues⟩ := hwell.accept (hopen q hmem) entry
      rw [(htargets q hmem).2]
      refine ⟨hnext, ?_⟩
      rw [hreached, htaken, if_pos hmem, hbefore, hvalues, List.append_assoc]
    · rw [hother q hmem hnosource]
      simpa [hreached, htaken, hmem] using And.intro hwell hbefore
  case detached =>
    intro q cs more hq
    rw [hsplits] at hq
    have hbefore := h.detached hq
    by_cases hmem : q ∈ targets
    · have hnosource : source? ≠ some q := fun hs => (hsource q hs).1 hmem
      rw [(htargets q hmem).2, hforwarding q hnosource]
      exact (hbefore.accept (hopen q hmem) entry).1
    · by_cases hs : source? = some q
      · obtain ⟨_, _, hfrom, hto, rest, hunread, hnext⟩ := hsource q hs
        rw [hnext, hto]
        rw [hfrom] at hbefore
        exact (hbefore.receive hunread).1
      · rw [hother q hmem hs, hforwarding q hs]
        exact hbefore
  case fed =>
    intro q cs more c hq hc
    rw [hsplits] at hq
    have hiff := hedge hq hc
    obtain ⟨hbefore, hclosedc⟩ := h.fed hq hc
    by_cases hmem : c ∈ targets
    · have hs := hiff.mp hmem
      obtain ⟨hnot, _, hfrom, hto, rest, hunread, hnext⟩ := hsource q hs
      have hvalues := ((hfrom ▸ h.detached hq).receive hunread).2
      constructor
      · rw [hreached, hreached, htaken, if_neg hnot, if_pos hmem, hbefore, hvalues, hnext]
        simp [Queue.values]
      · rw [(htargets c hmem).2, Queue.inputClosed_accept (hopen c hmem), hto, Bool.not_not]
    · have hs : source? ≠ some q := fun hs => hmem (hiff.mpr hs)
      rw [hclosed c hmem, hforwarding q hs]
      refine ⟨?_, hclosedc⟩
      rw [hreached, hreached, htaken, if_neg hmem, List.append_nil]
      by_cases hqmem : q ∈ targets
      · have hvalues := ((h.detached hq).accept (hopen q hqmem) entry).2
        rw [if_pos hqmem, (htargets q hqmem).2, hvalues, hbefore, List.append_assoc]
      · rw [if_neg hqmem, List.append_nil, hother q hqmem hs, hbefore]
  case later =>
    intro q cs more ds c hq hds hc
    rw [hsplits] at hq
    obtain ⟨hclosedc, hnone⟩ := h.later hq hds hc
    have hmem : c ∉ targets := fun hmem => by simp [hopen c hmem] at hclosedc
    rw [hclosed c hmem, hreached, if_neg hmem, List.append_nil]
    exact ⟨hclosedc, hnone⟩

theorem Content.take (h : Content net record) {id : Nat} (hid : id < net.channels.length)
    (hwhole : record.splits id = []) {vs : List Value} {left : Queue Value}
    (hwell : left.WellFormed) (hvalues : (net.queue id).values = vs ++ left.values)
    (hclosed : left.inputClosed = (net.queue id).inputClosed)
    (hqueue : ∀ j, next.queue j = if j = id then left else net.queue j)
    (hforwarding : next.isForwarding = net.isForwarding)
    (hlength : next.channels.length = net.channels.length)
    (hreached : record'.reached = record.reached)
    (htaken : ∀ j, record'.taken j = record.taken j ++ if j = id then vs else [])
    (hsplits : record'.splits = record.splits) : Content next record' := by
  have hkept : ∀ j, (next.queue j).inputClosed = (net.queue j).inputClosed := by
    intro j
    by_cases hj : j = id
    · rw [hqueue, if_pos hj, hclosed, hj]
    · rw [hqueue, if_neg hj]
  have hother : ∀ {q cs more}, record.splits q = cs :: more → q ≠ id := by
    intro q cs more hq heq
    simp [heq, hwhole] at hq
  constructor
  case fresh =>
    intro j hj
    have hne : j ≠ id := by omega
    have hfresh := h.fresh j (hlength ▸ hj)
    simpa [hreached, htaken, hne] using hfresh
  case whole =>
    intro q hq
    rw [hsplits] at hq
    obtain ⟨hbefore, hreach⟩ := h.whole hq
    by_cases heq : q = id
    · subst heq
      rw [hqueue, if_pos rfl, hreached, htaken, if_pos rfl, List.append_assoc, ← hvalues]
      exact ⟨hwell, hreach⟩
    · rw [hqueue, if_neg heq, hreached, htaken, if_neg heq, List.append_nil]
      exact ⟨hbefore, hreach⟩
  case detached =>
    intro q cs more hq
    rw [hsplits] at hq
    rw [hqueue, if_neg (hother hq), hforwarding]
    exact h.detached hq
  case fed =>
    intro q cs more c hq hc
    rw [hsplits] at hq
    have hne := hother hq
    rw [hkept, hqueue, if_neg hne, hreached, htaken, if_neg hne, List.append_nil, hforwarding]
    exact h.fed hq hc
  case later =>
    intro q cs more ds c hq hds hc
    rw [hsplits] at hq
    rw [hkept, hreached]
    exact h.later hq hds hc

theorem mem_copies {first count c : Nat} :
    c ∈ (List.range count).map (first + ·) ↔ first ≤ c ∧ c < first + count := by
  rw [List.mem_map]
  constructor
  · rintro ⟨i, hi, rfl⟩
    have hlt := List.mem_range.mp hi
    omega
  · intro hc
    exact ⟨c - first, List.mem_range.mpr (by omega), by omega⟩

/-- The copies of a first split get what is in the queue, and will get what comes after. -/
theorem Content.splitWhole (h : Content net record) (hshape : Shape net record.splits)
    {id count : Nat} (hid : id < net.channels.length) (hwhole : record.splits id = [])
    (hforwarding : ∀ j, next.isForwarding j =
      if j = id then !(net.queue id).inputClosed else net.isForwarding j)
    (hqueue : ∀ j < net.channels.length, next.queue j =
      if j = id then (net.queue id).detached else net.queue j)
    (hcopy : ∀ j, net.channels.length ≤ j → j < net.channels.length + count →
      next.queue j = (net.queue id).replica)
    (hnew : ∀ j, net.channels.length + count ≤ j → next.queue j = net.queue j)
    (hlength : next.channels.length = net.channels.length + count)
    (hreached : ∀ j, record'.reached j =
      record.reached j ++
        if net.channels.length ≤ j ∧ j < net.channels.length + count then (net.queue id).values
        else []) (htaken : record'.taken = record.taken)
    (hsplits : ∀ j, record'.splits j =
      record.splits j ++
        if j = id then [(List.range count).map (net.channels.length + ·)] else []) :
    Content next record' := by
  obtain ⟨hwell, hbefore⟩ := h.whole hwhole
  obtain ⟨hreplica, hcopied, hcopyclosed⟩ := hwell.replica
  obtain ⟨hdetached, hempty⟩ := hwell.detached
  have hkept : ∀ j < net.channels.length, record'.reached j = record.reached j := by
    intro j hj
    rw [hreached, if_neg (by omega), List.append_nil]
  have hsame : ∀ j < net.channels.length, (next.queue j).inputClosed =
      (net.queue j).inputClosed := by
    intro j hj
    by_cases heq : j = id
    · rw [hqueue j hj, if_pos heq, Queue.inputClosed_detached, heq]
    · rw [hqueue j hj, if_neg heq]
  have hsplitother : ∀ j, j ≠ id → record'.splits j = record.splits j := by
    intro j hj
    rw [hsplits, if_neg hj, List.append_nil]
  have hsplitid : record'.splits id = [(List.range count).map (net.channels.length + ·)] := by
    rw [hsplits, if_pos rfl, hwhole, List.nil_append]
  constructor
  case fresh =>
    intro j hj
    rw [hlength] at hj
    rw [hreached, if_neg (by omega), List.append_nil, htaken]
    exact h.fresh j (by omega)
  case whole =>
    intro q hq
    have hne : q ≠ id := by
      rintro rfl
      simp [hsplitid] at hq
    rw [hsplitother q hne] at hq
    obtain ⟨hbeforewell, hbeforereached⟩ := h.whole hq
    rw [htaken]
    by_cases hold : q < net.channels.length
    · rw [hqueue q hold, if_neg hne, hkept q hold]
      exact ⟨hbeforewell, hbeforereached⟩
    · by_cases hnewcopy : q < net.channels.length + count
      · obtain ⟨hnone, hnotaken⟩ := h.fresh q (by omega)
        rw [hcopy q (by omega) hnewcopy, hreached, if_pos ⟨by omega, hnewcopy⟩, hnone, hnotaken,
          hcopied]
        exact ⟨hreplica, rfl⟩
      · rw [hnew q (by omega), hreached, if_neg (by omega), List.append_nil]
        exact ⟨hbeforewell, hbeforereached⟩
  case detached =>
    intro q cs more hq
    by_cases heq : q = id
    · subst heq
      rw [hqueue q hid, if_pos rfl, hforwarding, if_pos rfl]
      exact hdetached
    · rw [hsplitother q heq] at hq
      rw [hqueue q (hshape.lt_of_cons hq), if_neg heq, hforwarding, if_neg heq]
      exact h.detached hq
  case fed =>
    intro q cs more c hq hc
    by_cases heq : q = id
    · subst heq
      rw [hsplitid, List.cons.injEq] at hq
      rw [← hq.1, mem_copies] at hc
      have hreachedc : record'.reached c = (net.queue q).values := by
        rw [hreached, if_pos hc, (h.fresh c hc.1).1, List.nil_append]
      constructor
      · rw [hkept q hid, htaken, hreachedc, hqueue q hid, if_pos rfl, hempty, List.append_nil,
          hbefore]
      · rw [hcopy c hc.1 hc.2, hcopyclosed, hforwarding, if_pos rfl, Bool.not_not]
    · rw [hsplitother q heq] at hq
      have hcopies := hshape.copies q cs (by simp [hq])
      have hc' := (hcopies.2 c hc).2
      have hq' := hshape.lt_of_cons hq
      rw [hsame c hc', hkept c hc', hkept q hq', htaken, hqueue q hq', if_neg heq, hforwarding,
        if_neg heq]
      exact h.fed hq hc
  case later =>
    intro q cs more ds c hq hds hc
    by_cases heq : q = id
    · subst heq
      rw [hsplitid, List.cons.injEq] at hq
      simp [← hq.2] at hds
    · rw [hsplitother q heq] at hq
      have hcopies := hshape.copies q ds (by simp [hq, hds])
      have hc' := (hcopies.2 c hc).2
      rw [hsame c hc', hkept c hc']
      exact h.later hq hds hc

/-- The copies of a later split get nothing. -/
theorem Content.splitAgain (h : Content net record) (hshape : Shape net record.splits)
    {id count : Nat} (hsplit : record.splits id ≠ [])
    (hforwarding : next.isForwarding = net.isForwarding)
    (hqueue : ∀ j < net.channels.length, next.queue j = net.queue j)
    (hcopy : ∀ j, net.channels.length ≤ j → j < net.channels.length + count →
      next.queue j = .ofValues [])
    (hnew : ∀ j, net.channels.length + count ≤ j → next.queue j = net.queue j)
    (hlength : next.channels.length = net.channels.length + count)
    (hreached : record'.reached = record.reached) (htaken : record'.taken = record.taken)
    (hsplits : ∀ j, record'.splits j =
      record.splits j ++
        if j = id then [(List.range count).map (net.channels.length + ·)] else []) :
    Content next record' := by
  -- A queue has a first split before the new one exactly if it has one after it, and it is the
  -- same.
  have hbefore : ∀ {q cs more}, record'.splits q = cs :: more →
      ∃ rest, record.splits q = cs :: rest ∧
      ∀ ds ∈ more, ds ∈ rest ∨ ds = (List.range count).map (net.channels.length + ·) := by
    intro q cs more hq
    rw [hsplits] at hq
    by_cases heq : q = id
    · subst heq
      obtain ⟨first, rest, hfirst⟩ := List.exists_cons_of_ne_nil hsplit
      rw [hfirst, if_pos rfl, List.cons_append, List.cons.injEq] at hq
      obtain ⟨rfl, rfl⟩ := hq
      exact ⟨rest, hfirst, fun ds hds => by simpa using hds⟩
    · rw [if_neg heq, List.append_nil] at hq
      exact ⟨more, hq, fun ds hds => .inl hds⟩
  constructor
  case fresh =>
    intro j hj
    rw [hreached, htaken]
    exact h.fresh j (by omega)
  case whole =>
    intro q hq
    rw [hsplits, List.append_eq_nil_iff] at hq
    obtain ⟨hwell, hreach⟩ := h.whole hq.1
    rw [hreached, htaken]
    by_cases hold : q < net.channels.length
    · rw [hqueue q hold]
      exact ⟨hwell, hreach⟩
    · by_cases hnewcopy : q < net.channels.length + count
      · obtain ⟨hnone, hnotaken⟩ := h.fresh q (by omega)
        rw [hcopy q (by omega) hnewcopy, hnone, hnotaken]
        exact ⟨Queue.wellFormed_made (some []), rfl⟩
      · rw [hnew q (by omega)]
        exact ⟨hwell, hreach⟩
  case detached =>
    intro q cs more hq
    obtain ⟨rest, hrest, _⟩ := hbefore hq
    rw [hqueue q (hshape.lt_of_cons hrest), hforwarding]
    exact h.detached hrest
  case fed =>
    intro q cs more c hq hc
    obtain ⟨rest, hrest, _⟩ := hbefore hq
    have hcopies := hshape.copies q cs (by simp [hrest])
    rw [hqueue q (hshape.lt_of_cons hrest), hqueue c (hcopies.2 c hc).2, hreached, htaken,
      hforwarding]
    exact h.fed hrest hc
  case later =>
    intro q cs more ds c hq hds hc
    obtain ⟨rest, hrest, hmore⟩ := hbefore hq
    rw [hreached]
    rcases hmore ds hds with hold | rfl
    · have hcopies := hshape.copies q ds (by simp [hrest, hold])
      rw [hqueue c (hcopies.2 c hc).2]
      exact h.later hrest hold hc
    · rw [mem_copies] at hc
      rw [hcopy c hc.1 hc.2, (h.fresh c hc.1).1]
      exact ⟨rfl, rfl⟩

end Network
end QueryShell
