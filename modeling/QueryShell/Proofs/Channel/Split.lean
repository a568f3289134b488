import QueryShell.Proofs.Channel.Tree

/-! Whatever is done with a queue and its copies, and wherever the steps fall that forward later
values, the values that have reached a queue are accounted for. -/

namespace QueryShell.Network

variable {net next : Network} {record record' : Record}

/-! ### Steps of the workers -/

/-- An entry has gone from a queue to its copies. -/
structure Forwarded (net next : Network) (source : Nat) (targets : List Nat) (entry : Entry Value) :
    Prop where
  before : net.isForwarding source = true
  after : ∀ j, next.isForwarding j = if j = source then !entry.closes else net.isForwarding j
  queue : ∃ rest, (net.queue source).unread = entry :: rest ∧ ∀ j, next.queue j =
    if j = source then { net.queue source with unread := rest }
    else if j ∈ targets then (net.queue j).accept entry else net.queue j

theorem queue_forward {splits : Nat → List (List Nat)} (h : Shape net splits) {source : Nat}
    {targets : List Nat} {more : List (List Nat)} (hsplits : splits source = targets :: more)
    (left : Queue Value) (entry : Entry Value) (j : Nat) :
    ((net.setQueue source left).spread entry targets).queue j =
      if j = source then left else if j ∈ targets then (net.queue j).accept entry
      else net.queue j := by
  have hsource := h.lt_of_cons hsplits
  obtain ⟨hnodup, htargets⟩ := h.copies source targets (by simp [hsplits])
  have hlength := length_setQueue net source left
  rw [queue_spread _ entry hnodup (fun c hc => hlength ▸ (htargets c hc).2),
    queue_setQueue net hsource]
  by_cases hj : j = source
  · simp [hj, h.notMem hsplits]
  · simp [hj]

theorem advance_forward {splits : Nat → List (List Nat)} (h : Shape net splits) {index source : Nat}
    {targets : List Nat} (hworker : net.workers[index]? = some (.forward source targets))
    {more : List (List Nat)} (hsplits : splits source = targets :: more) {entry : Entry Value}
    {rest : List (Entry Value)} (hunread : (net.queue source).unread = entry :: rest) :
    Shape (net.advance index) splits ∧ (net.advance index).channels.length = net.channels.length ∧
      Forwarded net (net.advance index) source targets entry := by
  have hforwarding : net.isForwarding source = true :=
    isForwarding_iff.mpr ⟨targets, List.mem_of_getElem? hworker⟩
  have hqueue := queue_forward h hsplits { net.queue source with unread := rest } entry
  have hlength := length_forward net source { net.queue source with unread := rest } entry targets
  have hcancelled :=
    isCancelled_forward net source { net.queue source with unread := rest } entry targets
  rw [advance_of_step hworker, step_forward (h.unfired source) targets hunread]
  cases hcloses : entry.closes with
  | true =>
    refine ⟨h.keep hlength hcancelled (List.eraseIdx_sublist ..), hlength, hforwarding, fun j => ?_,
      rest, hunread, hqueue⟩
    rw [isForwarding_erase h.nodup hworker rfl, hcloses]
    by_cases hj : j = source
    · simp [hj, Worker.forwarded?]
    · simp [hj, Worker.forwarded?, Ne.symm hj]
  | false =>
    have hworkers : net.workers.set index (.forward source targets) = net.workers := by
      obtain ⟨hindex, hget⟩ := List.getElem?_eq_some_iff.mp hworker
      rw [← hget, List.set_getElem_self]
    have hsublist : (net.workers.set index (.forward source targets)).Sublist net.workers := by
      rw [hworkers]
    refine ⟨h.keep hlength hcancelled hsublist, hlength, hforwarding, fun j => ?_, rest, hunread,
      hqueue⟩
    rw [isForwarding_of_workers_eq hworkers, hcloses]
    by_cases hj : j = source
    · simp [hj, hforwarding]
    · simp [hj]

/-- A step of a worker that forwards moves an entry, one of any other worker leaves the queues as
they are. -/
theorem advance_cases {splits : Nat → List (List Nat)} (h : Shape net splits) (index : Nat) :
    Shape (net.advance index) splits ∧ (net.advance index).channels.length = net.channels.length ∧
      ((∀ j, (net.advance index).queue j = net.queue j) ∧
        (net.advance index).isForwarding = net.isForwarding ∨
      ∃ source targets more entry, splits source = targets :: more ∧
        Forwarded net (net.advance index) source targets entry) := by
  cases hworker : net.workers[index]? with
  | none =>
    rw [advance, hworker]
    exact ⟨h, rfl, .inl ⟨fun _ => rfl, rfl⟩⟩
  | some worker =>
    rcases h.workers worker (List.mem_of_getElem? hworker) with
      ⟨kind, source, targets, rfl⟩ | ⟨source, targets, more, rfl, hsplits⟩
    · rw [advance_of_step hworker]
      rcases net.step_relay kind source targets with hstep | ⟨after, hstep, hlength, hsame⟩
      · rw [hstep]
        exact ⟨h, rfl, .inl ⟨fun _ => rfl, rfl⟩⟩
      · rw [hstep]
        refine ⟨h.keep hlength (fun j => (hsame j).1) (List.eraseIdx_sublist ..), hlength,
          .inl ⟨fun j => (hsame j).2, ?_⟩⟩
        funext j
        rw [isForwarding_erase h.nodup hworker rfl]
        simp [Worker.forwarded?]
    · cases hunread : (net.queue source).unread with
      | nil =>
        rw [advance_of_step hworker, step_forward_of_empty (h.unfired source) targets hunread]
        exact ⟨h, rfl, .inl ⟨fun _ => rfl, rfl⟩⟩
      | cons entry rest =>
        obtain ⟨hshape, hlength, hforwarded⟩ := advance_forward h hworker hsplits hunread
        exact ⟨hshape, hlength, .inr ⟨source, targets, more, entry, hsplits, hforwarded⟩⟩

/-! ### What every action preserves -/

structure Tree (net : Network) (record : Record) : Prop where
  shape : Shape net record.splits
  content : Content net record

theorem added_of_values_eq {action : Action} {id : Nat} {vs : List Value}
    (h : ((net.perform action).2.queue id).values = (net.queue id).values ++ vs) :
    net.added action id = vs := by
  rw [added, h, List.drop_left]

theorem added_of_queue_eq {action : Action} {id : Nat}
    (h : (net.perform action).2.queue id = net.queue id) :
    net.added action id = [] := by
  rw [added, h, List.drop_length]

theorem added_of_length_le {action : Action} {id : Nat}
    (h : ((net.perform action).2.queue id).values.length ≤ (net.queue id).values.length) :
    net.added action id = [] :=
  List.drop_eq_nil_of_le h

theorem tree_root (tokens : List Bool) (runtime : Nat) (preset : Option (List Value))
    (slots : Slots) (token : Option Nat)
    (hunfired : (root tokens runtime preset slots token).isCancelled 0 = false) :
    Tree (root tokens runtime preset slots token)
      (.start (root tokens runtime preset slots token)) := by
  constructor
  case shape =>
    constructor
    case nonempty => exact Nat.one_pos
    case unfired =>
      intro id
      cases id with
      | zero => exact hunfired
      | succ id => rfl
    case fresh => exact fun _ _ => rfl
    case copies => exact fun _ _ hcs => absurd hcs List.not_mem_nil
    case unique => exact fun hp => nomatch hp
    case origin =>
      intro c hc hlt
      exact absurd (Nat.lt_one_iff.mp hlt) hc
    case nodup => exact List.nodup_nil
    case workers => exact fun _ hworker => absurd hworker List.not_mem_nil
  case content =>
    constructor
    case fresh =>
      intro id hid
      exact ⟨congrArg Queue.values (queue_of_ge hid), rfl⟩
    case whole =>
      intro q _
      refine ⟨?_, rfl⟩
      cases q with
      | zero => exact Queue.wellFormed_made preset
      | succ q => exact Queue.wellFormed_made (some [])
    case detached => exact fun hq => nomatch hq
    case fed => exact fun hq => nomatch hq
    case later => exact fun hq => nomatch hq

theorem Tree.idle (h : Tree net record) {action : Action}
    (hshape : Shape (net.perform action).2 record.splits)
    (hlength : (net.perform action).2.channels.length = net.channels.length)
    (hqueue : ∀ j, (net.perform action).2.queue j = net.queue j)
    (hforwarding : (net.perform action).2.isForwarding = net.isForwarding)
    (hpopped : ∀ j, net.popped action j = []) (hcopied : ∀ j, net.copied action j = []) :
    Tree (net.perform action).2 (record.next net action) := by
  have hrecord : record.next net action = record := by
    unfold Record.next
    simp [hpopped, hcopied, added_of_queue_eq (hqueue _)]
  rw [hrecord]
  have hcontent := h.content
  constructor
  case shape => exact hshape
  case content =>
    constructor
    case fresh => exact hlength ▸ hcontent.fresh
    case whole =>
      intro q hq
      rw [hqueue]
      exact hcontent.whole hq
    case detached =>
      intro q cs more hq
      rw [hqueue, hforwarding]
      exact hcontent.detached hq
    case fed =>
      intro q cs more c hq hc
      rw [hqueue, hqueue, hforwarding]
      exact hcontent.fed hq hc
    case later =>
      intro q cs more ds c hq hds hc
      rw [hqueue]
      exact hcontent.later hq hds hc

theorem Tree.values_accept (h : Tree net record) {id : Nat}
    (hopen : (net.queue id).inputClosed = false) (entry : Entry Value) :
    ((net.queue id).accept entry).values = (net.queue id).values ++ entry.values := by
  cases hsplit : record.splits id with
  | nil => exact ((h.content.whole hsplit).1.accept hopen entry).2
  | cons cs more => exact ((h.content.detached hsplit).accept hopen entry).2

/-- The first queue can be written to until it is closed. No other queue is written to from
outside. -/
theorem Tree.write (h : Tree net record) {action : Action} {entry : Entry Value}
    (hopen : (net.queue 0).inputClosed = false)
    (hperform : (net.perform action).2 = net.setQueue 0 ((net.queue 0).accept entry))
    (hpopped : ∀ j, net.popped action j = []) (hcopied : ∀ j, net.copied action j = []) :
    Tree (net.perform action).2 (record.next net action) := by
  have hqueue := queue_setQueue net h.shape.nonempty ((net.queue 0).accept entry)
  have hsplits : (record.next net action).splits = record.splits := by
    funext j
    simp [Record.next, hcopied]
  have hvalues := h.values_accept hopen entry
  have hreached : ∀ j, (record.next net action).reached j =
      record.reached j ++ if j ∈ [0] then entry.values else [] := by
    intro j
    by_cases hj : j = 0
    · subst hj
      have hadded : net.added action 0 = entry.values :=
        added_of_values_eq (by rw [hperform, hqueue, if_pos rfl, hvalues])
      simp [Record.next, hadded]
    · have hadded : net.added action j = [] :=
        added_of_queue_eq (by rw [hperform, hqueue, if_neg hj])
      simp [Record.next, hadded, hj]
  have hedge : ∀ {q cs more c}, record.splits q = cs :: more → c ∈ cs →
      (c ∈ [0] ↔ (none : Option Nat) = some q) := by
    intro q cs more c hq hc
    have hlt := ((h.shape.copies q cs (by simp [hq])).2 c hc).1
    have hne : c ≠ 0 := by omega
    simp [hne]
  have hlength : (net.perform action).2.channels.length = net.channels.length := by
    rw [hperform, length_setQueue]
  have hcancelled : ∀ j, (net.perform action).2.isCancelled j = net.isCancelled j := by
    intro j
    rw [hperform, isCancelled_setQueue]
  have hworkers : (net.perform action).2.workers = net.workers := by rw [hperform]; rfl
  constructor
  case shape =>
    rw [hsplits]
    exact h.shape.keep hlength hcancelled (by rw [hworkers])
  case content =>
    refine h.content.give entry none [0] ?_ nofun hedge ?_ ?_ ?_ hlength hreached ?_ hsplits
    · simpa using hopen
    · intro c hc
      rw [List.mem_singleton] at hc
      subst hc
      exact ⟨h.shape.nonempty, by rw [hperform, hqueue, if_pos rfl]⟩
    · intro j hj _
      rw [hperform, hqueue, if_neg (by simpa using hj)]
    · intro j _
      rw [isForwarding_of_workers_eq hworkers]
    · funext j
      simp [Record.next, hpopped]

theorem Tree.refuse (h : Tree net record) {action : Action}
    (hperform : (net.perform action).2 = net) (hpopped : ∀ j, net.popped action j = [])
    (hcopied : ∀ j, net.copied action j = []) :
    Tree (net.perform action).2 (record.next net action) := by
  refine h.idle ?_ ?_ ?_ ?_ hpopped hcopied
  all_goals simp only [hperform]
  · exact h.shape
  · exact fun _ => trivial

/-- Writing to the first queue is permitted, whether or not it is refused. -/
theorem Tree.attempt (h : Tree net record) {action : Action} {entry : Entry Value}
    (hperform : (net.perform action).2 = net.setQueue 0 ((net.queue 0).accept entry))
    (hpopped : ∀ j, net.popped action j = []) (hcopied : ∀ j, net.copied action j = []) :
    Tree (net.perform action).2 (record.next net action) := by
  cases hclosed : (net.queue 0).inputClosed with
  | true =>
    rw [Queue.accept_of_closed hclosed, setQueue_queue] at hperform
    exact h.refuse hperform hpopped hcopied
  | false => exact h.write hclosed hperform hpopped hcopied

theorem perform_pop_of_split (h : Tree net record) {id : Nat} (hsplit : record.splits id ≠ [])
    (waits : Bool) :
    net.perform (.pop id waits) = (.ended, net) := by
  obtain ⟨cs, more, hcons⟩ := List.exists_cons_of_ne_nil hsplit
  have hterminated := (h.content.detached hcons).terminated
  simp [perform, Queue.pop, hterminated, setQueue_queue, Answer.ofReading]

theorem inputClosed_pop (q : Queue Value) (access : Access) :
    (q.pop access).2.inputClosed = q.inputClosed := by
  rcases q.pop_cases access with ⟨_, hpop⟩ | ⟨_, hpop⟩ | ⟨_, hpop⟩ | ⟨v, rest, _, hpop⟩ |
    ⟨rest, _, hpop⟩ <;> rw [hpop]

/-- A read of a queue that was not split takes a value from the front, or none. -/
theorem perform_pop_of_whole {id : Nat} (hwell : (net.queue id).WellFormed) (waits : Bool) :
    ∃ reading left, net.perform (.pop id waits) =
      (.ofReading .value reading, net.setQueue id left) ∧ left.WellFormed ∧
      left.inputClosed = (net.queue id).inputClosed ∧
      (net.queue id).values = (Queue.Reply.ofReading reading).values ++ left.values := by
  let access : Access := if waits then .patient (net.fuse id) else .immediate
  rcases hpop : (net.queue id).pop access with ⟨reading, left⟩
  have hclosed := inputClosed_pop (net.queue id) access
  have hconserves := Queue.conserves_of_does hwell (Queue.does_pop (net.queue id) access)
  rw [hpop] at hclosed
  rw [Queue.perform_pop hpop] at hconserves
  obtain ⟨hleft, hvalues⟩ := hconserves
  refine ⟨reading, left, ?_, hleft, hclosed, (List.append_nil _).symm.trans hvalues⟩
  simp only [perform]
  rw [hpop]

theorem tree_pop (h : Tree net record) {id : Nat} (hid : id < net.channels.length) (waits : Bool) :
    Tree (net.perform (.pop id waits)).2 (record.next net (.pop id waits)) := by
  by_cases hsplit : record.splits id = []
  · obtain ⟨hwell, _⟩ := h.content.whole hsplit
    obtain ⟨reading, left, hperform, hleft, hclosed, hvalues⟩ := perform_pop_of_whole hwell waits
    have hqueue : ∀ j, (net.perform (.pop id waits)).2.queue j =
        if j = id then left else net.queue j := by
      intro j
      rw [hperform, queue_setQueue net hid]
    have hworkers : (net.perform (.pop id waits)).2.workers = net.workers := by rw [hperform]; rfl
    have hlength : (net.perform (.pop id waits)).2.channels.length = net.channels.length := by
      rw [hperform, length_setQueue]
    have hcancelled : ∀ j, (net.perform (.pop id waits)).2.isCancelled j = net.isCancelled j := by
      intro j
      rw [hperform, isCancelled_setQueue]
    have hsplits : (record.next net (.pop id waits)).splits = record.splits := by
      funext j
      simp [Record.next, copied]
    have htaken : ∀ j, (record.next net (.pop id waits)).taken j =
        record.taken j ++ if j = id then (Queue.Reply.ofReading reading).values else [] := by
      intro j
      refine congrArg (record.taken j ++ ·) ?_
      simp only [popped, hperform]
      cases reading <;> simp [Answer.ofReading, Queue.Reply.ofReading, Queue.Reply.values, eq_comm]
    have hreached : (record.next net (.pop id waits)).reached = record.reached := by
      funext j
      have hadded : net.added (.pop id waits) j = [] := by
        by_cases hj : j = id
        · subst hj
          refine added_of_length_le ?_
          rw [hqueue, if_pos rfl, hvalues]
          simp
        · exact added_of_queue_eq (by rw [hqueue, if_neg hj])
      simp [Record.next, hadded]
    constructor
    case shape =>
      rw [hsplits]
      exact h.shape.keep hlength hcancelled (by rw [hworkers])
    case content =>
      exact h.content.take hid hsplit hleft hvalues hclosed hqueue
        (isForwarding_of_workers_eq hworkers) hlength hreached htaken hsplits
  · have hperform := perform_pop_of_split h hsplit waits
    refine h.refuse (by rw [hperform]) (fun j => ?_) fun _ => rfl
    simp [popped, hperform]

/-- Nothing has ended a copy as long as there is a worker that forwards to it. -/
theorem Tree.open_of_forwarding (h : Tree net record) {source c : Nat} {targets : List Nat}
    {more : List (List Nat)} (hsource : record.splits source = targets :: more)
    (hforwarding : net.isForwarding source = true) (hc : c ∈ targets) :
    (net.queue c).inputClosed = false := by
  rw [(h.content.fed hsource hc).2, hforwarding]
  rfl

theorem added_forward (h : Tree net record) {index source : Nat} {targets : List Nat}
    {more : List (List Nat)} {entry : Entry Value}
    (hsource : record.splits source = targets :: more)
    (hforwarded : Forwarded net (net.advance index) source targets entry) (j : Nat) :
    net.added (.advance index) j = if j ∈ targets then entry.values else [] := by
  obtain ⟨hbefore, _, rest, hunread, hqueue⟩ := hforwarded
  by_cases hj : j = source
  · subst hj
    have hleft := (hqueue j).trans (if_pos rfl)
    have hvalues := ((hbefore ▸ h.content.detached hsource).receive hunread).2
    have hlength : ((net.advance index).queue j).values.length ≤ (net.queue j).values.length := by
      rw [hleft, hvalues]
      simp [Queue.values]
    rw [if_neg (h.shape.notMem hsource)]
    exact added_of_length_le hlength
  · have hnext := (hqueue j).trans (if_neg hj)
    by_cases hmem : j ∈ targets
    · rw [if_pos hmem] at hnext ⊢
      have hvalues := h.values_accept (h.open_of_forwarding hsource hbefore hmem) entry
      rw [← hnext] at hvalues
      exact added_of_values_eq hvalues
    · rw [if_neg hmem] at hnext ⊢
      exact added_of_queue_eq hnext

theorem tree_advance (h : Tree net record) (index : Nat) :
    Tree (net.perform (.advance index)).2 (record.next net (.advance index)) := by
  obtain ⟨hshape, hlength, hidle | ⟨source, targets, more, entry, hsource, hforwarded⟩⟩ :=
    advance_cases h.shape index
  · exact h.idle hshape hlength hidle.1 hidle.2 (fun _ => rfl) fun _ => rfl
  have hreached : ∀ j, (record.next net (.advance index)).reached j =
      record.reached j ++ if j ∈ targets then entry.values else [] :=
    fun j => congrArg (record.reached j ++ ·) (added_forward h hsource hforwarded j)
  obtain ⟨hbefore, hafter, rest, hunread, hqueue⟩ := hforwarded
  have hsplits : (record.next net (.advance index)).splits = record.splits := by
    funext j
    simp [Record.next, copied]
  have hcopies := (h.shape.copies source targets (by simp [hsource])).2
  have hnot := h.shape.notMem hsource
  have htargets : ∀ c ∈ targets, (net.advance index).queue c = (net.queue c).accept entry := by
    intro c hc
    have hne : c ≠ source := fun heq => hnot (heq ▸ hc)
    rw [hqueue, if_neg hne, if_pos hc]
  have hother : ∀ j, j ∉ targets → some source ≠ some j →
      (net.advance index).queue j = net.queue j := by
    intro j hj hne
    rw [hqueue, if_neg fun heq => hne (congrArg some heq.symm), if_neg hj]
  constructor
  case shape =>
    rw [hsplits]
    exact hshape
  case content =>
    refine h.content.give entry (some source) targets
      (fun _ => h.open_of_forwarding hsource hbefore) ?_ ?_ ?_ hother ?_ hlength hreached ?_ hsplits
    · intro q hq
      cases hq
      exact ⟨hnot, by simp [hsource], hbefore, (hafter source).trans (if_pos rfl), rest, hunread,
        (hqueue source).trans (if_pos rfl)⟩
    · intro q cs more' c hq hc
      constructor
      · intro hmem
        rw [h.shape.unique hsource hq hmem hc]
      · intro hs
        cases hs
        rw [hsource, List.cons.injEq] at hq
        exact hq.1 ▸ hc
    · exact fun c hc => ⟨(hcopies c hc).2, htargets c hc⟩
    · intro j hj
      exact (hafter j).trans (if_neg fun heq => hj (congrArg some heq.symm))
    · funext j
      simp [Record.next, popped]

theorem isFinished_of_split (h : Tree net record) {id : Nat} (hsplit : record.splits id ≠ []) :
    (net.queue id).isFinished = true := by
  obtain ⟨cs, more, hcons⟩ := List.exists_cons_of_ne_nil hsplit
  rw [Queue.isFinished, (h.content.detached hcons).terminated, Bool.true_or]

theorem isForwarding_of_whole (h : Shape net record.splits) {id : Nat}
    (hwhole : record.splits id = []) :
    net.isForwarding id = false := by
  by_contra hforwarding
  obtain ⟨targets, hworker⟩ := isForwarding_iff.mp (Bool.not_eq_false _ ▸ hforwarding)
  rcases h.workers _ hworker with ⟨_, _, _, hrelay⟩ | ⟨_, _, more, hforward, hsplits⟩
  · cases hrelay
  · cases hforward
    simp [hwhole] at hsplits

/-! ### Splits -/

theorem splits_next_split (record : Record) (net : Network) (id count j : Nat) :
    (record.next net (.split id count)).splits j =
      record.splits j ++
        if j = id then [(List.range count).map (net.channels.length + ·)] else [] := by
  simp [Record.next, copied, eq_comm]

theorem mem_splits_next_split {id count q : Nat} {cs : List Nat}
    (hcs : cs ∈ (record.next net (.split id count)).splits q) :
    cs ∈ record.splits q ∨ q = id ∧ cs = (List.range count).map (net.channels.length + ·) := by
  rw [splits_next_split, List.mem_append] at hcs
  by_cases hq : q = id
  · simpa [hq] using hcs
  · simpa [hq] using hcs

/-- A first split of a queue shows after another action as it was. -/
theorem splits_next_of_cons {action : Action} {q : Nat} {cs : List Nat} {more : List (List Nat)}
    (h : record.splits q = cs :: more) :
    (record.next net action).splits q = cs :: (more ++ net.copied action q) := by
  simp [Record.next, h]

theorem splits_of_next_split {id count q : Nat} {cs : List Nat} {more : List (List Nat)}
    (hq : (record.next net (.split id count)).splits q = cs :: more) :
    (∃ rest, record.splits q = cs :: rest) ∨ q = id ∧
    cs = (List.range count).map (net.channels.length + ·) := by
  cases hbefore : record.splits q with
  | nil =>
    rcases mem_splits_next_split (hq ▸ List.mem_cons_self) with hold | hnew
    · simp [hbefore] at hold
    · exact .inr hnew
  | cons ds rest =>
    rw [splits_next_of_cons hbefore, List.cons.injEq] at hq
    exact .inl ⟨rest, by rw [hq.1]⟩

theorem whole_of_not_finished (h : Tree net record) {id : Nat}
    (hfinished : ¬ (net.queue id).isFinished = true) :
    record.splits id = [] := by
  by_contra hsplit
  exact hfinished (isFinished_of_split h hsplit)

theorem shape_split (h : Tree net record) {id : Nat} (hid : id < net.channels.length)
    (count : Nat) :
    Shape (net.split id count) (record.next net (.split id count)).splits := by
  have hsplits := splits_next_split record net id count
  have hlength := length_split net id count
  have hshape := h.shape
  constructor
  case nonempty =>
    rw [hlength]
    exact Nat.lt_add_right count hshape.nonempty
  case unfired => exact isCancelled_split net hid count hshape.unfired
  case fresh =>
    intro j hj
    have hne : j ≠ id := by omega
    rw [hsplits, hshape.fresh j (by omega), if_neg hne, List.append_nil]
  case copies =>
    intro q cs hcs
    rw [hlength]
    rcases mem_splits_next_split hcs with hold | ⟨rfl, rfl⟩
    · obtain ⟨hnodup, hcopies⟩ := hshape.copies q cs hold
      refine ⟨hnodup, fun c hc => ?_⟩
      obtain ⟨hlt, hlt'⟩ := hcopies c hc
      exact ⟨hlt, by omega⟩
    · refine ⟨List.nodup_range.map (fun i j hij => by simpa using hij), fun c hc => ?_⟩
      rw [mem_copies] at hc
      omega
  case unique =>
    intro p q ps qs ms ns c hp hq hcp hcq
    have hold : ∀ {r rs rest}, record.splits r = rs :: rest → c ∈ rs → c < net.channels.length := by
      intro r rs rest hr hc
      exact ((hshape.copies r rs (by simp [hr])).2 c hc).2
    rcases splits_of_next_split hp with ⟨rest, hps⟩ | ⟨rfl, rfl⟩ <;>
      rcases splits_of_next_split hq with ⟨rest', hqs⟩ | ⟨hq', rfl⟩
    · exact hshape.unique hps hqs hcp hcq
    · have hlt := hold hps hcp
      rw [mem_copies] at hcq
      omega
    · have hlt := hold hqs hcq
      rw [mem_copies] at hcp
      omega
    · exact hq'.symm
  case origin =>
    intro c hc hlt
    rw [hlength] at hlt
    by_cases hcold : c < net.channels.length
    · obtain ⟨q, cs, hcs, hmemc⟩ := hshape.origin c hc hcold
      exact ⟨q, cs, by rw [hsplits]; exact List.mem_append_left _ hcs, hmemc⟩
    · refine ⟨id, (List.range count).map (net.channels.length + ·), ?_, ?_⟩
      · rw [hsplits]
        simp
      · rw [mem_copies]
        omega
  case nodup =>
    rw [forwarding_split]
    split
    · rw [List.append_nil]
      exact hshape.nodup
    · next hfinished =>
      have hnot := isForwarding_of_whole hshape (whole_of_not_finished h hfinished)
      rw [isForwarding, List.contains_eq_mem, decide_eq_false_iff_not] at hnot
      exact List.nodup_append_comm.mp (List.nodup_cons.mpr ⟨hnot, hshape.nodup⟩)
  case workers =>
    intro worker hworker
    rw [workers_split, List.mem_append, List.mem_append] at hworker
    rcases hworker with hold | hforward | hrelay
    · rcases hshape.workers worker hold with hrelay | ⟨source, targets, more, rfl, hsource⟩
      · exact .inl hrelay
      · exact .inr ⟨source, targets, _, rfl, splits_next_of_cons hsource⟩
    · split at hforward
      · cases hforward
      · next hfinished =>
        rw [List.mem_singleton] at hforward
        refine .inr ⟨id, _, [], hforward, ?_⟩
        simp [hsplits, whole_of_not_finished h hfinished]
    · obtain ⟨kind, _, rfl⟩ := List.mem_map.mp hrelay
      exact .inl ⟨kind, id, _, rfl⟩

/-- A split puts something only into the queues that it makes. -/
theorem added_split (net : Network) {id : Nat} (hid : id < net.channels.length) (count j : Nat) :
    net.added (.split id count) j =
      if net.channels.length ≤ j ∧ j < net.channels.length + count then
        (net.queue id).replica.values else [] := by
  have hperform : (net.perform (.split id count)).2 = net.split id count := rfl
  by_cases hold : j < net.channels.length
  · rw [if_neg (by omega)]
    have hqueue := queue_split_of_lt net hid count hold
    by_cases hj : j = id
    · rw [if_pos hj] at hqueue
      refine added_of_length_le ?_
      rw [hperform, hqueue, hj]
      exact Queue.length_values_detached_le _
    · exact added_of_queue_eq (hqueue.trans (if_neg hj))
  · by_cases hlt : j < net.channels.length + count
    · rw [if_pos ⟨by omega, hlt⟩]
      refine added_of_values_eq ?_
      rw [hperform, queue_split_of_copy net id count (by omega) hlt,
        queue_of_ge (Nat.le_of_not_lt hold)]
      rfl
    · rw [if_neg (by omega)]
      exact added_of_queue_eq (queue_split_of_ge net id count (by omega))

theorem isForwarding_split (net : Network) (id count j : Nat) :
    (net.split id count).isForwarding j =
      (net.isForwarding j || (!(net.queue id).isFinished && decide (j = id))) := by
  unfold isForwarding
  rw [forwarding_split, List.contains_append]
  cases (net.queue id).isFinished <;> simp

theorem tree_split (h : Tree net record) {id : Nat} (hid : id < net.channels.length) (count : Nat) :
    Tree (net.perform (.split id count)).2 (record.next net (.split id count)) := by
  have hperform : (net.perform (.split id count)).2 = net.split id count := rfl
  rw [hperform]
  refine ⟨shape_split h hid count, ?_⟩
  have hlength := length_split net id count
  have hsplits := splits_next_split record net id count
  have hqueue : ∀ j < net.channels.length, (net.split id count).queue j =
      if j = id then (net.queue id).detached else net.queue j :=
    fun j => queue_split_of_lt net hid count
  have hcopy : ∀ j, net.channels.length ≤ j → j < net.channels.length + count →
      (net.split id count).queue j = (net.queue id).replica :=
    fun j => queue_split_of_copy net id count
  have hnew : ∀ j, net.channels.length + count ≤ j → (net.split id count).queue j = net.queue j :=
    fun j => queue_split_of_ge net id count
  have htaken : (record.next net (.split id count)).taken = record.taken := by
    funext j
    simp [Record.next, popped]
  have hreached : ∀ j, (record.next net (.split id count)).reached j = record.reached j ++
      if net.channels.length ≤ j ∧ j < net.channels.length + count then
        (net.queue id).replica.values else [] :=
    fun j => congrArg (record.reached j ++ ·) (added_split net hid count j)
  by_cases hsplit : record.splits id = []
  · obtain ⟨hwell, _⟩ := h.content.whole hsplit
    have hforwarding : ∀ j, (net.split id count).isForwarding j =
        if j = id then !(net.queue id).inputClosed else net.isForwarding j := by
      intro j
      rw [isForwarding_split, hwell.isFinished_eq]
      by_cases hj : j = id
      · simp [hj, isForwarding_of_whole h.shape hsplit]
      · simp [hj]
    rw [hwell.replica.2.1] at hreached
    exact h.content.splitWhole h.shape hid hsplit hforwarding hqueue hcopy hnew hlength hreached
      htaken hsplits
  · have hfinished := isFinished_of_split h hsplit
    obtain ⟨cs, more, hcons⟩ := List.exists_cons_of_ne_nil hsplit
    have hterminated := (h.content.detached hcons).terminated
    have hkept : ∀ j < net.channels.length, (net.split id count).queue j = net.queue j := by
      intro j hj
      rw [hqueue j hj]
      split
      · next heq => rw [Queue.detached, if_pos hterminated, heq]
      · rfl
    have hnone : (net.queue id).replica = .ofValues [] := by
      rw [Queue.replica, hfinished, if_pos hterminated, if_pos rfl]
    have hforwarding : (net.split id count).isForwarding = net.isForwarding := by
      funext j
      simp [isForwarding_split, hfinished]
    have hnothing : (Queue.ofValues ([] : List Value)).values = [] := rfl
    have hsame : (record.next net (.split id count)).reached = record.reached := by
      funext j
      simp [hreached, hnone, hnothing]
    rw [hnone] at hcopy
    exact h.content.splitAgain h.shape hsplit hforwarding hkept hcopy hnew hlength hsame htaken
      hsplits

/-! ### Every run -/

theorem tree_perform (h : Tree net record) {action : Action} (hpermits : net.Permits action) :
    Tree (net.perform action).2 (record.next net action) := by
  cases action with
  | push id v =>
    cases hpermits
    exact h.attempt (perform_push net 0 v) (fun _ => rfl) fun _ => rfl
  | terminate id =>
    cases hpermits
    exact h.attempt (perform_terminate net 0) (fun _ => rfl) fun _ => rfl
  | pop id waits => exact tree_pop h hpermits waits
  | split id count => exact tree_split h hpermits count
  | advance index => exact tree_advance h index
  | _ => exact hpermits.elim

theorem tree_after (h : Tree net record) {history : List Action}
    (hpermits : net.PermitsAll history) :
    Tree (net.performAll history) (record.after net history) := by
  induction history generalizing net record with
  | nil => exact h
  | cons action history ih => exact ih (tree_perform h hpermits.1) hpermits.2

end QueryShell.Network
