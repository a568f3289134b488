import QueryShell.Proofs.Channel.Slots
import QueryShell.Proofs.Channel.Tree

/-! Slots that are written, relayed and broadcast to the copies of split channels, in any order,
while each relay takes its step at any time. -/

namespace QueryShell

/-- What may be done with the slots of a network. A relay is at work until the slot that it copies
is set. -/
inductive SlotAction where
  | assign (channel : Nat) (kind : SlotKind) (content : kind.Content)
  | fillDefaults (channel : Nat)
  | relay (kind : SlotKind) (source : Nat) (targets : List Nat)
  | split (channel count : Nat)
  | advance (worker : Nat)

/-- Whether an action asks for something to be written to the slots of a channel. -/
def SlotAction.Writes (c : Nat) : SlotAction → Prop
  | .assign id _ _ => id = c
  | .fillDefaults id => id = c
  | .relay _ _ targets => c ∈ targets
  | .split _ _ => False
  | .advance _ => False

/-- No slot of a channel is written by the worker. -/
def Worker.Spares (c : Nat) : Worker → Prop
  | .forward _ _ => True
  | .relay _ _ targets => c ∉ targets
  | .stage _ => False

namespace Network

/-- Any channels under any tokens, between which nothing is at work. -/
def idle (tokens : List Bool) (runtime : Nat) (channels : List Channel) : Network :=
  ⟨tokens, runtime, channels, []⟩

def act (net : Network) : SlotAction → Network
  | .assign id kind content => (net.perform (.assign id kind content)).2
  | .fillDefaults id => (net.perform (.fillDefaults id)).2
  | .relay kind source targets => net.employ [.relay kind source targets]
  | .split id count => (net.perform (.split id count)).2
  | .advance worker => (net.perform (.advance worker)).2

def actAll (net : Network) : List SlotAction → Network
  | [] => net
  | action :: rest => actAll (net.act action) rest

variable {net next : Network} {kind : SlotKind} {content : kind.Content} {source c index : Nat}
    {targets : List Nat}

theorem actAll_append (net : Network) (earlier later : List SlotAction) :
    net.actAll (earlier ++ later) = (net.actAll earlier).actAll later := by
  induction earlier generalizing net with
  | nil => rfl
  | cons action earlier ih => exact ih (net.act action)

theorem keptBy_act (net : Network) (action : SlotAction) : net.KeptBy (net.act action) := by
  cases action with
  | relay kind source targets => exact .of_channels_eq rfl
  | assign | fillDefaults | split | advance => exact keptBy_perform net _

theorem keptBy_actAll (net : Network) (history : List SlotAction) :
    net.KeptBy (net.actAll history) := by
  induction history generalizing net with
  | nil => exact .refl net
  | cons action history ih => exact (keptBy_act net action).trans (ih _)

theorem act_assign (net : Network) (id : Nat) (kind : SlotKind) (content : kind.Content) :
    net.act (.assign id kind content) = net ∨
      ∃ slots, net.act (.assign id kind content) = net.update id fun c =>
        { c with slots := slots } := by
  rw [act, perform]
  cases (net.slots id).assign kind content with
  | error e => exact .inl rfl
  | ok slots => exact .inr ⟨slots, rfl⟩

/-! ### What a relay changes -/

theorem slots_update_of_ne (net : Network) {id j : Nat} (change : Channel → Channel) (hj : j ≠ id) :
    (net.update id change).slots j = net.slots j := by
  unfold slots channel update
  rw [List.getElem?_modify_ne change _ (Ne.symm hj)]

theorem slots_update_supply (net : Network) (id : Nat) (content : kind.Content) (j : Nat) :
    (net.update id fun c => { c with slots := c.slots.supply kind content }).slots j =
      if j = id then (net.slots j).supply kind content else net.slots j := by
  by_cases hj : j < net.channels.length
  · by_cases hid : j = id
    · subst hid
      rw [slots, channel_update net j _ hj, if_pos rfl, if_pos rfl]
      rfl
    · rw [slots_update_of_ne net _ hid, if_neg hid]
  · -- what does not exist reads as a channel whose slots are all set
    have hfull : ∀ net : Network, net.channels.length ≤ j → net.slots j = .ofNamespaces .empty := by
      intro net hge
      rw [slots, channel, List.getElem?_eq_none hge]
      rfl
    have hsupply : (Slots.ofNamespaces .empty).supply kind content = .ofNamespaces .empty := by
      cases kind <;> rfl
    have hge := Nat.le_of_not_lt hj
    rw [hfull net hge, hfull _ (by rwa [length_update]), hsupply, ite_self]

theorem slots_publish (net : Network) (content : kind.Content) (targets : List Nat) (j : Nat) :
    (net.publish kind content targets).slots j =
      if j ∈ targets then (net.slots j).supply kind content else net.slots j := by
  unfold publish updateAll
  induction targets generalizing net with
  | nil => simp
  | cons id targets ih =>
    rw [List.foldl_cons, ih, slots_update_supply]
    by_cases hid : j = id
    · have hset : ((net.slots j).supply kind content).isSet kind = true := by
        rw [Slots.isSet, Slots.get?_supply_self, Option.isSome_or, Option.isSome_some, Bool.or_true]
      have htwice : ((net.slots j).supply kind content).supply kind content =
          (net.slots j).supply kind content := by
        rw [Slots.supply, if_pos hset]
      rw [if_pos hid, htwice, ite_self, if_pos (by simp [hid])]
    · simp [hid]

/-- Every target whose slot was unset has the content now, and nothing else has changed. -/
structure Relayed (net next : Network) (kind : SlotKind) (content : kind.Content)
    (targets : List Nat) : Prop where
  given : ∀ j ∈ targets, (next.slots j).get? kind = ((net.slots j).get? kind).or (some content)
  otherKinds : ∀ j, ∀ other ≠ kind, (next.slots j).get? other = (net.slots j).get? other
  otherChannels : ∀ j ∉ targets, next.slots j = net.slots j
  queues : ∀ j, next.queue j = net.queue j

theorem relayed_publish (net : Network) (content : kind.Content) (targets : List Nat) :
    net.Relayed (net.publish kind content targets) kind content targets where
  given := by
    intro j hj
    rw [slots_publish, if_pos hj, Slots.get?_supply_self]
  otherKinds := by
    intro j other hother
    rw [slots_publish]
    split
    · exact Slots.get?_supply_of_ne _ content hother
    · rfl
  otherChannels := by
    intro j hj
    rw [slots_publish, if_neg hj]
  queues := queue_publish net kind content targets

theorem Relayed.of_channels_eq (h : net.Relayed next kind content targets) {last : Network}
    (hchannels : last.channels = next.channels) : net.Relayed last kind content targets := by
  have hslots : ∀ j, last.slots j = next.slots j := by
    intro j
    rw [slots, slots, channel, channel, hchannels]
  have hqueue : ∀ j, last.queue j = next.queue j := by
    intro j
    rw [queue, queue, channel, channel, hchannels]
  refine ⟨fun j hj => ?_, fun j other hother => ?_, fun j hj => ?_, fun j => ?_⟩
  · rw [hslots, h.given j hj]
  · rw [hslots, h.otherKinds j other hother]
  · rw [hslots, h.otherChannels j hj]
  · rw [hqueue, h.queues]

/-- A write to an unset slot sets that slot and no other. -/
theorem relayed_assign {id : Nat} (hid : id < net.channels.length)
    (hunset : (net.slots id).get? kind = none) (content : kind.Content) :
    (net.perform (.assign id kind content)).1 = .done ∧
      net.Relayed (net.perform (.assign id kind content)).2 kind content [id] := by
  rw [perform, Slots.assign_of_unset hunset]
  have hslots : ∀ j,
      (net.update id fun c => { c with slots := (net.slots id).put kind content }).slots j =
        if j = id then (net.slots id).put kind content else net.slots j := by
    intro j
    rw [slots, channel_update net id _ hid]
    split <;> rfl
  refine ⟨rfl, fun j hj => ?_, fun j other hother => ?_, fun j hj => ?_, fun j => ?_⟩
  · obtain rfl := List.mem_singleton.mp hj
    rw [hslots, if_pos rfl, Slots.get?_put_self, hunset]
    rfl
  · rw [hslots]
    split
    · next hj => rw [Slots.get?_put_of_ne _ content hother, hj]
    · rfl
  · rw [hslots, if_neg (List.mem_singleton.not.mp hj)]
  · exact apply_channel_update Channel.queue (by intro c; rfl) net id j

/-- A relay of one kind whose slot is set. -/
theorem relayed_relay (hset : (net.slots source).get? kind = some content) (targets : List Nat) :
    net.Relayed (net.perform (.relay source [kind] targets)).2 kind content targets := by
  have hrelay : net.relay source [kind] targets = net.publish kind content targets := by
    rw [relay, List.foldl_cons, List.foldl_nil, hset]
  rw [perform, hrelay]
  exact relayed_publish net content targets

/-! ### What a step of a worker changes -/

/-- All that a step can do to the slots and the relays of a network without stages. -/
inductive Advanced (net : Network) (index : Nat) : Network → Prop where
  | rested : Advanced net index net
  | moved {next : Network} (slots : ∀ j, next.slots j = net.slots j)
      (cancelled : ∀ j, next.isCancelled j = net.isCancelled j)
      (workers : ∀ worker ∈ next.workers, worker ∈ net.workers)
      (relays : ∀ kind source targets, .relay kind source targets ∈ net.workers →
        .relay kind source targets ∈ next.workers) : Advanced net index next
  | published {kind : SlotKind} {source : Nat} {targets : List Nat} {content : kind.Content}
      (worker : net.workers[index]? = some (.relay kind source targets))
      (set : (net.slots source).get? kind = some content) :
      Advanced net index
        { net.publish kind content targets with workers := net.workers.eraseIdx index }
  | dropped {kind : SlotKind} {source : Nat} {targets : List Nat}
      (worker : net.workers[index]? = some (.relay kind source targets))
      (unset : (net.slots source).get? kind = none) (fired : net.isCancelled source = true) :
      Advanced net index { net with workers := net.workers.eraseIdx index }

theorem step_relay_of_set (hset : (net.slots source).get? kind = some content)
    (targets : List Nat) :
    net.step (.relay kind source targets) = some (net.publish kind content targets, none) := by
  rw [step, Slots.read_of_set hset]

theorem step_relay_of_unset (hunset : (net.slots source).get? kind = none) (targets : List Nat) :
    net.step (.relay kind source targets) =
      if net.isCancelled source then some (net, none) else none := by
  rw [step, Slots.read, hunset]
  cases net.isCancelled source <;> rfl

theorem advance_relay_of_set (hworker : net.workers[index]? = some (.relay kind source targets))
    (hset : (net.slots source).get? kind = some content) :
    net.advance index =
      { net.publish kind content targets with workers := net.workers.eraseIdx index } := by
  rw [advance_of_step hworker, step_relay_of_set hset]

theorem advance_relay_of_unset (hworker : net.workers[index]? = some (.relay kind source targets))
    (hunset : (net.slots source).get? kind = none) :
    net.advance index =
      if net.isCancelled source then { net with workers := net.workers.eraseIdx index }
      else net := by
  rw [advance_of_step hworker, step_relay_of_unset hunset]
  cases net.isCancelled source <;> rfl

theorem mem_eraseIdx_of_ne {worker other : Worker} (hworker : net.workers[index]? = some worker)
    (hother : other ∈ net.workers) (hne : other ≠ worker) : other ∈ net.workers.eraseIdx index := by
  obtain ⟨before, after, hworkers, herase⟩ := exists_workers_eq hworker
  rw [hworkers, List.mem_append, List.mem_cons] at hother
  rw [herase, List.mem_append]
  rcases hother with hbefore | heq | hafter
  · exact .inl hbefore
  · exact absurd heq hne
  · exact .inr hafter

theorem slots_setQueue (net : Network) (id : Nat) (q : Queue Value) (j : Nat) :
    (net.setQueue id q).slots j = net.slots j := by
  unfold slots setQueue
  exact apply_channel_update Channel.slots (by intro c; rfl) net id j

theorem slots_spread (net : Network) (entry : Entry Value) (targets : List Nat) (j : Nat) :
    (net.spread entry targets).slots j = net.slots j := by
  unfold slots spread
  exact apply_channel_updateAll Channel.slots (by intro c; rfl) net targets j

/-- What a worker that forwards values does is not seen in the slots. -/
theorem step_forward_cases {left : Option Worker}
    (h : net.step (.forward source targets) = some (next, left)) :
    (∀ j, next.slots j = net.slots j ∧ next.isCancelled j = net.isCancelled j) ∧
      (left = none ∨ left = some (.forward source targets)) := by
  rw [step] at h
  split at h
  · cases h
    refine ⟨fun j => ⟨slots_spread .., ?_⟩, .inl rfl⟩
    unfold spread
    exact isCancelled_updateAll (by intro c; rfl) net targets j
  · split at h
    · cases h
    · cases h
      exact ⟨fun j => ⟨(slots_spread ..).trans (slots_setQueue ..), isCancelled_forward ..⟩,
        .inl rfl⟩
    · cases h
      exact ⟨fun j => ⟨(slots_spread ..).trans (slots_setQueue ..), isCancelled_forward ..⟩,
        .inr rfl⟩

theorem advanced_forward (hworker : net.workers[index]? = some (.forward source targets)) :
    net.Advanced index (net.advance index) := by
  rw [advance_of_step hworker]
  rcases hstep : net.step (.forward source targets) with _ | ⟨after, left⟩
  · exact .rested
  · obtain ⟨hunseen, rfl | rfl⟩ := step_forward_cases hstep
    · refine .moved (fun j => (hunseen j).1) (fun j => (hunseen j).2)
        (fun worker hmem => List.mem_of_mem_eraseIdx hmem) fun kind source targets hmem => ?_
      exact mem_eraseIdx_of_ne hworker hmem Worker.noConfusion
    · obtain ⟨hindex, hget⟩ := List.getElem?_eq_some_iff.mp hworker
      have hset : net.workers.set index (.forward source targets) = net.workers := by
        rw [← hget, List.set_getElem_self]
      simp only [hset]
      exact .moved (fun j => (hunseen j).1) (fun j => (hunseen j).2) (fun worker hmem => hmem)
        fun kind source targets hmem => hmem

theorem advanced_advance (hstages : ∀ stage, .stage stage ∉ net.workers) (index : Nat) :
    net.Advanced index (net.advance index) := by
  cases hworker : net.workers[index]? with
  | none =>
    rw [advance, hworker]
    exact .rested
  | some worker =>
    cases worker with
    | forward source targets => exact advanced_forward hworker
    | relay kind source targets =>
      cases hget : (net.slots source).get? kind with
      | some content =>
        rw [advance_relay_of_set hworker hget]
        exact .published hworker hget
      | none =>
        rw [advance_relay_of_unset hworker hget]
        split
        · next hfired => exact .dropped hworker hget hfired
        · exact .rested
    | stage stage => exact absurd (List.mem_of_getElem? hworker) (hstages stage)

/-! ### The copies of a split -/

/-- How a slot of a copy stands to the slot of the channel that was split: it has been copied, a
relay still has to copy it, or the relay has stopped because there was nothing to copy when the
token had fired. -/
inductive Copied (net : Network) (early : SlotKind → Prop) (source c : Nat) (kind : SlotKind) :
    Prop where
  | copied {content : kind.Content} (copy : (net.slots c).get? kind = some content)
      (original : (net.slots source).get? kind = some content)
  | pending {targets : List Nat} (copy : (net.slots c).get? kind = none) (target : c ∈ targets)
      (relay : .relay kind source targets ∈ net.workers)
  | dropped (copy : (net.slots c).get? kind = none) (fired : net.isCancelled source = true)
    (late : ¬ early kind)

theorem Copied.keep {early : SlotKind → Prop} (h : net.Copied early source c kind)
    (hkept : (net.slots source).KeptBy (next.slots source))
    (hcopy : (next.slots c).get? kind = (net.slots c).get? kind)
    (hcancelled : next.isCancelled source = net.isCancelled source)
    (hrelays : ∀ targets, c ∈ targets → .relay kind source targets ∈ net.workers →
      .relay kind source targets ∈ next.workers) : next.Copied early source c kind := by
  cases h with
  | copied copy original => exact .copied (hcopy.trans copy) (hkept kind _ original)
  | pending copy target relay => exact .pending (hcopy.trans copy) target (hrelays _ target relay)
  | dropped copy fired late => exact .dropped (hcopy.trans copy) (hcancelled.trans fired) late

theorem channel_split_eq (net : Network) (id count : Nat) {j : Nat} (hj : j < net.channels.length) :
    (net.split id count).channel j = (net.setQueue id (net.queue id).detached).channel j := by
  rw [channel, channels_split, List.getElem?_append_left (by rwa [length_setQueue]), channel]

theorem slots_split_of_lt (net : Network) (id count : Nat) {j : Nat}
    (hj : j < net.channels.length) :
    (net.split id count).slots j = net.slots j := by
  rw [slots, channel_split_eq net id count hj]
  exact slots_setQueue ..

theorem isCancelled_split_of_lt (net : Network) (id count : Nat) {j : Nat}
    (hj : j < net.channels.length) :
    (net.split id count).isCancelled j = net.isCancelled j := by
  rw [← isCancelled_setQueue net id (net.queue id).detached, isCancelled,
    channel_split_eq net id count hj]
  rfl

theorem spares_of_mem_split {id count : Nat}
    (hc : ¬ (net.channels.length ≤ c ∧ c < net.channels.length + count)) {worker : Worker}
    (hmem : worker ∈ (net.split id count).workers) : worker ∈ net.workers ∨ worker.Spares c := by
  have htargets : c ∉ (List.range count).map (net.channels.length + ·) := mem_copies.not.mpr hc
  rw [workers_split, List.mem_append, List.mem_append] at hmem
  rcases hmem with hold | hforward | hrelay
  · exact .inl hold
  · split at hforward
    · cases hforward
    · obtain rfl := List.mem_singleton.mp hforward
      exact .inr trivial
  · obtain ⟨kind, _, rfl⟩ := List.mem_map.mp hrelay
    exact .inr htargets

/-- A copy is written by the relays of its split alone. The early kinds are those that were set when
it was made. -/
structure Broadcast (net : Network) (early : SlotKind → Prop) (source c : Nat) : Prop where
  source_lt : source < net.channels.length
  copy_lt : c < net.channels.length
  workers : ∀ worker ∈ net.workers, worker.Spares c ∨
    ∃ kind targets, worker = .relay kind source targets
  present : ∀ kind, early kind → (net.slots source).isSet kind = true
  copied : ∀ kind, net.Copied early source c kind

namespace Broadcast

variable {early : SlotKind → Prop}

theorem of_copied (h : net.Broadcast early source c) (hkept : net.KeptBy next)
    (hworkers : ∀ worker ∈ next.workers, worker ∈ net.workers ∨ worker.Spares c)
    (hcopied : ∀ kind, next.Copied early source c kind) : next.Broadcast early source c where
  source_lt := Nat.lt_of_lt_of_le h.source_lt hkept.length
  copy_lt := Nat.lt_of_lt_of_le h.copy_lt hkept.length
  workers := fun worker hmem => (hworkers worker hmem).elim (h.workers worker) .inl
  present := by
    intro kind hearly
    obtain ⟨content, hcontent⟩ := Option.isSome_iff_exists.mp (h.present kind hearly)
    rw [Slots.isSet, hkept.slots source h.source_lt kind content hcontent]
    rfl
  copied := hcopied

/-- Nothing has to be shown for what leaves the copy and the relays alone. -/
theorem keep (h : net.Broadcast early source c) (hkept : net.KeptBy next)
    (hcopy : next.slots c = net.slots c)
    (hcancelled : next.isCancelled source = net.isCancelled source)
    (hworkers : ∀ worker ∈ next.workers, worker ∈ net.workers ∨ worker.Spares c)
    (hrelays : ∀ kind targets, .relay kind source targets ∈ net.workers →
      .relay kind source targets ∈ next.workers) :
    next.Broadcast early source c :=
  h.of_copied hkept hworkers fun kind =>
    (h.copied kind).keep (hkept.slots source h.source_lt) (by rw [hcopy]) hcancelled
    fun targets _ => hrelays kind targets

theorem published (h : net.Broadcast early source c) {kind : SlotKind} {s : Nat}
    {targets : List Nat} {content : kind.Content}
    (hworker : net.workers[index]? = some (.relay kind s targets))
    (hset : (net.slots s).get? kind = some content) :
    Broadcast { net.publish kind content targets with workers := net.workers.eraseIdx index } early
      source c := by
  have hkept :
      net.KeptBy { net.publish kind content targets with workers := net.workers.eraseIdx index } :=
    (keptBy_publish net kind content targets).trans (.of_channels_eq rfl)
  have hrelayed :
      net.Relayed { net.publish kind content targets with workers := net.workers.eraseIdx index }
        kind content targets :=
    (relayed_publish net content targets).of_channels_eq rfl
  have hcancelled : (net.publish kind content targets).isCancelled source =
      net.isCancelled source :=
    isCancelled_updateAll (by intro c; rfl) net targets source
  refine h.of_copied hkept (fun worker hmem => .inl (List.mem_of_mem_eraseIdx hmem)) fun other => ?_
  have hothers : ∀ others, .relay other source others ∈ net.workers →
      Worker.relay other source others ≠ .relay kind s targets →
        .relay other source others ∈ net.workers.eraseIdx index :=
      fun others => mem_eraseIdx_of_ne hworker
  by_cases htarget : c ∈ targets
  · -- the relay is one of the split
    obtain hspares | ⟨_, _, heq⟩ := h.workers _ (List.mem_of_getElem? hworker)
    · exact absurd htarget hspares
    · cases heq
      by_cases hkind : other = kind
      · subst hkind
        have hgiven := hrelayed.given c htarget
        have hcopy : (net.slots c).get? other = none ∨ (net.slots c).get? other = some content := by
          cases h.copied other with
          | copied copy original => exact .inr (copy.trans (original.symm.trans hset))
          | pending copy _ _ => exact .inl copy
          | dropped copy _ _ => exact .inl copy
        refine .copied (hgiven.trans ?_) (hkept.slots source h.source_lt other content hset)
        rcases hcopy with hcopy | hcopy
        · rw [hcopy, Option.none_or]
        · rw [hcopy, Option.some_or]
      · refine (h.copied other).keep (hkept.slots source h.source_lt)
          (hrelayed.otherKinds c other hkind) hcancelled fun others _ hmem => hothers others hmem ?_
        rintro ⟨⟩
        exact hkind rfl
  · refine (h.copied other).keep (hkept.slots source h.source_lt)
      (by rw [hrelayed.otherChannels c htarget]) hcancelled fun others hmem hrelay =>
        hothers others hrelay ?_
    rintro ⟨⟩
    exact htarget hmem

theorem dropped (h : net.Broadcast early source c) {kind : SlotKind} {s : Nat} {targets : List Nat}
    (hworker : net.workers[index]? = some (.relay kind s targets))
    (hunset : (net.slots s).get? kind = none) (hfired : net.isCancelled s = true) :
    Broadcast { net with workers := net.workers.eraseIdx index } early source c := by
  refine h.of_copied (.of_channels_eq rfl) (fun worker hmem => .inl (List.mem_of_mem_eraseIdx hmem))
    fun other => ?_
  cases h.copied other with
  | copied copy original => exact .copied copy original
  | dropped copy fired late => exact .dropped copy fired late
  | @pending others copy target relay =>
    by_cases heq : Worker.relay other source others = .relay kind s targets
    · cases heq
      refine .dropped copy hfired fun hearly => ?_
      have hset := h.present kind hearly
      rw [Slots.isSet, hunset] at hset
      cases hset
    · exact .pending copy target (mem_eraseIdx_of_ne hworker relay heq)

theorem advance (h : net.Broadcast early source c) (index : Nat) :
    (net.advance index).Broadcast early source c := by
  have hstages : ∀ stage, .stage stage ∉ net.workers := by
    intro stage hmem
    obtain hspares | ⟨_, _, heq⟩ := h.workers _ hmem
    · exact hspares
    · cases heq
  have hkept := keptBy_advance net index
  have hadvanced := advanced_advance hstages index
  generalize net.advance index = next at hkept hadvanced ⊢
  cases hadvanced with
  | rested => exact h
  | moved slots cancelled workers relays =>
    exact h.keep hkept (slots c) (cancelled source) (fun worker hmem => .inl (workers worker hmem))
      fun kind targets => relays kind source targets
  | published worker set => exact h.published worker set
  | dropped worker unset fired => exact h.dropped worker unset fired

theorem act (h : net.Broadcast early source c) {action : SlotAction} (hwrites : ¬ action.Writes c) :
    (net.act action).Broadcast early source c := by
  have hkept := keptBy_act net action
  cases action with
  | assign id kind content =>
    obtain heq | ⟨slots, heq⟩ := act_assign net id kind content
    · rwa [heq]
    · rw [heq] at hkept ⊢
      exact h.keep hkept (slots_update_of_ne net _ (Ne.symm hwrites))
        (isCancelled_update (by intro c; rfl) net id source) (fun worker => .inl)
        fun kind targets hmem => hmem
  | fillDefaults id =>
    exact h.keep hkept (slots_update_of_ne net _ (Ne.symm hwrites))
      (isCancelled_update (by intro c; rfl) net id source) (fun worker => .inl)
      fun kind targets hmem => hmem
  | relay kind s targets =>
    refine h.keep hkept rfl rfl (fun worker hmem => ?_) fun kind targets hmem =>
      List.mem_append_left _ hmem
    obtain hold | hnew := List.mem_append.mp hmem
    · exact .inl hold
    · obtain rfl := List.mem_singleton.mp hnew
      exact .inr hwrites
  | split id count =>
    refine h.keep hkept (slots_split_of_lt net id count h.copy_lt)
      (isCancelled_split_of_lt net id count h.source_lt)
      (fun worker => spares_of_mem_split fun hcopy => Nat.not_lt.mpr hcopy.1 h.copy_lt)
      fun kind targets hmem => ?_
    exact List.mem_append_left _ hmem
  | advance worker => exact h.advance worker

theorem actAll (h : net.Broadcast early source c) {history : List SlotAction}
    (hwrites : ∀ action ∈ history, ¬ action.Writes c) :
    (net.actAll history).Broadcast early source c := by
  induction history generalizing net with
  | nil => exact h
  | cons action history ih =>
    obtain ⟨hfirst, hrest⟩ := List.forall_mem_cons.mp hwrites
    exact ih (h.act hfirst) hrest

theorem get?_source (h : net.Broadcast early source c)
    (hcopy : (net.slots c).get? kind = some content) :
    (net.slots source).get? kind = some content := by
  cases h.copied kind with
  | copied copy original => rw [original, ← copy, hcopy]
  | pending copy _ _ => cases copy.symm.trans hcopy
  | dropped copy _ _ => cases copy.symm.trans hcopy

end Broadcast

/-- No relay has anything to do. -/
def Settled (net : Network) : Prop :=
  ∀ kind source targets, .relay kind source targets ∈ net.workers →
  net.step (.relay kind source targets) = none

theorem Broadcast.get?_of_settled {early : SlotKind → Prop} (h : net.Broadcast early source c)
    (hsettled : net.Settled) (hkind : net.isCancelled source = false ∨ early kind) :
    (net.slots c).get? kind = (net.slots source).get? kind := by
  cases h.copied kind with
  | copied copy original => rw [copy, original]
  | pending copy _ relay =>
    have hstep := hsettled kind source _ relay
    cases horiginal : (net.slots source).get? kind with
    | none => exact copy
    | some content =>
      rw [step_relay_of_set horiginal] at hstep
      cases hstep
  | dropped _ fired late =>
    rcases hkind with hunfired | hearly
    · cases fired.symm.trans hunfired
    · exact absurd hearly late

/-- A relay that takes a step is done. -/
theorem length_workers_advance_lt
    (hworker : net.workers[index]? = some (.relay kind source targets))
    (hstep : net.step (.relay kind source targets) ≠ none) :
    (net.advance index).workers.length < net.workers.length := by
  obtain hnone | ⟨after, hdone, _⟩ := step_relay net kind source targets
  · exact absurd hnone hstep
  · have hindex := (List.getElem?_eq_some_iff.mp hworker).1
    rw [advance_of_step hworker, hdone]
    have hlength := List.length_eraseIdx_of_lt hindex
    simp only [hlength]
    omega

theorem exists_settled (net : Network) :
    ∃ schedule : List Nat, (net.actAll (schedule.map .advance)).Settled := by
  induction hsize : net.workers.length using Nat.strongRecOn generalizing net with
  | ind size ih =>
    by_cases hsettled : net.Settled
    · exact ⟨[], hsettled⟩
    · simp only [Settled, not_forall] at hsettled
      obtain ⟨kind, source, targets, hworker, hstep⟩ := hsettled
      obtain ⟨index, hindex⟩ := List.mem_iff_getElem?.mp hworker
      have hless := length_workers_advance_lt hindex hstep
      obtain ⟨schedule, hschedule⟩ := ih _ (hsize ▸ hless) (net.advance index) rfl
      exact ⟨index :: schedule, hschedule⟩

/-! ### Before the split -/

theorem spares_act (hspares : ∀ worker ∈ net.workers, worker.Spares c) {action : SlotAction}
    (hwrites : ¬ action.Writes c) (hc : (net.act action).channels.length ≤ c) :
    ∀ worker ∈ (net.act action).workers, worker.Spares c := by
  intro worker hmem
  cases action with
  | assign id kind content =>
    obtain heq | ⟨slots, heq⟩ := act_assign net id kind content
    · exact hspares worker (heq ▸ hmem)
    · rw [heq] at hmem
      exact hspares worker hmem
  | fillDefaults id => exact hspares worker hmem
  | relay kind s targets =>
    obtain hold | hnew := List.mem_append.mp hmem
    · exact hspares worker hold
    · obtain rfl := List.mem_singleton.mp hnew
      exact hwrites
  | split id count =>
    have hlength : (net.act (.split id count)).channels.length = net.channels.length + count :=
      length_split net id count
    have hcopies : ¬ (net.channels.length ≤ c ∧ c < net.channels.length + count) := by omega
    obtain hold | hnew := spares_of_mem_split hcopies hmem
    · exact hspares worker hold
    · exact hnew
  | advance index =>
    have hstages : ∀ stage, .stage stage ∉ net.workers := fun stage hstage => hspares _ hstage
    have hadvanced := advanced_advance hstages index
    change worker ∈ (net.advance index).workers at hmem
    generalize net.advance index = next at hmem hadvanced
    cases hadvanced with
    | rested => exact hspares worker hmem
    | moved slots cancelled workers relays => exact hspares worker (workers worker hmem)
    | published | dropped => exact hspares worker (List.mem_of_mem_eraseIdx hmem)

theorem spares_actAll (hspares : ∀ worker ∈ net.workers, worker.Spares c)
    {history : List SlotAction} (hwrites : ∀ action ∈ history, ¬ action.Writes c)
    (hc : (net.actAll history).channels.length ≤ c) :
    ∀ worker ∈ (net.actAll history).workers, worker.Spares c := by
  induction history generalizing net with
  | nil => exact hspares
  | cons action history ih =>
    obtain ⟨hfirst, hrest⟩ := List.forall_mem_cons.mp hwrites
    have hlength := (keptBy_actAll (net.act action) history).length
    exact ih (spares_act hspares hfirst (Nat.le_trans hlength hc)) hrest hc

theorem broadcast_split {id count : Nat} (hspares : ∀ worker ∈ net.workers, worker.Spares c)
    (hid : id < net.channels.length) (hge : net.channels.length ≤ c)
    (hlt : c < net.channels.length + count) :
    (net.split id count).Broadcast (fun kind => (net.slots id).isSet kind = true) id c where
  source_lt := by
    rw [length_split]
    omega
  copy_lt := by rwa [length_split]
  workers := by
    intro worker hmem
    rw [workers_split, List.mem_append, List.mem_append] at hmem
    rcases hmem with hold | hforward | hrelay
    · exact .inl (hspares worker hold)
    · split at hforward
      · cases hforward
      · obtain rfl := List.mem_singleton.mp hforward
        exact .inl trivial
    · obtain ⟨kind, _, rfl⟩ := List.mem_map.mp hrelay
      exact .inr ⟨kind, _, rfl⟩
  present := by
    intro kind hset
    rw [slots_split_of_lt net id count hid, hset]
  copied := by
    intro kind
    refine .pending ?_ (mem_copies.mpr ⟨hge, hlt⟩) ?_
    · rw [slots, channel_split_of_ge net id count hge, if_pos hlt]
      cases kind <;> rfl
    · rw [workers_split, List.mem_append, List.mem_append]
      refine .inr (.inr (List.mem_map.mpr ⟨kind, ?_, rfl⟩))
      cases kind <;> decide

/-! ### Slots are assigned once -/

/-- For all channels, and all that is done with their slots in any order: a slot that is set answers
the same to every read from then on, and refuses every write. A relay of one kind whose slot is set
gives its content to all targets that have none and changes nothing else; before that, it waits,
unless the token of its source has fired. A copy that nothing else was written to never holds
anything but what the channel holds that was split. It takes only so many steps until no relay has
anything to do, and the copy then holds the same, where the slot was set at the split or the token
has not fired. -/
theorem slots_assigned_once (tokens : List Bool) (runtime : Nat) (channels : List Channel)
    (history : List SlotAction) :
    let net := (idle tokens runtime channels).actAll history
    (∀ id < net.channels.length, ∀ kind content, (net.slots id).get? kind = some content →
      (∀ later, ((net.actAll later).slots id).get? kind = some content ∧
        (net.actAll later).perform (.read id kind) = (.content kind content, net.actAll later)) ∧
      ∀ other, net.perform (.assign id kind other) = (.failed .alreadyAssigned, net)) ∧
    (∀ id < net.channels.length, ∀ kind, (net.slots id).get? kind = none → ∀ content,
      (net.perform (.assign id kind content)).1 = .done ∧
        net.Relayed (net.perform (.assign id kind content)).2 kind content [id]) ∧
    (∀ kind source targets content, (net.slots source).get? kind = some content →
      net.Relayed (net.perform (.relay source [kind] targets)).2 kind content targets ∧
      ∀ index, net.workers[index]? = some (.relay kind source targets) →
        net.Relayed (net.advance index) kind content targets ∧
          (net.advance index).workers = net.workers.eraseIdx index) ∧
    (∀ kind source targets index, net.workers[index]? = some (.relay kind source targets) →
      (net.slots source).get? kind = none → net.isCancelled source = false →
      net.advance index = net) ∧
    ∀ id < net.channels.length, ∀ count c, net.channels.length ≤ c →
      c < net.channels.length + count →
      ∀ later, (∀ action ∈ history ++ later, ¬ action.Writes c) →
        let last := net.actAll (.split id count :: later)
        (∀ kind content, (last.slots c).get? kind = some content →
          (last.slots id).get? kind = some content) ∧
        (last.Settled → ∀ kind, last.isCancelled id = false ∨ (net.slots id).isSet kind = true →
          (last.slots c).get? kind = (last.slots id).get? kind) ∧
        ∃ schedule : List Nat,
          (net.actAll (.split id count :: later ++ schedule.map .advance)).Settled := by
  intro net
  have hspares : ∀ c, net.channels.length ≤ c → (∀ action ∈ history, ¬ action.Writes c) →
      ∀ worker ∈ net.workers, worker.Spares c := fun c hc hwrites =>
    spares_actAll (fun worker hmem => absurd hmem List.not_mem_nil) hwrites hc
  refine ⟨fun id hid kind content hset => ⟨fun later => ?_, fun other => ?_⟩,
    fun id hid kind hunset content => relayed_assign hid hunset content,
    fun kind source targets content hset => ⟨relayed_relay hset targets, fun index hworker => ?_⟩,
    fun kind source targets index hworker hunset hunfired => ?_,
    fun id hid count c hge hlt later hwrites => ?_⟩
  · have hlater := (keptBy_actAll net later).slots id hid kind content hset
    refine ⟨hlater, ?_⟩
    rw [perform, Slots.read_of_set hlater]
    rfl
  · rw [perform, Slots.assign_of_set hset]
  · rw [advance_relay_of_set hworker hset]
    exact ⟨(relayed_publish net content targets).of_channels_eq rfl, rfl⟩
  · rw [advance_relay_of_unset hworker hunset, hunfired]
    rfl
  · intro last
    obtain ⟨hearlier, hlater⟩ := List.forall_mem_append.mp hwrites
    have hbroadcast : last.Broadcast (fun kind => (net.slots id).isSet kind = true) id c :=
      (broadcast_split (hspares c hge hearlier) hid hge hlt).actAll hlater
    refine ⟨fun kind content => hbroadcast.get?_source, fun hsettled kind =>
      hbroadcast.get?_of_settled hsettled, ?_⟩
    obtain ⟨schedule, hsettled⟩ := exists_settled last
    refine ⟨schedule, ?_⟩
    rw [actAll_append]
    exact hsettled

/-- A channel is split before its slots are set, and a relay from the copy to a channel that has
locals already is at work all the while. The copy has what the channel was given, once its relays
have taken their steps. -/
theorem slots_assigned_once_late :
    let start := idle [false] 0 [.empty (some 0), .empty none]
    let history : List SlotAction := [.assign 1 .locals []]
    let later : List SlotAction :=
      [.relay .locals 2 [1], .advance 2, .assign 0 .locals [("x", [.null])], .fillDefaults 0,
        .advance 1, .advance 1, .advance 1, .advance 1, .advance 1]
    let last := (start.actAll history).actAll (.split 0 1 :: later)
    (∀ kind, (last.slots 2).get? kind = (last.slots 0).get? kind) ∧ (last.slots 2).allSet = true ∧
      (last.slots 1).get? .locals = some [] := by
  intro start history later last
  obtain ⟨hkept, _, _, _, hcopy⟩ :=
    slots_assigned_once [false] 0 [.empty (some 0), .empty none] history
  have hforwards : ∀ worker ∈ last.workers, worker.forwarded?.isSome = true := by decide +kernel
  have hsettled : last.Settled :=
    fun kind source targets hmem => Bool.noConfusion (hforwards _ hmem)
  have hunfired : last.isCancelled 0 = false := by decide +kernel
  have hwrites : ∀ action ∈ history ++ later, ¬ action.Writes 2 := by
    simp [history, later, SlotAction.Writes]
  have hequal :=
    (hcopy 0 (by decide +kernel) 1 2 (by decide +kernel) (by decide +kernel) later hwrites).2.1
      hsettled
  exact ⟨fun kind => hequal kind (.inl hunfired), by decide +kernel,
    ((hkept 1 (by decide +kernel) .locals [] rfl).1 _).1⟩

/-- When the token has fired, the copies of a channel get no slot that is set after the relays have
looked for it. -/
theorem not_copied_of_fired :
    let history : List SlotAction :=
      [.split 0 1, .advance 1, .advance 1, .advance 1, .advance 1, .assign 0 .locals []]
    let last := (idle [true] 0 [.empty (some 0)]).actAll history
    (∀ action ∈ history, ¬ action.Writes 1) ∧ last.Settled ∧
      (last.slots 0).isSet .locals = true ∧ (last.slots 1).isSet .locals = false := by
  intro history last
  have hforwards : ∀ worker ∈ last.workers, worker.forwarded?.isSome = true := by decide +kernel
  exact ⟨by simp [history, SlotAction.Writes], fun kind source targets hmem =>
    Bool.noConfusion (hforwards _ hmem),
    by decide +kernel, by decide +kernel⟩

end Network
end QueryShell
