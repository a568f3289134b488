import QueryShell.Proofs.Channel.Network

/-! A slot that is set keeps what it holds, whatever is done with the network and whatever its
workers do. -/

namespace QueryShell

namespace Slots

variable {slots later last : Slots} {kind other : SlotKind}

theorem get?_put_self (slots : Slots) (kind : SlotKind) (content : kind.Content) :
    (slots.put kind content).get? kind = some content := by
  cases kind <;> rfl

theorem get?_put_of_ne (slots : Slots) (content : kind.Content) (h : other ≠ kind) :
    (slots.put kind content).get? other = slots.get? other := by
  cases kind <;> cases other <;> first | rfl | exact absurd rfl h

theorem get?_supply_self (slots : Slots) (kind : SlotKind) (content : kind.Content) :
    (slots.supply kind content).get? kind = (slots.get? kind).or (some content) := by
  rw [supply, isSet]
  cases hget : slots.get? kind with
  | none => exact get?_put_self slots kind content
  | some held => exact hget

theorem get?_supply_of_ne (slots : Slots) (content : kind.Content) (h : other ≠ kind) :
    (slots.supply kind content).get? other = slots.get? other := by
  rw [supply]
  split
  · rfl
  · exact get?_put_of_ne slots content h

theorem get?_supplyAll (slots : Slots) (n : Namespaces) (kind : SlotKind) :
    (slots.supplyAll n).get? kind = (slots.get? kind).or (some (n.get kind)) := by
  cases kind <;>
    simp only [supplyAll, SlotKind.all, List.foldl_cons, List.foldl_nil, get?_supply_self,
      get?_supply_of_ne, ne_eq, reduceCtorEq, not_false_eq_true]

theorem read_of_set {content : kind.Content} (h : slots.get? kind = some content) (fired : Bool) :
    slots.read kind fired = .value content := by
  rw [read, h]

theorem assign_of_set {content : kind.Content} (h : slots.get? kind = some content)
    (new : kind.Content) :
    slots.assign kind new = .error .alreadyAssigned := by
  rw [assign, isSet, h]
  rfl

theorem assign_of_unset (h : slots.get? kind = none) (new : kind.Content) :
    slots.assign kind new = .ok (slots.put kind new) := by
  rw [assign, isSet, h]
  rfl

/-- What is set in the one is set to the same in the other. -/
def KeptBy (slots later : Slots) : Prop :=
  ∀ (kind : SlotKind) (content : kind.Content), slots.get? kind = some content →
  later.get? kind = some content

theorem KeptBy.refl (slots : Slots) : slots.KeptBy slots := fun _ _ h => h

theorem KeptBy.trans (h : slots.KeptBy later) (h' : later.KeptBy last) : slots.KeptBy last :=
  fun kind content hget => h' kind content (h kind content hget)

theorem keptBy_supply (slots : Slots) (kind : SlotKind) (content : kind.Content) :
    slots.KeptBy (slots.supply kind content) := by
  intro other held hget
  by_cases hkind : other = kind
  · subst hkind
    rw [get?_supply_self, hget]
    rfl
  · rw [get?_supply_of_ne slots content hkind, hget]

theorem keptBy_supplyAll (slots : Slots) (n : Namespaces) : slots.KeptBy (slots.supplyAll n) := by
  intro kind content hget
  rw [get?_supplyAll, hget]
  rfl

theorem keptBy_assign {content : kind.Content} (h : slots.assign kind content = .ok later) :
    slots.KeptBy later := by
  intro other held hget
  by_cases hkind : other = kind
  · subst hkind
    cases (assign_of_set hget content).symm.trans h
  · rw [assign] at h
    split at h
    · cases h
    · obtain rfl := Except.ok.inj h
      rw [get?_put_of_ne slots content hkind, hget]

end Slots

namespace Network

/-- Every channel is still there, and what is set in it is as it was. -/
structure KeptBy (net next : Network) : Prop where
  length : net.channels.length ≤ next.channels.length
  slots : ∀ id < net.channels.length, (net.slots id).KeptBy (next.slots id)

variable {net next last : Network}

theorem KeptBy.refl (net : Network) : net.KeptBy net := ⟨Nat.le_refl _, fun _ _ => .refl _⟩

theorem KeptBy.trans (h : net.KeptBy next) (h' : next.KeptBy last) : net.KeptBy last :=
  ⟨Nat.le_trans h.length h'.length,
    fun id hid => (h.slots id hid).trans (h'.slots id (Nat.lt_of_lt_of_le hid h.length))⟩

theorem KeptBy.of_channels_eq (h : next.channels = net.channels) : net.KeptBy next := by
  refine ⟨Nat.le_of_eq (by rw [h]), fun id _ => ?_⟩
  rw [Network.slots, Network.slots, channel, channel, h]
  exact .refl _

theorem keptBy_update (net : Network) (id : Nat) {change : Channel → Channel}
    (h : (net.slots id).KeptBy (change (net.channel id)).slots) :
    net.KeptBy (net.update id change) := by
  have hlength := length_update net id change
  refine ⟨Nat.le_of_eq hlength.symm, fun j hj => ?_⟩
  by_cases hid : j = id
  · subst hid
    rw [slots, slots, channel_update net j change hj, if_pos rfl]
    exact h
  · unfold slots channel update
    rw [List.getElem?_modify_ne change _ (Ne.symm hid)]
    exact .refl _

theorem keptBy_updateAll {change : Channel → Channel}
    (h : ∀ c : Channel, c.slots.KeptBy (change c).slots) (net : Network) (ids : List Nat) :
    net.KeptBy (net.updateAll ids change) := by
  unfold updateAll
  induction ids generalizing net with
  | nil => exact .refl net
  | cons id ids ih => exact (keptBy_update net id (h _)).trans (ih _)

theorem keptBy_setQueue (net : Network) (id : Nat) (q : Queue Value) :
    net.KeptBy (net.setQueue id q) :=
  keptBy_update net id (.refl _)

theorem keptBy_spread (net : Network) (entry : Entry Value) (targets : List Nat) :
    net.KeptBy (net.spread entry targets) :=
  keptBy_updateAll (by intro c; exact .refl c.slots) net targets

theorem keptBy_publish (net : Network) (kind : SlotKind) (content : kind.Content)
    (targets : List Nat) :
    net.KeptBy (net.publish kind content targets) :=
  keptBy_updateAll (fun c => Slots.keptBy_supply c.slots kind content) net targets

theorem keptBy_append (net : Network) (channels : List Channel) :
    net.KeptBy (net.append channels) := by
  refine ⟨by simp [append], fun id hid => ?_⟩
  unfold slots channel append
  rw [List.getElem?_append_left hid]
  exact .refl _

theorem keptBy_split (net : Network) (id count : Nat) : net.KeptBy (net.split id count) :=
  ((keptBy_setQueue net id _).trans (keptBy_append _ _)).trans (.of_channels_eq rfl)

theorem keptBy_relay (net : Network) (source : Nat) (kinds : List SlotKind) (targets : List Nat) :
    net.KeptBy (net.relay source kinds targets) := by
  unfold relay
  induction kinds generalizing net with
  | nil => exact .refl net
  | cons kind kinds ih =>
    rw [List.foldl_cons]
    refine KeptBy.trans ?_ (ih _)
    split
    · exact keptBy_publish ..
    · exact .refl net

theorem keptBy_take (net : Network) (id count : Nat) : net.KeptBy (net.take id count).2 := by
  induction count generalizing net with
  | zero => exact .refl net
  | succ count ih =>
    rw [take]
    split
    · exact (keptBy_setQueue ..).trans (ih _)
    · exact keptBy_setQueue ..

theorem keptBy_transfer (net : Network) (source target : Nat) (sought : Value → Bool)
    (closing : Bool) :
    net.KeptBy (net.transfer source target sought closing).2 := by
  rw [transfer]
  split
  · exact keptBy_setQueue ..
  · exact (keptBy_setQueue ..).trans (keptBy_setQueue ..)

theorem keptBy_attempt (net : Network) (id : Nat) (outcome : Except ChannelError (Queue Value)) :
    net.KeptBy (net.attempt id outcome).2 := by
  cases outcome with
  | ok queue => exact keptBy_setQueue ..
  | error e => exact .refl net

theorem keptBy_resolve (net : Network) (namer : Namer) (input : Nat) :
    net.KeptBy (net.resolve namer input).2 := by
  rw [resolve]
  split
  · exact .refl net
  · exact keptBy_setQueue ..

theorem keptBy_step {worker : Worker} {left : Option Worker}
    (h : net.step worker = some (next, left)) : net.KeptBy next := by
  cases worker with
  | forward source targets =>
    rw [step] at h
    split at h
    · cases h
      exact keptBy_spread ..
    · split at h
      · cases h
      · cases h
        exact (keptBy_setQueue ..).trans (keptBy_spread ..)
      · cases h
        exact (keptBy_setQueue ..).trans (keptBy_spread ..)
  | relay kind source targets =>
    rw [step] at h
    split at h
    · cases h
      exact keptBy_publish ..
    · cases h
    · cases h
      exact .refl net
  | stage stage =>
    rw [step] at h
    split at h
    · split at h
      · cases h
        exact keptBy_update net _ (Slots.keptBy_supplyAll _ _)
      · cases h
    · split at h
      · cases h
        exact keptBy_setQueue ..
      · cases h
      · cases h
        exact keptBy_setQueue ..

theorem keptBy_advance (net : Network) (index : Nat) : net.KeptBy (net.advance index) := by
  cases hworker : net.workers[index]? with
  | none =>
    rw [advance, hworker]
    exact .refl net
  | some worker =>
    rw [advance_of_step hworker]
    rcases hstep : net.step worker with _ | ⟨after, _ | left⟩
    · exact .refl net
    · exact (keptBy_step hstep).trans (.of_channels_eq rfl)
    · exact (keptBy_step hstep).trans (.of_channels_eq rfl)

/-- No action changes a slot that is set. -/
theorem keptBy_perform (net : Network) (action : Action) : net.KeptBy (net.perform action).2 := by
  cases action with
  | addToken | fire token | renew => exact .of_channels_eq rfl
  | cancel id =>
    rw [perform]
    cases (net.channel id).token with
    | none => exact .refl net
    | some token => exact .of_channels_eq rfl
  | openChannel token => exact keptBy_append net _
  | openStream stream => exact keptBy_append net _
  | push id v => exact keptBy_attempt ..
  | emit id v => exact keptBy_setQueue ..
  | terminate id => exact keptBy_attempt ..
  | close id => exact keptBy_setQueue ..
  | throw id e => exact keptBy_update net id (Slots.keptBy_supplyAll _ _)
  | pop id waits => exact keptBy_setQueue ..
  | drain id => exact keptBy_setQueue ..
  | take id count => exact keptBy_take net id count
  | nextException id => exact keptBy_setQueue ..
  | pull source target closing => exact keptBy_transfer ..
  | pullThroughException source target closing => exact keptBy_transfer ..
  | split id count => exact keptBy_split net id count
  | assign id kind content =>
    rw [perform]
    split
    · next hassign => exact keptBy_update net id (Slots.keptBy_assign hassign)
    · exact .refl net
  | fillDefaults id => exact keptBy_update net id (Slots.keptBy_supplyAll _ _)
  | read id kind => exact .refl net
  | snapshot id => exact .refl net
  | relay source kinds targets => exact keptBy_relay net source kinds targets
  | start evaluate input => exact (keptBy_append net _).trans (.of_channels_eq rfl)
  | name namer input => exact keptBy_resolve net namer input
  | advance worker => exact keptBy_advance net worker

end Network
end QueryShell
