import QueryShell.Proofs.Channel.Handling

/-! Tokens through everything that is done with a network: one that has fired stays so, and a
channel keeps the token that it was opened with. -/

namespace QueryShell

namespace Network

variable {net next last : Network}

/-- The changes that actions and workers are made of. -/
inductive Evolves (net : Network) : Network → Prop where
  | refl : Evolves net net
  | update {next : Network} (h : Evolves net next) (id : Nat) {change : Channel → Channel}
    (htoken : ∀ c, (change c).token = c.token) : Evolves net (next.update id change)
  | append {next : Network} (h : Evolves net next) (channels : List Channel) :
    Evolves net (next.append channels)
  | fire {next : Network} (h : Evolves net next) (token : Nat) : Evolves net (next.fire token)
  | addToken {next : Network} (h : Evolves net next) : Evolves net next.addToken
  | reassign {next last : Network} (h : Evolves net next) (htokens : last.tokens = next.tokens)
    (hchannels : last.channels = next.channels) : Evolves net last

theorem Evolves.trans (h : net.Evolves next) (h' : next.Evolves last) : net.Evolves last := by
  induction h' with
  | refl => exact h
  | update _ id htoken ih => exact ih.update id htoken
  | append _ channels ih => exact ih.append channels
  | fire _ token ih => exact ih.fire token
  | addToken _ ih => exact ih.addToken
  | reassign _ htokens hchannels ih => exact ih.reassign htokens hchannels

/-! ### What every change keeps -/

theorem isFired_fire (h : net.isFired token = true) (other : Nat) :
    (net.fire other).isFired token = true := by
  unfold isFired fire at *
  rw [List.getElem?_set]
  split
  · next heq =>
    subst heq
    by_cases hlt : other < net.tokens.length
    · simp [hlt]
    · rw [List.getElem?_eq_none (Nat.le_of_not_lt hlt)] at h
      cases h
  · exact h

theorem isFired_addToken (h : net.isFired token = true) : net.addToken.isFired token = true := by
  unfold isFired addToken at *
  by_cases hlt : token < net.tokens.length
  · rwa [List.getElem?_append_left hlt]
  · rw [List.getElem?_eq_none (Nat.le_of_not_lt hlt)] at h
    cases h

theorem Evolves.isFired (h : net.Evolves next) {token : Nat} (hfired : net.isFired token = true) :
    next.isFired token = true := by
  induction h with
  | refl => exact hfired
  | update _ _ _ ih => exact ih
  | append _ _ ih => exact ih
  | fire _ other ih => exact isFired_fire ih other
  | addToken _ ih => exact isFired_addToken ih
  | @reassign next last _ htokens _ ih => rwa [Network.isFired, htokens]

theorem Evolves.token (h : net.Evolves next) {id : Nat} (hid : id < net.channels.length) :
    id < next.channels.length ∧ (next.channel id).token = (net.channel id).token := by
  induction h with
  | refl => exact ⟨hid, rfl⟩
  | update _ other htoken ih =>
    rw [length_update, apply_channel_update Channel.token htoken]
    exact ih
  | @append next _ channels ih =>
    refine ⟨?_, ?_⟩
    · have hlength : (next.append channels).channels.length =
          next.channels.length + channels.length := List.length_append
      omega
    · rw [channel, Network.append, List.getElem?_append_left ih.1]
      exact ih.2
  | fire _ _ ih => exact ih
  | addToken _ ih => exact ih
  | reassign _ _ hchannels ih => rwa [channel, hchannels]

/-! ### What actions do -/

theorem evolves_setQueue (net : Network) (id : Nat) (q : Queue Value) :
    net.Evolves (net.setQueue id q) :=
  .update .refl id fun _ => rfl

theorem evolves_updateAll {change : Channel → Channel} (htoken : ∀ c, (change c).token = c.token)
    (net : Network) (ids : List Nat) : net.Evolves (net.updateAll ids change) := by
  unfold updateAll
  induction ids generalizing net with
  | nil => exact .refl
  | cons id ids ih => exact (Evolves.update .refl id htoken).trans (ih _)

theorem evolves_spread (net : Network) (entry : Entry Value) (targets : List Nat) :
    net.Evolves (net.spread entry targets) :=
  evolves_updateAll (by intro c; rfl) net targets

theorem evolves_publish (net : Network) (kind : SlotKind) (content : kind.Content)
    (targets : List Nat) :
    net.Evolves (net.publish kind content targets) :=
  evolves_updateAll (by intro c; rfl) net targets

theorem evolves_attempt (net : Network) (id : Nat) (outcome : Except ChannelError (Queue Value)) :
    net.Evolves (net.attempt id outcome).2 := by
  cases outcome with
  | ok q => exact evolves_setQueue net id q
  | error e => exact .refl

theorem evolves_take (net : Network) (id count : Nat) : net.Evolves (net.take id count).2 := by
  induction count generalizing net with
  | zero => exact .refl
  | succ count ih =>
    rw [take]
    split
    · exact (evolves_setQueue ..).trans (ih _)
    · exact evolves_setQueue ..

theorem evolves_transfer (net : Network) (source target : Nat) (sought : Value → Bool)
    (closing : Bool) :
    net.Evolves (net.transfer source target sought closing).2 := by
  rw [transfer]
  split
  · exact evolves_setQueue ..
  · exact (evolves_setQueue ..).trans (evolves_setQueue ..)

theorem evolves_relay (net : Network) (source : Nat) (kinds : List SlotKind) (targets : List Nat) :
    net.Evolves (net.relay source kinds targets) := by
  unfold relay
  induction kinds generalizing net with
  | nil => exact .refl
  | cons kind kinds ih =>
    rw [List.foldl_cons]
    refine Evolves.trans ?_ (ih _)
    split
    · exact evolves_publish ..
    · exact .refl

theorem evolves_step {worker : Worker} {left : Option Worker}
    (hstep : net.step worker = some (next, left)) :
    net.Evolves next := by
  cases worker with
  | forward source targets =>
    rw [step] at hstep
    split at hstep
    · cases hstep
      exact evolves_spread ..
    · split at hstep <;> cases hstep
      · exact (evolves_setQueue ..).trans (evolves_spread ..)
      · exact (evolves_setQueue ..).trans (evolves_spread ..)
  | relay kind source targets =>
    rw [step] at hstep
    split at hstep <;> cases hstep
    · exact evolves_publish ..
    · exact .refl
  | stage stage =>
    rw [step] at hstep
    split at hstep
    · split at hstep <;> cases hstep
      exact .update .refl _ fun _ => rfl
    · split at hstep <;> cases hstep
      · exact evolves_setQueue ..
      · exact evolves_setQueue ..

theorem evolves_advance (net : Network) (index : Nat) : net.Evolves (net.advance index) := by
  cases hworker : net.workers[index]? with
  | none =>
    rw [advance, hworker]
    exact .refl
  | some worker =>
    rw [advance_of_step hworker]
    rcases hstep : net.step worker with _ | ⟨after, _ | left⟩
    · exact .refl
    · exact (evolves_step hstep).reassign rfl rfl
    · exact (evolves_step hstep).reassign rfl rfl

theorem evolves_perform (net : Network) (action : Action) : net.Evolves (net.perform action).2 := by
  cases action with
  | addToken => exact .addToken .refl
  | renew => exact (Evolves.addToken .refl).reassign rfl rfl
  | fire token => exact .fire .refl token
  | cancel id =>
    rw [perform]
    cases (net.channel id).token with
    | none => exact .refl
    | some token => exact .fire .refl token
  | openChannel token => exact .append .refl _
  | openStream stream => exact .append .refl _
  | push id v => exact evolves_attempt ..
  | terminate id => exact evolves_attempt ..
  | emit id v => exact evolves_setQueue ..
  | close id => exact evolves_setQueue ..
  | throw id e => exact .update .refl id fun _ => rfl
  | pop id waits => exact evolves_setQueue ..
  | drain id => exact evolves_setQueue ..
  | take id count => exact evolves_take ..
  | nextException id => exact evolves_setQueue ..
  | pull source target closing => exact evolves_transfer ..
  | pullThroughException source target closing => exact evolves_transfer ..
  | split id count => exact ((evolves_setQueue ..).append _).reassign rfl rfl
  | assign id kind content =>
    rw [perform]
    split
    · exact .update .refl id fun _ => rfl
    · exact .refl
  | fillDefaults id => exact .update .refl id fun _ => rfl
  | read id kind => exact .refl
  | snapshot id => exact .refl
  | relay source kinds targets => exact evolves_relay ..
  | start evaluate input => exact (Evolves.append .refl _).reassign rfl rfl
  | name namer input =>
    rw [perform, resolve]
    cases namer.literal? with
    | some label => exact .refl
    | none => exact evolves_setQueue ..
  | advance index => exact evolves_advance net index

theorem evolves_performAll (net : Network) (history : List Action) :
    net.Evolves (net.performAll history) := by
  induction history generalizing net with
  | nil => exact .refl
  | cons action history ih => exact (evolves_perform net action).trans (ih _)

/-- The copies of a channel are under its token. -/
theorem token_split_of_copy (net : Network) (id count : Nat) {copy : Nat}
    (hnew : net.channels.length ≤ copy) (hcopy : copy < net.channels.length + count) :
    ((net.split id count).channel copy).token = (net.channel id).token := by
  rw [channel_split_of_ge net id count hnew, if_pos hcopy]

end Network
end QueryShell
