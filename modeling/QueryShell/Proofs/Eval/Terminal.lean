import QueryShell.Proofs.Eval.Frame

/-! What is put out behind a bridge, and that scopes stay free of exceptions. Over an input without
an exception what a filter yields ends with its first exception. -/

namespace QueryShell

theorem Generated.terminal_values (generated : Generated) : Stream.Terminal generated.values := by
  unfold Generated.values
  induction generated.items with
  | nil =>
    rw [values.go]
    cases generated.ending with
    | finished => simp [Ending.values, Stream.Terminal]
    | brokenDown message => cases message <;> exact Stream.terminal_singleton _
  | cons item rest ih =>
    cases item with
    | value v =>
      rw [values.go]
      by_cases hv : v.isException = true
      · rw [if_pos hv]
        exact Stream.terminal_singleton v
      · rw [if_neg hv]
        exact ih.cons (Bool.not_eq_true _ ▸ hv)
    | fault e =>
      rw [values.go]
      by_cases he : e.isCancelled = true
      · simp [he, Stream.Terminal]
      · rw [if_neg he]
        exact Stream.terminal_singleton _

theorem Generated.followedBy_eq (generated : Generated) (pending : Option Value) :
    generated.followedBy pending =
      if Stream.raises generated.values = true then generated.values
      else generated.values ++ pending.toList := by
  simp only [followedBy]
  split
  · exact List.append_nil _
  · rfl

theorem Generated.followedBy_none (generated : Generated) :
    generated.followedBy none = generated.values := by
  simp only [followedBy, Option.toList_none, ite_self, List.append_nil]

theorem Generated.terminal_followedBy (generated : Generated) (pending : Option Value) :
    Stream.Terminal (generated.followedBy pending) := by
  rw [followedBy_eq]
  split
  · exact generated.terminal_values
  · next h => exact Stream.terminal_append_toList (Bool.not_eq_true _ ▸ h) _

/-- What was generated, and the exception of the input unless there is one already. -/
theorem values_bridge (make : Stream → Run Generated) (input : Stream) :
    let made := (make { input with values := Stream.plain input.values }).result.values
    (bridge make input).result.values =
      if Stream.raises made = true then made
      else made ++ (Stream.firstException? input.values).toList :=
  Generated.followedBy_eq _ _

theorem terminal_bridge (make : Stream → Run Generated) (input : Stream) :
    Stream.Terminal (bridge make input).result.values :=
  Generated.terminal_followedBy _ _

namespace Node

theorem terminal_replay {values : List Value} (h : Stream.raises values = false) (input : Stream) :
    Stream.Terminal (replay values input).values :=
  Stream.terminal_append_toList h _

theorem terminal_raise (e : Exception) (input : Stream) :
    Stream.Terminal (raise e input).result.values :=
  Stream.terminal_singleton _

end Node

namespace Filter

theorem plain_eval (runtime : Runtime) (f : Filter) {input : Stream} (h : input.namespaces.Plain) :
    (f.eval runtime input).result.namespaces.Plain := by
  induction f using Filter.induction generalizing input with
  | assign l r _ _ _ =>
    rcases eval_assign_cases runtime l r input with
      ⟨e, _, hassign⟩ | ⟨hr, ⟨label, _, hassign⟩ | ⟨f, label, _, _, hassign⟩⟩
    · rw [hassign]
      exact h
    · rw [hassign]
      exact ⟨h.globals, h.locals.bind label hr⟩
    · rw [hassign]
      exact ⟨h.globals.bind label hr, h.locals⟩
  | semicolon l r ihl ihr =>
    cases hraises : Stream.raises (l.eval runtime input).result.values with
    | true =>
      obtain ⟨e, he⟩ := Stream.raises_iff_firstException?.mp hraises
      rw [eval, Node.semicolon_of_firstException? he]
      exact ihl h
    | false =>
      rw [eval_semicolon_of_raises_eq_false hraises, Run.result_bind]
      exact ihr (ihl h)
  | _ =>
    rw [namespaces_eval (by simp) (by simp)]
    exact h

theorem terminal_globalValues {globals : Scope} (h : globals.Plain) (name : String) :
    Stream.Terminal (Node.globalValues globals name) := by
  unfold Node.globalValues
  cases hname : globals.get? name with
  | some values => exact Stream.terminal_of_raises_eq_false (h name values hname)
  | none => exact Stream.terminal_singleton _

theorem terminal_eval {runtime : Runtime} {input : Stream}
    (hvalues : Stream.raises input.values = false) (h : input.namespaces.Plain) (f : Filter) :
    Stream.Terminal (f.eval runtime input).result.values := by
  induction f using eval_induction runtime generalizing input with
  | bridged f make hbridged =>
    rw [hbridged]
    exact terminal_bridge make input
  | identity attributes hidentity =>
    rw [hidentity]
    exact Stream.terminal_throughException input.values
  | name label =>
    rw [eval]
    rcases Node.name_cases runtime label input with ⟨values, hl, hname⟩ | ⟨make, hname⟩ | ⟨e, hname⟩
    · rw [hname]
      exact Node.terminal_replay (h.locals label values hl) input
    · rw [hname]
      exact terminal_bridge make input
    · rw [hname]
      exact Node.terminal_raise e input
  | call head args hcall _ =>
    rw [hcall]
    rcases Node.call_cases runtime ⟨head.literalName?, head.eval runtime⟩ (args.map (eval runtime))
      input with ⟨make, hmake⟩ | ⟨e, hraise⟩
    · rw [hmake]
      exact terminal_bridge make input
    · rw [hraise]
      exact Node.terminal_raise e input
  | assign l r _ =>
    rcases eval_assign_cases runtime l r input with
      ⟨e, _, hassign⟩ | ⟨_, ⟨label, _, hassign⟩ | ⟨g, label, _, _, hassign⟩⟩
    · rw [hassign]
      exact Stream.terminal_singleton e
    · rw [hassign]
      exact Stream.terminal_throughException input.values
    · rw [hassign]
      exact Stream.terminal_throughException input.values
  | semicolon l r _ ihr =>
    cases hraises : Stream.raises (l.eval runtime input).result.values with
    | true =>
      obtain ⟨e, he⟩ := Stream.raises_iff_firstException?.mp hraises
      rw [eval, Node.semicolon_of_firstException? he]
      exact Stream.terminal_singleton e
    | false =>
      rw [eval_semicolon_of_raises_eq_false hraises, Run.result_bind]
      exact ihr hvalues (plain_eval runtime l h)
  | globalVariable label _ =>
    rw [eval]
    rcases Node.globalVariable_cases ⟨label.literalName?, label.eval runtime⟩ input with
      ⟨name, hliteral, hglobal⟩ | ⟨_, ⟨e, _, hglobal⟩ | ⟨name, _, hglobal⟩⟩
    · rw [hglobal, Node.replay, Stream.firstException?_eq_none_iff.mpr hvalues, Option.toList_none,
        List.append_nil]
      exact terminal_globalValues h.globals name
    · rw [hglobal]
      exact Node.terminal_raise e input
    · rw [hglobal]
      exact terminal_globalValues h.globals name

end Filter
end QueryShell
