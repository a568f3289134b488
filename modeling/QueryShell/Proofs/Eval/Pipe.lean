import QueryShell.Proofs.Eval.Generated
import QueryShell.Proofs.Eval.Terminal

/-! Filters one behind the other. The identity changes nothing on either side of a pipe, and how
pipes are bracketed makes no difference as long as the first filter raises no exception and what it
and the second one bind stays inside them. -/

namespace QueryShell

/-- Over an input without an exception a bridge passes on what is generated, and the namespaces as
they were. -/
theorem bridge_of_raises_eq_false (make : Stream → Run Generated) {input : Stream}
    (h : Stream.raises input.values = false) :
    bridge make input = (fun generated => { input with values := generated.values }) <$>
      make input := by
  have hpending : Stream.firstException? input.values = none :=
    Stream.firstException?_eq_none_iff.mpr h
  rw [bridge, Stream.plain_of_raises_eq_false h, hpending]
  simp only [Generated.followedBy_none]
  rfl

/-- A bridge over listed values passes them on, with the exception of the input behind them, up to
the first exception. -/
theorem result_bridge_of_ofValues {make : Stream → Run Generated} {input : Stream}
    {values : List Value}
    (h : (make { input with values := Stream.plain input.values }).result = .ofValues values) :
    (bridge make input).result = { input with
      values := Stream.throughException
        (values ++ (Stream.firstException? input.values).toList) } := by
  have hcut : (bridge make input).result.values =
      Stream.throughException (values ++ (Stream.firstException? input.values).toList) := by
    rw [values_bridge, h, Generated.values_ofValues, Stream.raises_throughException,
      Stream.throughException_append, Stream.throughException_toList]
    by_cases hraises : Stream.raises values = true
    · rw [if_pos hraises, if_pos hraises]
    · rw [if_neg hraises, if_neg hraises,
        Stream.throughException_of_raises_eq_false (Bool.not_eq_true _ ▸ hraises)]
  rw [← hcut]
  rfl

theorem result_bridge_of_raises_eq_false {make : Stream → Run Generated} {input : Stream}
    {values : List Value} (h : Stream.raises input.values = false)
    (hmade : (make input).result = .ofValues values) :
    (bridge make input).result = { input with values := Stream.throughException values } := by
  rw [bridge_of_raises_eq_false _ h, Run.result_map, hmade, Generated.values_ofValues]

namespace Node

theorem parens_of_raises_eq_false (body : Evaluator) {input : Stream}
    (h : Stream.raises input.values = false) :
    parens body input =
      (fun output => { input with values := Stream.throughException output.values }) <$>
        body input := by
  rw [parens, bridge_of_raises_eq_false _ h, map_bind]
  simp only [map_pure, Generated.values_ofValues]
  rfl

theorem pipe_of_raises_eq_false (left right : Evaluator) {input : Stream}
    (h : Stream.raises input.values = false) :
    pipe left right input =
      (fun output => { input with values := Stream.throughException output.values }) <$>
        (left input >>= right) := by
  rw [pipe, bridge_of_raises_eq_false _ h, map_bind, map_bind]
  simp only [map_bind, map_pure, Generated.values_ofValues]
  rfl

theorem identity_of_raises_eq_false {input : Stream} (h : Stream.raises input.values = false) :
    identity input = return input := by
  rw [identity, Stream.throughException_of_raises_eq_false h]

end Node

namespace Filter

/-- What the filter binds is not seen behind it. -/
def bindsInside : Filter → Bool
  | .assign .. => false
  | .semicolon .. => false
  | _ => true

theorem namespaces_of_bindsInside {f : Filter} (h : f.bindsInside = true) (runtime : Runtime)
    (input : Stream) :
    (f.eval runtime input).result.namespaces = input.namespaces := by
  refine namespaces_eval ?_ ?_ runtime input
  · rintro l r rfl
    cases h
  · rintro l r rfl
    cases h

theorem eval_of_isIdentity (runtime : Runtime) {f : Filter} (h : f.isIdentity = true) :
    f.eval runtime = Node.identity := by
  cases f with
  | apply attributes =>
    rw [isIdentity] at h
    rw [eval, if_pos h]
  | _ => cases h

variable {runtime : Runtime} {input : Stream}

theorem throughException_eval (hvalues : Stream.raises input.values = false)
    (hscopes : input.namespaces.Plain) (f : Filter) :
    Stream.throughException (f.eval runtime input).result.values =
      (f.eval runtime input).result.values :=
  Stream.throughException_of_terminal (terminal_eval hvalues hscopes f)

/-- In parentheses a filter yields what it yields without, and leaves the namespaces as they
were. -/
theorem eval_parens (hvalues : Stream.raises input.values = false)
    (hscopes : input.namespaces.Plain) (f : Filter) :
    (parens f).eval runtime input =
      (fun output => { input with values := output.values }) <$> f.eval runtime input := by
  rw [eval, Node.parens_of_raises_eq_false _ hvalues]
  apply Run.ext
  · rw [Run.result_map, Run.result_map, throughException_eval hvalues hscopes]
  · rw [Run.calls_map, Run.calls_map]

theorem eval_pipe (hvalues : Stream.raises input.values = false) (l r : Filter) :
    (pipe l r).eval runtime input =
      (fun output => { input with values := Stream.throughException output.values }) <$>
        (l.eval runtime input >>= r.eval runtime) := by
  rw [eval, Node.pipe_of_raises_eq_false _ _ hvalues]

theorem result_eval_pipe (runtime : Runtime) (l r : Filter) (input : Stream) :
    let first := (l.eval runtime { input with values := Stream.plain input.values }).result
    ((pipe l r).eval runtime input).result = { input with
      values := Stream.throughException
        ((r.eval runtime first).result.values ++
          (Stream.firstException? input.values).toList) } := by
  intro first
  rw [eval]
  exact result_bridge_of_ofValues rfl

theorem eval_pipe_identity_left (hvalues : Stream.raises input.values = false) {dot : Filter}
    (hdot : dot.isIdentity = true) (f : Filter) :
    (pipe dot f).eval runtime input = (parens f).eval runtime input := by
  rw [eval_pipe hvalues, eval_of_isIdentity runtime hdot, Node.identity_of_raises_eq_false hvalues,
    pure_bind, eval, Node.parens_of_raises_eq_false _ hvalues]

theorem eval_pipe_identity_right (hvalues : Stream.raises input.values = false) {dot : Filter}
    (hdot : dot.isIdentity = true) (f : Filter) :
    (pipe f dot).eval runtime input = (parens f).eval runtime input := by
  rw [eval_pipe hvalues, eval_of_isIdentity runtime hdot, eval,
    Node.parens_of_raises_eq_false _ hvalues]
  -- What the identity lets through is cut at the same exception once more.
  apply Run.ext
  · simp only [Node.identity, Run.result_map, Run.result_bind, Run.result_pure,
      Stream.throughException_throughException]
  · simp only [Node.identity, Run.calls_map, Run.calls_bind, Run.calls_pure, List.append_nil]

/-- What binds nothing for what is behind it, and yields no exception on the way, is run as without
the pipe. -/
theorem eval_pipe_of_bindsInside (hvalues : Stream.raises input.values = false)
    (hscopes : input.namespaces.Plain) {a b : Filter} (ha : a.bindsInside = true)
    (hb : b.bindsInside = true)
    (hraises : Stream.raises (a.eval runtime input).result.values = false) :
    (pipe a b).eval runtime input = a.eval runtime input >>= b.eval runtime := by
  have hfirst := namespaces_of_bindsInside ha runtime input
  have hsecond := namespaces_of_bindsInside hb runtime (a.eval runtime input).result
  have hcut := @throughException_eval runtime _ hraises (hfirst ▸ hscopes) b
  rw [eval_pipe hvalues]
  apply Run.ext
  · rw [Run.result_map, Run.result_bind, hcut, ← hfirst, ← hsecond]
  · rw [Run.calls_map]

theorem eval_pipe_assoc (hvalues : Stream.raises input.values = false)
    (hscopes : input.namespaces.Plain) {a b : Filter} (ha : a.bindsInside = true)
    (hb : b.bindsInside = true)
    (hraises : Stream.raises (a.eval runtime input).result.values = false) (c : Filter) :
    (pipe (pipe a b) c).eval runtime input = (pipe a (pipe b c)).eval runtime input := by
  have hinner := @eval_pipe runtime _ hraises b c
  rw [eval_pipe hvalues (pipe a b) c, eval_pipe_of_bindsInside hvalues hscopes ha hb hraises,
    eval_pipe hvalues a (pipe b c), bind_assoc]
  apply Run.ext
  · simp only [Run.result_map, Run.result_bind, hinner, Stream.throughException_throughException]
  · simp only [Run.calls_map, Run.calls_bind, hinner]

/-- Over an input and scopes without exceptions a pipe from or to the identity, like parentheses,
yields exactly the values of the other filter, with its calls, and leaves the namespaces as they
were. If the first filter yields no exception and neither it nor the second one binds anything for
what is behind it, three filters are run alike however they are bracketed. -/
theorem eval_pipe_category (runtime : Runtime) {input : Stream}
    (hvalues : Stream.raises input.values = false) (hscopes : input.namespaces.Plain) (a : Filter) :
    let alone : Run Stream := (fun output => { input with values := output.values }) <$>
      a.eval runtime input
    (∀ dot : Filter, dot.isIdentity = true →
      (pipe dot a).eval runtime input = alone ∧ (pipe a dot).eval runtime input = alone) ∧
    (parens a).eval runtime input = alone ∧
    ∀ b c : Filter, a.bindsInside = true → b.bindsInside = true →
      Stream.raises (a.eval runtime input).result.values = false →
      (pipe (pipe a b) c).eval runtime input = (pipe a (pipe b c)).eval runtime input ∧
        ((pipe a (pipe b c)).eval runtime input).result.namespaces = input.namespaces := by
  intro alone
  have hparens : (parens a).eval runtime input = alone := eval_parens hvalues hscopes a
  refine ⟨fun dot hdot => ⟨?_, ?_⟩, hparens, fun b c ha hb hraises => ⟨?_, ?_⟩⟩
  · rw [eval_pipe_identity_left hvalues hdot, hparens]
  · rw [eval_pipe_identity_right hvalues hdot, hparens]
  · exact eval_pipe_assoc hvalues hscopes ha hb hraises c
  · exact namespaces_of_bindsInside rfl runtime input

/-- The second filter yields an exception behind some values, and the third one a variable before
it. -/
theorem eval_pipe_raising_in_the_middle :
    let runtime : Runtime := ⟨.standard, .system, .standard⟩
    let input : Stream :=
      ⟨[.null, .string "a"], { Namespaces.empty with globals := [("g", [.boolean true])] }⟩
    let a : Filter := .comma (.apply [.empty]) (.globalVariable (.name "g"))
    let b : Filter := .comma .identity (.name "nope")
    let c : Filter := .comma .identity (.globalVariable (.name "g"))
    let expected : List Value :=
      [.null, .string "a", .boolean true, .boolean true, (Exception.undefinedName "nope").toValue]
    (Stream.raises input.values = false ∧ input.namespaces.Plain ∧ a.bindsInside = true ∧
      b.bindsInside = true ∧
      Stream.raises (a.eval runtime input).result.values = false) ∧
    (pipe (.apply [.empty]) a).eval runtime input = (parens a).eval runtime input ∧
    (pipe (pipe a b) c).eval runtime input = (pipe a (pipe b c)).eval runtime input ∧
    ((pipe (pipe a b) c).eval runtime input).result.values = expected := by
  intro runtime input a b c expected
  have hvalues : Stream.raises input.values = false := rfl
  have hscopes : input.namespaces.Plain := ⟨Scope.plain_nil.bind "g" rfl, Scope.plain_nil⟩
  have hraises : Stream.raises (a.eval runtime input).result.values = false := rfl
  obtain ⟨hidentity, hparens, hassoc⟩ := eval_pipe_category runtime hvalues hscopes a
  refine ⟨⟨hvalues, hscopes, rfl, rfl, hraises⟩, ?_, (hassoc b c rfl rfl hraises).1, ?_⟩
  · rw [(hidentity (.apply [.empty]) rfl).1, hparens]
  · cbv

end Filter
end QueryShell
