import QueryShell.Proofs.Eval.Comma

/-! Loops over the values of a stream. A body is run on every value by itself, and what it makes of
the values is joined up to the first exception, which makes the loop the monadic bind of streams. -/

namespace QueryShell

/-- What a body makes of one value. An exception stands for itself. -/
def Evaluator.alone (body : Evaluator) (namespaces : Namespaces) (v : Value) : List Value :=
  if v.isException then [v] else (body ⟨[v], namespaces⟩).result.values

namespace Evaluator

theorem alone_exception (body : Evaluator) (namespaces : Namespaces) (e : Value)
    (he : e.isException = true) :
    body.alone namespaces e = [e] := if_pos he

theorem alone_plain (body : Evaluator) (namespaces : Namespaces) {v : Value}
    (hv : v.isException = false) :
    body.alone namespaces v = (body ⟨[v], namespaces⟩).result.values :=
  if_neg (Bool.not_eq_true _ ▸ hv)

end Evaluator

theorem Builtin.throughException_eachValue (body : Evaluator) (namespaces : Namespaces)
    {values : List Value} (h : Stream.raises values = false) :
    Stream.throughException (eachValue body namespaces values).result =
      Stream.throughException (values.flatMap (body.alone namespaces)) := by
  induction values with
  | nil => rfl
  | cons v vs ih =>
    obtain ⟨hv, hvs⟩ := Bool.or_eq_false_iff.mp h
    rw [eachValue, Run.result_bind, List.flatMap_cons, body.alone_plain namespaces hv]
    -- Where the loop stops, the joined values are cut.
    by_cases hraises : Stream.raises (body ⟨[v], namespaces⟩).result.values = true
    · simp [hraises, Stream.throughException_append]
    · rw [if_neg hraises]
      exact Stream.throughException_append_congr _ (ih hvs)

namespace Filter

def each (body : Filter) : Filter := .apply [.name "each", body]

variable (runner : Runner) (config : Config)

theorem result_eval_each (body : Filter) (input : Stream) :
    let runtime : Runtime := ⟨.standard, runner, config⟩
    (body.each.eval runtime input).result = { input with
      values := Stream.throughException
        (input.values.flatMap ((body.eval runtime).alone input.namespaces)) } := by
  intro runtime
  have hlookup : runtime.builtins.lookup "each" [body].length = .ok Builtin.each := rfl
  have heval : body.each.eval runtime = bridge (Builtin.each [body.eval runtime]) :=
    eval_apply_name hlookup
  have hlist :=
    Builtin.throughException_eachValue (body.eval runtime) input.namespaces
      (Stream.raises_plain input.values)
  rw [heval, result_bridge_of_ofValues rfl, ← Stream.throughException_throughException_append,
    hlist, Stream.throughException_throughException_append,
    Stream.throughException_flatMap_plain (Evaluator.alone_exception _ _)]

theorem result_eval_pipe_each {l : Filter} (hl : l.bindsInside = true) (f : Filter)
    (input : Stream) :
    let runtime : Runtime := ⟨.standard, runner, config⟩
    let first := (l.eval runtime { input with values := Stream.plain input.values }).result.values
    ((pipe l f.each).eval runtime input).result = { input with
      values := Stream.throughException
        (first.flatMap ((f.eval runtime).alone input.namespaces) ++
          (Stream.firstException? input.values).toList) } := by
  intro runtime first
  rw [result_eval_pipe, result_eval_each, namespaces_of_bindsInside hl,
    Stream.throughException_throughException_append]

theorem result_eval_pipe_each_of_raises_eq_false {l : Filter} (hl : l.bindsInside = true)
    (f : Filter) {input : Stream} (hvalues : Stream.raises input.values = false) :
    let runtime : Runtime := ⟨.standard, runner, config⟩
    let first := (l.eval runtime input).result.values
    ((pipe l f.each).eval runtime input).result = { input with
      values :=
    Stream.throughException (first.flatMap ((f.eval runtime).alone input.namespaces)) } := by
  intro runtime first
  have hlast : Stream.firstException? input.values = none :=
    Stream.firstException?_eq_none_iff.mpr hvalues
  rw [result_eval_pipe_each runner config hl, Stream.with_plain_of_raises_eq_false hvalues, hlast,
    Option.toList_none, List.append_nil]

theorem result_eval_each_each (g f : Filter) (input : Stream) :
    let runtime : Runtime := ⟨.standard, runner, config⟩
    let alone (h : Filter) : Value → List Value := (h.eval runtime).alone input.namespaces
    ((pipe g.each f.each).eval runtime input).result = { input with
      values :=
    Stream.throughException (input.values.flatMap fun v => (alone g v).flatMap (alone f)) } := by
  intro runtime alone
  let twice (v : Value) : List Value := (alone g v).flatMap (alone f)
  have hfixed : ∀ (h : Filter) e, e.isException = true → alone h e = [e] :=
    fun h => Evaluator.alone_exception _ _
  have htwice : ∀ e, e.isException = true → twice e = [e] :=
    fun e he => by simp [twice, hfixed _ e he]
  -- The second loop runs over the values of the first one only as far as they got through.
  have hinner : Stream.throughException
      ((Stream.throughException ((Stream.plain input.values).flatMap (alone g))).flatMap
        (alone f)) = Stream.throughException ((Stream.plain input.values).flatMap twice) := by
    rw [Stream.throughException_flatMap_throughException (hfixed f), List.flatMap_assoc]
  rw [result_eval_pipe_each runner config rfl, result_eval_each]
  congr 1
  rw [← Stream.throughException_throughException_append, hinner,
    Stream.throughException_throughException_append, Stream.throughException_flatMap_plain htwice]

theorem throughException_alone_pipe_each {g : Filter} (hg : g.bindsInside = true) (f : Filter)
    (namespaces : Namespaces) (v : Value) :
    let runtime : Runtime := ⟨.standard, runner, config⟩
    let alone (h : Filter) : Value → List Value := (h.eval runtime).alone namespaces
    Stream.throughException (alone (pipe g f.each) v) =
      Stream.throughException ((alone g v).flatMap (alone f)) := by
  intro runtime alone
  cases hv : v.isException with
  | true =>
    have hfixed : ∀ h : Filter, alone h v = [v] := fun h => Evaluator.alone_exception _ _ v hv
    simp [hfixed]
  | false =>
    have halone : ∀ h : Filter, alone h v = (h.eval runtime ⟨[v], namespaces⟩).result.values :=
      fun h => Evaluator.alone_plain _ _ hv
    have hvalues : Stream.raises [v] = false := by simp [Stream.raises, hv]
    rw [halone, halone, result_eval_pipe_each_of_raises_eq_false runner config hg f hvalues,
      Stream.throughException_throughException]

/-- A loop behind a loop is the loop over the body with the other loop behind it, as long as that
body binds nothing for what is behind it, and a loop behind two filters side by side is the loop
behind either of them. In each case it makes the values one by one into what the bodies make of
them, and ends with the first exception. -/
theorem eval_each_bind (f : Filter) (input : Stream) :
    let runtime : Runtime := ⟨.standard, runner, config⟩
    let alone (h : Filter) : Value → List Value := (h.eval runtime).alone input.namespaces
    (∀ g : Filter, g.bindsInside = true →
      let together : List Value := input.values.flatMap fun v => (alone g v).flatMap (alone f)
      let output : Stream := { input with values := Stream.throughException together }
      ((pipe g.each f.each).eval runtime input).result = output ∧
        ((each (pipe g f.each)).eval runtime input).result = output) ∧
    ∀ a b : Filter, a.bindsInside = true → b.bindsInside = true →
      Stream.raises input.values = false →
      let joined : List Value :=
        (a.eval runtime input).result.values ++ (b.eval runtime input).result.values
      let output : Stream :=
        { input with values := Stream.throughException (joined.flatMap (alone f)) }
      ((pipe (comma a b) f.each).eval runtime input).result = output ∧
        ((comma (pipe a f.each) (pipe b f.each)).eval runtime input).result = output := by
  intro runtime alone
  have hfixed : ∀ e, e.isException = true → alone f e = [e] := Evaluator.alone_exception _ _
  refine ⟨fun g hg => ⟨result_eval_each_each runner config g f input, ?_⟩,
    fun a b ha hb hvalues => ?_⟩
  · have hbody := throughException_alone_pipe_each runner config hg f input.namespaces
    rw [result_eval_each, Stream.throughException_flatMap_congr fun v _ => hbody v]
  · intro joined output
    have hcomma := eval_comma runtime hvalues
    constructor
    · rw [result_eval_pipe_each_of_raises_eq_false runner config rfl f hvalues, hcomma,
        Stream.throughException_flatMap_throughException hfixed]
    · rw [hcomma, result_eval_pipe_each_of_raises_eq_false runner config ha f hvalues,
        result_eval_pipe_each_of_raises_eq_false runner config hb f hvalues,
        Stream.throughException_throughException_append,
          Stream.throughException_append_throughException,
        ← List.flatMap_append]

/-- The second value is no key, so nothing is made of the third one. -/
theorem eval_each_bind_raising_in_the_middle :
    let runtime : Runtime := ⟨.standard, .system, .standard⟩
    let input : Stream :=
      ⟨[.string "a", .null, .string "c"],
        { Namespaces.empty with locals := [("x", [.string "b"])] }⟩
    let f : Filter := .object (.pair .identity .identity)
    let g : Filter := .comma .identity (.name "x")
    let entry (key : String) : Value := .object [(key, .string key)]
    let output (values : List Value) : Stream :=
      { input with values := values ++ [Exception.wrongType.toValue] }
    (g.bindsInside = true ∧ identity.bindsInside = true ∧ Stream.raises input.values = false) ∧
      (((pipe g.each f.each).eval runtime input).result =
        ((each (pipe g f.each)).eval runtime input).result ∧
        ((pipe g.each f.each).eval runtime input).result = output [entry "a", entry "b"]) ∧
      ((pipe (comma g identity) f.each).eval runtime input).result =
          ((comma (pipe g f.each) (pipe identity f.each)).eval runtime input).result ∧
        ((pipe (comma g identity) f.each).eval runtime input).result = output [entry "a"] := by
  intro runtime input f g entry output
  have hvalues : Stream.raises input.values = false := rfl
  obtain ⟨hassoc, hcomma⟩ := eval_each_bind .system .standard f input
  obtain ⟨hpipe, hbody⟩ := hassoc g rfl
  obtain ⟨hbefore, hbehind⟩ := hcomma g identity rfl rfl hvalues
  refine ⟨⟨rfl, rfl, hvalues⟩, ⟨hpipe.trans hbody.symm, hpipe.trans ?_⟩, hbefore.trans hbehind.symm,
    hbefore.trans ?_⟩
  · cbv
  · cbv

end Filter
end QueryShell
