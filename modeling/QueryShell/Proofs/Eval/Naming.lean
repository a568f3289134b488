import QueryShell.Proofs.Eval.Pipe

/-! Names that are computed. A filter that yields exactly one string stands for the name that it
yields, wherever a name is expected; in place of any other filter an exception is raised. -/

namespace QueryShell

namespace Namer

/-- What is raised of values that are not just one string: the exception that comes first, or else a
complaint about them. -/
structure Unnamed (values : List Value) (e : Exception) : Prop where
  not_name (name : String) : values ≠ [.string name]
  raised : match values.head?.bind Value.asException? with
    | some first => e = first
    | none => ∃ reason, e = .noSensibleString reason

theorem exists_unnamed {values : List Value} (h : ∀ name, values ≠ [.string name]) :
    ∃ e, Unnamed values e ∧ sensible values = .error e := by
  match values, h with
  | [], h => exact ⟨_, ⟨h, _, rfl⟩, rfl⟩
  | .exception name fields :: _, h => exact ⟨⟨name, fields⟩, ⟨h, rfl⟩, rfl⟩
  | [.string text], h => exact absurd rfl (h text)
  | .string _ :: _ :: _, h => exact ⟨_, ⟨h, _, rfl⟩, rfl⟩
  | .null :: _, h | .boolean _ :: _, h | .number _ :: _, h | .array _ :: _, h | .object _ :: _, h =>
    exact ⟨_, ⟨h, _, rfl⟩, rfl⟩

theorem resolve_literal (name : String) (compute : Evaluator) (input : Stream) :
    resolve ⟨some name, compute⟩ input = return .ok name := rfl

theorem resolve_computed (compute : Evaluator) (input : Stream) :
    resolve ⟨none, compute⟩ input = compute input >>= fun output => return sensible output.values :=
  rfl

end Namer

/-- Where a filter stands for a name. -/
inductive NamePlace where
  | function (args : List Filter)
  | program
  | globalVariable

namespace NamePlace

def fill : NamePlace → Filter → Filter
  | .function args, f => .apply (f :: args)
  | .program, f => .command f
  | .globalVariable, f => .globalVariable f

/-- The filter is read as a name there. Beside some arguments a filter makes no call but the
identity or a number. -/
def Takes : NamePlace → Filter → Prop
  | .function args, f =>
    (Filter.apply (f :: args)).isIdentity = false ∧ Filter.splitDecimal? (f :: args) = none
  | .program, _ => True
  | .globalVariable, _ => True

variable {runtime : Runtime} {input : Stream} {f : Filter}

theorem eval_function {args : List Filter} (h : (function args).Takes f) :
    (Filter.apply (f :: args)).eval runtime =
      Node.call runtime ⟨f.literalName?, f.eval runtime⟩ (args.map (Filter.eval runtime)) := by
  obtain ⟨hidentity, hsplit⟩ := h
  rw [Filter.isIdentity] at hidentity
  rw [Filter.eval, hidentity, hsplit, if_neg Bool.false_ne_true]
  simp only [Filter.evalCall, Filter.evalAll_eq_map]

theorem takes_name (place : NamePlace) (name : String) : place.Takes (.name name) := by
  cases place with
  | function args => exact ⟨rfl, rfl⟩
  | program => trivial
  | globalVariable => trivial

/-- First the filter is run for the name, and then what the name stands for, on the same input and
in the same namespaces. -/
theorem eval_fill (hvalues : Stream.raises input.values = false) (hcomputed : f.literalName? = none)
    {place : NamePlace} (hplace : place.Takes f) :
    (place.fill f).eval runtime input = f.eval runtime input >>= fun output =>
      match Namer.sensible output.values with
      | .error e => Node.raise e input
      | .ok name => (place.fill (.name name)).eval runtime input := by
  cases place with
  | function args =>
    rw [fill, eval_function hplace, Node.call, hcomputed, Namer.resolve_computed, bind_assoc]
    refine bind_congr fun output => ?_
    cases Namer.sensible output.values with
    | error e => rfl
    | ok name =>
      show _ = (Filter.apply (.name name :: args)).eval runtime input
      rw [eval_function (takes_name (.function args) name)]
      rfl
  | program =>
    rw [fill, Filter.eval, Node.command, bridge_of_raises_eq_false _ hvalues, hcomputed,
      Namer.resolve_computed, bind_assoc, map_bind]
    refine bind_congr fun output => ?_
    cases Namer.sensible output.values with
    | error e => rfl
    | ok name =>
      show _ = (Filter.command (.name name)).eval runtime input
      rw [Filter.eval, Node.command, bridge_of_raises_eq_false _ hvalues]
      rfl
  | globalVariable =>
    -- A literal name is looked up without reading the input, which holds no exception to pass on.
    have hreplay (values : List Value) : Node.replay values input =
        { input with values := values } := by
      rw [Node.replay, Stream.firstException?_eq_none_iff.mpr hvalues, Option.toList_none,
        List.append_nil]
    rw [fill, Filter.eval, Node.globalVariable, hcomputed]
    dsimp only
    rw [Namer.resolve_computed, bind_assoc]
    refine bind_congr fun output => ?_
    cases Namer.sensible output.values with
    | error e => rfl
    | ok name =>
      exact congrArg pure (hreplay (Node.globalValues input.namespaces.globals name)).symm

/-- Over an input without exceptions, a filter in place of a name that yields exactly one string
does, behind its own calls, what that string does as a name written in its place. If it yields
anything else, one exception is raised, the namespaces are as they were, and nothing is run beside
the filter. -/
theorem eval_computed_name (runtime : Runtime) {input : Stream}
    (hvalues : Stream.raises input.values = false) (place : NamePlace) {f : Filter}
    (hcomputed : f.literalName? = none) (hplace : place.Takes f) :
    let naming := f.eval runtime input
    (∀ name, naming.result.values = [.string name] →
      let literal := (place.fill (.name name)).eval runtime input
      (place.fill f).eval runtime input = ⟨literal.result, naming.calls ++ literal.calls⟩) ∧
    ((∀ name, naming.result.values ≠ [.string name]) →
      ∃ e : Exception, Namer.Unnamed naming.result.values e ∧
      (place.fill f).eval runtime input =
        ⟨{ input with values := [e.toValue] }, naming.calls⟩) := by
  intro naming
  have heval := @eval_fill runtime input f hvalues hcomputed place hplace
  refine ⟨fun name hname => ?_, fun hnone => ?_⟩
  · have hsensible : Namer.sensible naming.result.values = .ok name := by
      rw [hname]
      rfl
    rw [heval]
    apply Run.ext
    · rw [Run.result_bind, hsensible]
    · rw [Run.calls_bind, hsensible]
  · obtain ⟨e, he, hsensible⟩ := Namer.exists_unnamed hnone
    refine ⟨e, he, ?_⟩
    rw [heval]
    apply Run.ext
    · rw [Run.result_bind, hsensible]
      rfl
    · rw [Run.calls_bind, hsensible]
      exact List.append_nil naming.calls

/-- A program answers which program to run, and two names are one too many. -/
theorem eval_computed_name_answered :
    let runtime : Runtime := ⟨.standard, .system, .standard⟩
    let input : Stream := ⟨[.string "cat"], .empty⟩
    let f : Filter := .command (.name "cat")
    let g : Filter := .comma .identity .identity
    let call : Call := ⟨"cat", [34, 99, 97, 116, 34, 10, 4]⟩
    (Stream.raises input.values = false ∧ f.literalName? = none ∧ program.Takes f ∧
      g.literalName? = none ∧
        (function [f]).Takes g) ∧
      (Filter.command f).eval runtime input = ⟨input, [call, call]⟩ ∧
      ∃ e : Exception, e.name = "sensibleString" ∧
        (Filter.apply [g, f]).eval runtime input = ⟨{ input with values := [e.toValue] }, []⟩ := by
  intro runtime input f g call
  have hvalues : Stream.raises input.values = false := rfl
  have htakes : (function [f]).Takes g := ⟨rfl, rfl⟩
  have hone : f.eval runtime input = ⟨input, [call]⟩ := by cbv
  have htwo : g.eval runtime input =
      ⟨{ input with values := [.string "cat", .string "cat"] }, []⟩ := by cbv
  obtain ⟨hnamed, _⟩ := eval_computed_name runtime hvalues program (f := f) rfl trivial
  obtain ⟨_, hunnamed⟩ := eval_computed_name runtime hvalues (function [f]) (f := g) rfl htakes
  refine ⟨⟨hvalues, rfl, trivial, rfl, htakes⟩, ?_, ?_⟩
  · have hcall := hnamed "cat" (by rw [hone])
    rw [hone] at hcall
    exact hcall
  · rw [htwo] at hunnamed
    obtain ⟨e, ⟨_, reason, rfl⟩, hraised⟩ := hunnamed (by simp)
    exact ⟨_, rfl, hraised⟩

end NamePlace
end QueryShell
