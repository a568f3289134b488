import QueryShell.Proofs.Eval.Frame

/-! Filters in sequence. How a sequence is bracketed makes no difference: it is the list of its
stages. -/

namespace QueryShell

namespace Node

theorem semicolon_assoc (first second third : Evaluator) :
    semicolon (semicolon first second) third = semicolon first (semicolon second third) := by
  funext input
  cases hfirst : Stream.firstException? (first input).result.values with
  | some e =>
    -- The inner sequence passes on the one exception, and the outer one finds it again.
    have he := Stream.isException_of_firstException? hfirst
    have hinner := semicolon_of_firstException? hfirst second
    have houter : Stream.firstException? (semicolon first second input).result.values = some e := by
      simp [hinner, Stream.firstException?, he]
    rw [semicolon_of_firstException? houter, hinner, semicolon_of_firstException? hfirst]
  | none =>
    have hplain := Stream.firstException?_eq_none_iff.mp hfirst
    have hinner := semicolon_of_raises_eq_false hplain second
    let middle : Stream := ⟨input.values, { input.namespaces with
      globals := (first input).result.namespaces.globals
      locals := (first input).result.namespaces.locals }⟩
    have hresult : (semicolon first second input).result = (second middle).result := by
      rw [hinner, Run.result_bind]
    have hcalls : (semicolon first second input).calls =
        (first input).calls ++ (second middle).calls := by
      rw [hinner, Run.calls_bind]
    rw [semicolon_of_raises_eq_false hplain (semicolon second third)]
    cases hsecond : Stream.firstException? (second middle).result.values with
    | some e =>
      have houter : Stream.firstException? (semicolon first second input).result.values =
          some e := by
        rw [hresult, hsecond]
      rw [semicolon_of_firstException? houter]
      apply Run.ext
      · rw [Run.result_bind, semicolon_of_firstException? hsecond, hresult]
      · rw [Run.calls_bind, semicolon_of_firstException? hsecond, hcalls]
    | none =>
      have hplain' := Stream.firstException?_eq_none_iff.mp hsecond
      have houter : Stream.raises (semicolon first second input).result.values = false := by
        rw [hresult, hplain']
      rw [semicolon_of_raises_eq_false houter]
      apply Run.ext
      · rw [Run.result_bind, Run.result_bind, semicolon_of_raises_eq_false hplain', Run.result_bind,
          hresult]
      · rw [Run.calls_bind, Run.calls_bind, semicolon_of_raises_eq_false hplain', Run.calls_bind,
          hresult, hcalls, List.append_assoc]

end Node

namespace Filter

/-- The filters that a sequence runs, in order. -/
def stages : Filter → List Filter
  | .semicolon l r => l.stages ++ r.stages
  | f => [f]

/-- An evaluator behind some stages. -/
def before (runtime : Runtime) (fs : List Filter) (last : Evaluator) : Evaluator :=
  fs.foldr (fun f rest => Node.semicolon (f.eval runtime) rest) last

theorem semicolon_before (runtime : Runtime) (fs : List Filter) (last next : Evaluator) :
    Node.semicolon (before runtime fs last) next =
      before runtime fs (Node.semicolon last next) := by
  induction fs with
  | nil => rfl
  | cons f fs ih =>
    rw [before, List.foldr_cons, ← before, Node.semicolon_assoc, ih]
    rfl

theorem exists_stages (runtime : Runtime) (f : Filter) :
    ∃ fs last, f.stages = fs ++ [last] ∧
    f.eval runtime = before runtime fs (last.eval runtime) := by
  induction f using Filter.induction with
  | semicolon l r ihl ihr =>
    obtain ⟨fs, last, hl, hleft⟩ := ihl
    obtain ⟨gs, last', hr, hright⟩ := ihr
    refine ⟨fs ++ last :: gs, last', by simp [stages, hl, hr], ?_⟩
    rw [eval, hleft, hright, semicolon_before]
    simp [before]
  | _ => exact ⟨[], _, rfl, rfl⟩

theorem eval_eq_of_stages_eq (runtime : Runtime) {f g : Filter} (h : f.stages = g.stages) :
    f.eval runtime = g.eval runtime := by
  obtain ⟨fs, last, hf, hfirst⟩ := exists_stages runtime f
  obtain ⟨gs, last', hg, hsecond⟩ := exists_stages runtime g
  rw [hf, hg] at h
  obtain ⟨rfl, hlast⟩ := List.append_inj' h rfl
  obtain rfl := List.singleton_inj.mp hlast
  rw [hfirst, hsecond]

theorem result_eval_semicolon (runtime : Runtime) (l r : Filter) (input : Stream) :
    let first := (l.eval runtime input).result
    ((semicolon l r).eval runtime input).result =
      match Stream.firstException? first.values with
      | some e => ⟨[e], first.namespaces⟩
      | none => (r.eval runtime ⟨input.values, first.namespaces⟩).result := by
  intro first
  cases hfirst : Stream.firstException? first.values with
  | some e => rw [eval, Node.semicolon_of_firstException? hfirst]
  | none =>
    have hplain := Stream.firstException?_eq_none_iff.mp hfirst
    rw [eval_semicolon_of_raises_eq_false hplain, Run.result_bind]

/-- Three filters in sequence are run in order, however they are bracketed, each on the whole input
and under the scopes that the one before it left. The first of them that raises an exception stops
the sequence: its first exception is left, under its own scopes. If neither of the first two does,
all that the third yields is left. -/
theorem eval_semicolon_assoc (runtime : Runtime) (a b c : Filter) (input : Stream) :
    let first := (a.eval runtime input).result
    let second := (b.eval runtime ⟨input.values, first.namespaces⟩).result
    let third := (c.eval runtime ⟨input.values, second.namespaces⟩).result
    (semicolon (semicolon a b) c).eval runtime input =
        (semicolon a (semicolon b c)).eval runtime input ∧
      ((semicolon a (semicolon b c)).eval runtime input).result =
        match Stream.firstException? first.values, Stream.firstException? second.values with
        | some e, _ => ⟨[e], first.namespaces⟩
        | none, some e => ⟨[e], second.namespaces⟩
        | none, none => third := by
  intro first second third
  refine ⟨?_, ?_⟩
  · have hbrackets : (semicolon (semicolon a b) c).stages =
        (semicolon a (semicolon b c)).stages := by
      simp only [stages, List.append_assoc]
    rw [eval_eq_of_stages_eq runtime hbrackets]
  · rw [result_eval_semicolon, result_eval_semicolon]
    cases Stream.firstException? first.values with
    | some e => rfl
    | none => cases Stream.firstException? second.values <;> rfl

end Filter
end QueryShell
