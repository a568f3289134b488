import Mathlib.Data.List.Iterate
import QueryShell.Proofs.Eval.Pipe

/-! A body run on its own output, as often as the input has values: the stream that is left in the
end, and all the streams on the way. -/

namespace QueryShell

namespace Builtin

variable (body : Evaluator)

theorem result_iterated (vs : List Value) (state : Stream) :
    (iterated body vs state).result = (fun s => (body s).result)^[vs.length] state := by
  induction vs generalizing state with
  | nil => rfl
  | cons v vs ih =>
    rw [iterated, Run.result_bind, ih, List.length_cons, Function.iterate_succ_apply]

/-- No step is left out before the first exception, and the stream that the steps start from is not
shown. -/
theorem throughException_steps (vs : List Value) (state : Stream) :
    let step (s : Stream) : Stream := (body s).result
    Stream.throughException (steps body vs state).result =
      Stream.throughException
        ((List.iterate step (step state) vs.length).flatMap Stream.values) := by
  intro step
  induction vs generalizing state with
  | nil => rfl
  | cons v vs ih =>
    rw [steps, Run.result_bind, List.length_cons, List.iterate, List.flatMap_cons]
    by_cases hraises : Stream.raises (step state).values = true
    · simp [step, hraises, Stream.throughException_append]
    · rw [if_neg hraises]
      exact Stream.throughException_append_congr _ (ih (step state))

end Builtin

namespace Filter

def reduce (init body : Filter) : Filter := .apply [.name "reduce", init, body]

def forEach (init body : Filter) : Filter := .apply [.name "for", init, body]

/-- With the streams that the body makes one of the other, from what the initial filter makes of the
input, `reduce` yields the one behind as many steps as the input has values, and `for` those of all
steps up to there but not the initial one, each up to the first exception. What the body binds is
there in the next step and nowhere else. -/
theorem eval_forEach_reduce (runner : Runner) (config : Config) (init body : Filter)
    {input : Stream} (hvalues : Stream.raises input.values = false) :
    let runtime : Runtime := ⟨.standard, runner, config⟩
    let step (state : Stream) : Stream := (body.eval runtime state).result
    let state (i : Nat) : Stream := step^[i] (init.eval runtime input).result
    let count := input.values.length
    ((forEach init body).eval runtime input).result = { input with
        values := Stream.throughException
          ((List.range count).flatMap fun i => (state (i + 1)).values) } ∧
      ((reduce init body).eval runtime input).result = { input with
        values := Stream.throughException (state count).values } := by
  intro runtime step state count
  constructor
  · have hlookup : runtime.builtins.lookup "for" [init, body].length = .ok Builtin.forEach := rfl
    have heval : (forEach init body).eval runtime =
        bridge (Builtin.forEach [init.eval runtime, body.eval runtime]) :=
      eval_apply_name hlookup
    have hsteps :=
      Builtin.throughException_steps (body.eval runtime) input.values
        (init.eval runtime input).result
    rw [heval, result_bridge_of_raises_eq_false hvalues rfl, hsteps, ← List.range_map_iterate,
      List.flatMap_map]
    rfl
  · have hlookup : runtime.builtins.lookup "reduce" [init, body].length = .ok Builtin.reduce := rfl
    have heval : (reduce init body).eval runtime =
        bridge (Builtin.reduce [init.eval runtime, body.eval runtime]) :=
      eval_apply_name hlookup
    have hmade : ∀ s, (Builtin.reduce [init.eval runtime, body.eval runtime] s).result =
        .ofValues
          (Builtin.iterated (body.eval runtime) s.values
            (init.eval runtime s).result).result.values := by
      rintro ⟨values, namespaces⟩
      cases values <;> rfl
    rw [heval, result_bridge_of_raises_eq_false hvalues (hmade input), Builtin.result_iterated]

/-- The initial filter binds a variable, and every step puts its input behind what the variable
held. -/
theorem eval_forEach_reduce_growing :
    let runtime : Runtime := ⟨.standard, .system, .standard⟩
    let input : Stream := ⟨[.null, .boolean true], .empty⟩
    let init : Filter := .assign (.name "x") (.string "first")
    let body : Filter := .semicolon (.assign (.name "x") (.comma (.name "x") .identity)) (.name "x")
    let once : List Value := [.string "first", .null, .boolean true]
    Stream.raises input.values = false ∧
      ((forEach init body).eval runtime input).result =
        { input with values := once ++ (once ++ once) } ∧
      ((reduce init body).eval runtime input).result = { input with values := once ++ once } := by
  intro runtime input init body once
  have hvalues : Stream.raises input.values = false := rfl
  obtain ⟨hforEach, hreduce⟩ := eval_forEach_reduce .system .standard init body hvalues
  refine ⟨hvalues, hforEach.trans ?_, hreduce.trans ?_⟩
  · cbv
  · cbv

end Filter
end QueryShell
