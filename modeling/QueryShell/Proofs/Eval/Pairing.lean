import QueryShell.Proofs.Eval.Pipe
import QueryShell.Proofs.Value.Congruence

/-! The binary operators on what two filters yield. The values are paired in order, with the shorter
side repeated, and the results are those of the pairs up to the first that fails. -/

namespace QueryShell

theorem Value.isException_of_map {α : Type} {make : α → Value}
    (hmake : ∀ a, (make a).isException = false) {result : Except Exception α} {v : Value}
    (h : make <$> result = .ok v) : v.isException = false := by
  cases result with
  | error e => cases h
  | ok a =>
    obtain rfl := Except.ok.inj h
    exact hmake a

theorem Value.isException_of_add {left right v : Value} (h : add left right = .ok v) :
    v.isException = false := by
  unfold add at h
  split at h <;> cases h <;> rfl

theorem Value.isException_of_multiply {left right v : Value} (h : multiply left right = .ok v) :
    v.isException = false := by
  unfold multiply at h
  split at h
  · cases h
    rfl
  · exact isException_of_map (fun _ => rfl) h
  · exact isException_of_map (fun _ => rfl) h
  · exact isException_of_map (fun _ => rfl) h
  · exact isException_of_map (fun _ => rfl) h
  · cases h

namespace Operator

def toFilter : Operator → Filter → Filter → Filter
  | .add => .add
  | .multiply => .multiply
  | .pair => .pair

theorem eval_toFilter (op : Operator) (runtime : Runtime) (l r : Filter) :
    (op.toFilter l r).eval runtime = Node.binary op (l.eval runtime) (r.eval runtime) := by
  cases op <;> rfl

/-- Results in order through the first failure, which is shown as an exception. -/
def throughFailure : List (Except Exception Value) → List Value
  | [] => []
  | .ok v :: rest => v :: throughFailure rest
  | .error e :: _ => [e.toValue]

theorem isException_of_apply {op : Operator} {left right v : Value}
    (h : op.apply left right = .ok v) :
    v.isException = false := by
  cases op with
  | add => exact Value.isException_of_add h
  | multiply => exact Value.isException_of_multiply h
  | pair =>
    cases h
    rfl

theorem outcome_of_ok {op : Operator} {left right v : Value} (h : op.apply left right = .ok v) :
    op.outcome left right = v := by
  rw [outcome, h]

theorem outcome_of_error {op : Operator} {left right : Value} {e : Exception}
    (h : op.apply left right = .error e) :
    op.outcome left right = e.toValue := by
  rw [outcome, h]

/-- The first exception among the outcomes is the first failure. -/
theorem throughException_map_outcome {α : Type} (op : Operator) (left right : α → Value)
    (positions : List α) :
    Stream.throughException (positions.map fun i => op.outcome (left i) (right i)) =
      throughFailure (positions.map fun i => op.apply (left i) (right i)) := by
  induction positions with
  | nil => rfl
  | cons i positions ih =>
    rw [List.map_cons, List.map_cons, Stream.throughException]
    cases happly : op.apply (left i) (right i) with
    | ok v =>
      rw [throughFailure, outcome_of_ok happly, isException_of_apply happly,
        if_neg Bool.false_ne_true, ih]
    | error e =>
      rw [throughFailure, outcome_of_error happly]
      rfl

end Operator

namespace Node

/-- The exception that comes first on the left is raised, or else that on the right, or else the
pairs are worked out. -/
theorem result_binary (op : Operator) (left right : Evaluator) {input : Stream}
    (h : Stream.raises input.values = false) :
    let first := (left input).result.values
    let second := (right input).result.values
    (binary op left right input).result = { input with
      values := match Stream.firstException? (first ++ second) with
        | some e => [e]
        | none => Stream.throughException (op.pairwise first second) } := by
  intro first second
  rw [binary, bridge_of_raises_eq_false _ h, Run.result_map, Run.result_bind, Run.result_bind]
  cases Stream.firstException? (first ++ second) with
  | some e => rw [Run.result_pure, Generated.values_once]
  | none => rw [Run.result_pure, Generated.values_ofValues]

end Node

namespace Filter

/-- Over an input without exceptions, an operator raises the first exception of its left side, or
else that of its right side. If neither side yields one, an empty side leaves the other one as it
is. Otherwise the values are paired in order, those of the shorter side over and over, and the
results are those of the pairs up to the first that fails. -/
theorem eval_pairing (runtime : Runtime) {input : Stream}
    (hvalues : Stream.raises input.values = false) (op : Operator) (l r : Filter) :
    let first := (l.eval runtime input).result.values
    let second := (r.eval runtime input).result.values
    let yields (values : List Value) : Prop :=
      ((op.toFilter l r).eval runtime input).result = { input with values := values }
    (∀ e, Stream.firstException? first = some e → yields [e]) ∧
    (∀ e, Stream.raises first = false → Stream.firstException? second = some e → yields [e]) ∧
    (Stream.raises first = false → Stream.raises second = false →
      (first = [] → yields second) ∧ (second = [] → yields first) ∧
      (first ≠ [] → second ≠ [] →
        ∃ (hfirst : ∀ i, i % first.length < first.length)
          (hsecond : ∀ i, i % second.length < second.length),
          yields (Operator.throughFailure ((List.range (max first.length second.length)).map fun i =>
            op.apply (first.get ⟨i % first.length, hfirst i⟩)
              (second.get ⟨i % second.length, hsecond i⟩))))) := by
  intro first second yields
  have hshown : ((op.toFilter l r).eval runtime input).result = { input with
      values := match (Stream.firstException? first).or (Stream.firstException? second) with
        | some e => [e]
        | none => Stream.throughException (op.pairwise first second) } := by
    rw [op.eval_toFilter, Node.result_binary op _ _ hvalues, Stream.firstException?_append]
  refine ⟨fun e he => ?_, fun e hplain he => ?_, fun hplain hplain' => ?_⟩
  · rw [he, Option.some_or] at hshown
    exact hshown
  · rw [Stream.firstException?_eq_none_iff.mpr hplain, he, Option.none_or] at hshown
    exact hshown
  · rw [Stream.firstException?_eq_none_iff.mpr hplain,
      Stream.firstException?_eq_none_iff.mpr hplain', Option.none_or] at hshown
    refine ⟨fun hempty => ?_, fun hempty => ?_, fun hleft hright => ?_⟩
    · rw [hempty, op.pairwise_nil_left, Stream.throughException_of_raises_eq_false hplain']
        at hshown
      exact hshown
    · rw [hempty, op.pairwise_nil_right, Stream.throughException_of_raises_eq_false hplain]
        at hshown
      exact hshown
    · have hfirst (i : Nat) : i % first.length < first.length :=
        Nat.mod_lt i (List.length_pos_iff.mpr hleft)
      have hsecond (i : Nat) : i % second.length < second.length :=
        Nat.mod_lt i (List.length_pos_iff.mpr hright)
      refine ⟨hfirst, hsecond, ?_⟩
      rw [op.pairwise_of_ne_nil hleft hright, op.throughException_map_outcome] at hshown
      exact hshown

/-- Five pairs are due, and the third one fails. The shorter side starts again in it. -/
theorem eval_pairing_failing_in_the_middle :
    let runtime : Runtime := ⟨.standard, .system, .standard⟩
    let input : Stream :=
      ⟨[.string "c"], { Namespaces.empty with globals := [("g", [.string "a", .string "b"])] }⟩
    let l : Filter := .globalVariable (.name "g")
    let r : Filter :=
      .comma (.comma .identity .identity) (.comma (.name "null") (.comma .identity .identity))
    Stream.raises input.values = false ∧
      ((Operator.add.toFilter l r).eval runtime input).result =
        { input with values := [.string "ac", .string "bc", Exception.wrongType.toValue] } := by
  intro runtime input l r
  have hvalues : Stream.raises input.values = false := rfl
  obtain ⟨_, _, hpairs⟩ := eval_pairing runtime hvalues .add l r
  have hleft : (l.eval runtime input).result.values = [.string "a", .string "b"] := by cbv
  have hright : (r.eval runtime input).result.values =
      [.string "c", .string "c", .null, .string "c", .string "c"] := by cbv
  rw [hleft, hright] at hpairs
  obtain ⟨_, _, hyields⟩ := (hpairs rfl rfl).2.2 (List.cons_ne_nil _ _) (List.cons_ne_nil _ _)
  exact ⟨hvalues, hyields⟩

end Filter
end QueryShell
