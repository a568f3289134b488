import QueryShell.Proofs.Eval.Pipe

/-! Filters side by side. Each of them is run on the whole input, in the namespaces of the input,
and what they yield is joined in order up to the first exception. -/

namespace QueryShell.Filter

variable (runtime : Runtime) {input : Stream}

theorem eval_comma (hvalues : Stream.raises input.values = false) (l r : Filter) :
    let first := l.eval runtime input
    let second := r.eval runtime input
    (comma l r).eval runtime input =
      ⟨{ input with
          values := Stream.throughException (first.result.values ++ second.result.values) },
        first.calls ++ second.calls⟩ := by
  intro first second
  apply Run.ext
  · rw [eval]
    exact result_bridge_of_raises_eq_false hvalues rfl
  · rw [eval, Node.comma, bridge_of_raises_eq_false _ hvalues, Run.calls_map, Run.calls_bind,
      Run.calls_bind, Run.calls_pure, List.append_nil]

theorem eval_empty (hvalues : Stream.raises input.values = false) :
    empty.eval runtime input = return { input with values := [] } := by
  rw [eval, Node.constant, bridge_of_raises_eq_false _ hvalues]
  rfl

/-- Over an input and scopes without exceptions, filters side by side are a monoid: however three of
them are bracketed, they yield their values in order up to the first exception, and the empty filter
adds nothing on either side. Every filter is run in the namespaces of the input, which are left as
they were. -/
theorem eval_comma_monoid (hvalues : Stream.raises input.values = false)
    (hscopes : input.namespaces.Plain) (a b c : Filter) :
    let first := a.eval runtime input
    let second := b.eval runtime input
    let third := c.eval runtime input
    let joined : List Value := first.result.values ++ second.result.values ++ third.result.values
    let all : Run Stream :=
      ⟨{ input with values := Stream.throughException joined },
        first.calls ++ second.calls ++ third.calls⟩
    let alone : Run Stream := ⟨{ input with values := first.result.values }, first.calls⟩
    (comma (comma a b) c).eval runtime input = all ∧
      (comma a (comma b c)).eval runtime input = all ∧
      (comma .empty a).eval runtime input = alone ∧
      (comma a .empty).eval runtime input = alone := by
  intro first second third joined all alone
  have hcomma := eval_comma runtime hvalues
  have hempty := eval_empty runtime hvalues
  have hcut : Stream.throughException first.result.values = first.result.values :=
    throughException_eval hvalues hscopes a
  refine ⟨?_, ?_, ?_, ?_⟩
  · rw [hcomma, hcomma]
    simp only [Stream.throughException_throughException_append, all, joined, first, second, third]
  · rw [hcomma, hcomma]
    simp only [Stream.throughException_append_throughException, List.append_assoc, all, joined,
      first, second, third]
  · rw [hcomma, hempty]
    simp only [Run.result_pure, Run.calls_pure, List.nil_append, alone]
    rw [hcut]
  · rw [hcomma, hempty]
    simp only [Run.result_pure, Run.calls_pure, List.append_nil, alone]
    rw [hcut]

/-- The first filter binds a variable that the second one reads as it was, and the second one stops
the third. -/
theorem eval_comma_binding_inside :
    let runtime : Runtime := ⟨.standard, .system, .standard⟩
    let input : Stream :=
      ⟨[.null], { Namespaces.empty with locals := [("x", [.string "outside"])] }⟩
    let a : Filter := .semicolon (.assign (.name "x") (.string "inside")) (.name "x")
    let b : Filter := .comma (.name "x") (.name "nope")
    let c : Filter := .name "x"
    let expected : List Value :=
      [.string "inside", .string "outside", (Exception.undefinedName "nope").toValue]
    (Stream.raises input.values = false ∧ input.namespaces.Plain) ∧
      (comma (comma a b) c).eval runtime input = (comma a (comma b c)).eval runtime input ∧
      ((comma (comma a b) c).eval runtime input).result = { input with values := expected } ∧
      ((comma .empty a).eval runtime input).result =
        { input with values := [.string "inside"] } := by
  intro runtime input a b c expected
  have hvalues : Stream.raises input.values = false := rfl
  have hscopes : input.namespaces.Plain := ⟨Scope.plain_nil, Scope.plain_nil.bind "x" rfl⟩
  obtain ⟨hleft, hright, hempty, _⟩ := eval_comma_monoid runtime hvalues hscopes a b c
  refine ⟨⟨hvalues, hscopes⟩, hleft.trans hright.symm, ?_, ?_⟩
  · rw [hleft]
    cbv
  · rw [hempty]
    cbv

end QueryShell.Filter
