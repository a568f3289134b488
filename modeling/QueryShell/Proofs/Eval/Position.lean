import QueryShell.Proofs.Eval.Range

/-! Selecting a value by its position. The position is the first value that a filter makes of the
whole stream, and whatever is wrong with it takes the place of the selected value. -/

namespace QueryShell

namespace Builtin

/-- What the selection comes to, where a failure is an exception value. -/
def chosen (values positions : List Value) : Value :=
  match selected values positions with
  | .ok v => v
  | .error e => e.toValue

theorem result_nth (position : Evaluator) (input : Stream) :
    (nth [position] input).result =
      .ofValues [chosen input.values (position input).result.values] := by
  have hresult : (nth [position] input).result =
      match selected input.values (position input).result.values with
      | .ok v => .once v
      | .error e => .raised e := by
    simp only [nth, withArgument, List.getElem?_cons_zero, Run.result_bind]
    cases selected input.values (position input).result.values <;> rfl
  rw [hresult, chosen]
  cases selected input.values (position input).result.values <;> rfl

variable {values others : List Value} {x : Value} {k : Int}

theorem chosen_nil : chosen values [] = (Exception.named "empty").toValue := rfl

theorem chosen_of_isException (hx : x.isException = true) : chosen values (x :: others) = x := by
  cases x with
  | exception name fields => rfl
  | _ => cases hx

theorem selected_of_plain (hx : x.isException = false) : selected values (x :: others) = (do
    let n ← integerOf x
    match (n.toNat? (Value.countBound - 1)).bind (values[·]?) with
    | some v => .ok v
    | none => .error .noSuchPosition) := by
  cases x with
  | exception name fields => cases hx
  | _ => rfl

theorem chosen_of_not_whole (hx : x.isException = false) (hwhole : x.whole? = none) :
    chosen values (x :: others) = x.wholeFault.toValue := by
  rw [chosen, selected_of_plain hx, integerOf_of_not_whole hwhole]
  rfl

theorem chosen_of_whole? {n : Decimal} (hn : n.value = k) : chosen values (.number n :: others) =
    match (n.toNat? (Value.countBound - 1)).bind (values[·]?) with
    | some v => v
    | none => (Exception.named "numValues").toValue := by
  have hinteger : integerOf (.number n) = .ok n := if_pos (Decimal.isInteger_iff.mpr ⟨k, hn⟩)
  rw [chosen, selected_of_plain rfl, hinteger]
  dsimp only [bind, Except.bind]
  cases (n.toNat? (Value.countBound - 1)).bind (values[·]?) <;> rfl

/-- The position that an integer of any form is. Only machine counts are positions. -/
theorem toNat?_bind_getElem? {n : Decimal} (hn : n.value = k) :
    (n.toNat? (Value.countBound - 1)).bind (values[·]?) =
      if 0 ≤ k ∧ k < 2 ^ 64 then values[k.toNat]? else none := by
  by_cases hneg : k < 0
  · have hdigits : n.digits < 0 := by rwa [← Decimal.value_neg_iff, hn, Int.cast_lt_zero]
    rw [Decimal.toNat?, if_pos hdigits, if_neg (by omega), Option.bind_none]
  · obtain ⟨i, rfl⟩ := Int.eq_ofNat_of_zero_le (Int.not_lt.mp hneg)
    have hcount : i ≤ Value.countBound - 1 ↔ 0 ≤ (i : Int) ∧ (i : Int) < 2 ^ 64 := by
      rw [Value.countBound]
      omega
    rw [Int.cast_natCast] at hn
    rw [Decimal.toNat?_of_value hn, Int.toNat_natCast]
    simp only [hcount]
    split <;> rfl

theorem chosen_of_position (hwhole : x.whole? = some k) (hk : 0 ≤ k ∧ k < values.length)
    (hcount : k < 2 ^ 64) :
    chosen values (x :: others) = values[k.toNat] := by
  obtain ⟨n, rfl, hn⟩ := Value.exists_of_whole? hwhole
  have hlength : k.toNat < values.length := by omega
  rw [chosen_of_whole? hn, toNat?_bind_getElem? hn, if_pos ⟨hk.1, hcount⟩,
    List.getElem?_eq_getElem hlength]

theorem chosen_of_no_position (hwhole : x.whole? = some k)
    (hk : k < 0 ∨ values.length ≤ k ∨ 2 ^ 64 ≤ k) :
    chosen values (x :: others) = (Exception.named "numValues").toValue := by
  obtain ⟨n, rfl, hn⟩ := Value.exists_of_whole? hwhole
  rw [chosen_of_whole? hn, toNat?_bind_getElem? hn]
  by_cases hcount : 0 ≤ k ∧ k < 2 ^ 64
  · have hlength : values.length ≤ k.toNat := by omega
    rw [if_pos hcount, List.getElem?_eq_none hlength]
  · rw [if_neg hcount]

end Builtin

namespace Filter

def nth (position : Filter) : Filter := .apply [.name "nth", position]

variable (runner : Runner) (config : Config)

theorem result_eval_nth (position : Filter) {input : Stream}
    (hvalues : Stream.raises input.values = false) :
    let runtime : Runtime := ⟨.standard, runner, config⟩
    (position.nth.eval runtime input).result = { input with
      values := [Builtin.chosen input.values (position.eval runtime input).result.values] } := by
  intro runtime
  have hlookup : runtime.builtins.lookup "nth" [position].length = .ok Builtin.nth := rfl
  have heval : position.nth.eval runtime = bridge (Builtin.nth [position.eval runtime]) :=
    eval_apply_name hlookup
  have hmade := Builtin.result_nth (position.eval runtime) input
  rw [heval, result_bridge_of_raises_eq_false hvalues hmade,
    Stream.throughException_of_terminal (Stream.terminal_singleton _)]

variable {n : Decimal} {bound k : Int} {namespaces : Namespaces} {f : Filter}

theorem result_eval_range_of_value (hn : n.value = bound) (hcalls : f.Calls "range" namespaces) :
    let runtime : Runtime := ⟨.standard, runner, config⟩
    (f.eval runtime ⟨[.number n], namespaces⟩).result = ⟨Value.numbersBelow bound, namespaces⟩ := by
  intro runtime
  have hlookup : runtime.builtins.lookup "range" 0 = .ok Builtin.range := rfl
  have hinteger : Builtin.integerOf (.number n) = .ok n :=
    if_pos (Decimal.isInteger_iff.mpr ⟨bound, hn⟩)
  have hcounted : Builtin.counted [.number n] = Value.numbersBelow bound := by
    rw [Builtin.counted, hinteger]
    dsimp only
    rw [Builtin.counted, List.append_nil, Builtin.upTo_of_value hn]
  have hmade : (Builtin.range [] ⟨[.number n], namespaces⟩).result =
      .ofValues (Value.numbersBelow bound) := by
    rw [← hcounted]
    rfl
  rw [eval_of_calls hlookup hcalls, result_bridge_of_raises_eq_false rfl hmade,
    Stream.throughException_of_raises_eq_false (Value.raises_numbersBelow bound)]

/-- Behind a count the selection finds each position's own number, and none beyond the count. -/
theorem result_eval_pipe_range_nth (hn : n.value = bound) (hcalls : f.Calls "range" namespaces)
    {position : Filter} {x : Value} {others : List Value}
    (hpositions : (position.eval ⟨.standard, runner, config⟩
      ⟨Value.numbersBelow bound, namespaces⟩).result.values = x :: others)
    (hwhole : x.whole? = some k) :
    ((pipe f position.nth).eval ⟨.standard, runner, config⟩ ⟨[.number n], namespaces⟩).result =
        ⟨[.number (.ofNat k.toNat)], namespaces⟩ ↔
      0 ≤ k ∧ k < bound ∧ k < 2 ^ 64 := by
  have hresult :
      ((pipe f position.nth).eval ⟨.standard, runner, config⟩ ⟨[.number n], namespaces⟩).result =
        ⟨[Builtin.chosen (Value.numbersBelow bound) (x :: others)], namespaces⟩ := by
    have hplain : Stream.plain [Value.number n] = [.number n] := rfl
    have hnone : Stream.firstException? [Value.number n] = none := rfl
    have hone := Stream.terminal_singleton (Builtin.chosen (Value.numbersBelow bound) (x :: others))
    rw [result_eval_pipe]
    dsimp only
    rw [hplain, result_eval_range_of_value runner config hn hcalls,
      result_eval_nth runner config position (Value.raises_numbersBelow bound), hpositions, hnone,
      Option.toList_none, List.append_nil, Stream.throughException_of_terminal hone]
  have hlength : (Value.numbersBelow bound).length = bound.toNat := by simp [Value.numbersBelow]
  rw [hresult]
  constructor
  · intro hselected
    by_contra hout
    have hfault : Builtin.chosen (Value.numbersBelow bound) (x :: others) =
        (Exception.named "numValues").toValue :=
      Builtin.chosen_of_no_position hwhole (by omega)
    rw [hfault] at hselected
    cases hselected
  · rintro ⟨hzero, hbound, hcount⟩
    have hposition : 0 ≤ k ∧ k < (Value.numbersBelow bound).length := by omega
    rw [Builtin.chosen_of_position hwhole hposition hcount]
    simp [Value.numbersBelow]

/-- Over an input without exceptions the selection makes exactly one value, by the first value that
the filter of the position makes of that input, whatever it makes behind it. An integer of any form
selects the value at that position. The exception `numValues` stands for an integer below zero or
not below the length of the input, and for one that no machine counts to. No value at all is
`empty`, an exception is passed on, what is no number is `type`, and a number that is no integer is
`integer`. Behind the count up to an integer, the selection of a position yields the position itself
exactly if it is not below zero, is below that integer and is below `2 ^ 64`, to which machines
count. -/
theorem eval_nth (position : Filter) {input : Stream}
    (hvalues : Stream.raises input.values = false) :
    let runtime : Runtime := ⟨.standard, runner, config⟩
    let output (v : Value) : Stream := { input with values := [v] }
    let positions := (position.eval runtime input).result.values
    let selected := (position.nth.eval runtime input).result
    (positions = [] → selected = output (Exception.named "empty").toValue) ∧
    (∀ x others, positions = x :: others →
      (x.isException = true → selected = output x) ∧
      (x.isException = false → x.whole? = none → selected = output x.wholeFault.toValue) ∧
      ∀ k, x.whole? = some k →
        (∀ _ : 0 ≤ k ∧ k < input.values.length, k < 2 ^ 64 →
          selected = output input.values[k.toNat]) ∧
        (k < 0 ∨ input.values.length ≤ k ∨ 2 ^ 64 ≤ k →
          selected = output (Exception.named "numValues").toValue)) ∧
    ∀ (n : Decimal) (bound k : Int) (counting : Filter), n.value = bound →
      counting.Calls "range" input.namespaces →
      ∀ x others,
        (position.eval runtime ⟨Value.numbersBelow bound, input.namespaces⟩).result.values =
          x :: others → x.whole? = some k →
          (((pipe counting position.nth).eval runtime ⟨[.number n], input.namespaces⟩).result =
              output (.number (.ofNat k.toNat)) ↔
            0 ≤ k ∧ k < bound ∧ k < 2 ^ 64) := by
  intro runtime output positions selected
  have hresult : selected = output (Builtin.chosen input.values positions) :=
    result_eval_nth runner config position hvalues
  refine ⟨fun hnone => ?_, fun x others hfirst =>
    ⟨fun hx => ?_, fun hx hwhole => ?_, fun k hwhole => ⟨fun hk hcount => ?_, fun hk => ?_⟩⟩,
    fun n bound k counting hn hcalls x others hfirst hwhole =>
      result_eval_pipe_range_nth runner config hn hcalls hfirst hwhole⟩
  · rw [hresult, hnone, Builtin.chosen_nil]
  · rw [hresult, hfirst, Builtin.chosen_of_isException hx]
  · rw [hresult, hfirst, Builtin.chosen_of_not_whole hx hwhole]
  · rw [hresult, hfirst, Builtin.chosen_of_position hwhole hk hcount]
  · rw [hresult, hfirst, Builtin.chosen_of_no_position hwhole hk]

/-- The position is told in another form of two, with an exception behind it, and selects from three
values and from a count. -/
theorem eval_nth_of_form :
    let runtime : Runtime := ⟨.standard, .system, .standard⟩
    let input : Stream := ⟨[.null, .boolean true, .string "a"], .empty⟩
    let position : Filter := .comma (.number "20E-1") (.name "nope")
    let others : List Value := [(Exception.undefinedName "nope").toValue]
    let count : Decimal := ⟨30, 1⟩
    (Stream.raises input.values = false ∧
      (position.eval runtime input).result.values = .number ⟨20, 1⟩ :: others ∧
        (Value.number ⟨20, 1⟩).whole? = some 2 ∧ count.value = (3 : Int) ∧
        (name "range").Calls "range" input.namespaces) ∧
      (position.nth.eval runtime input).result = { input with values := [.string "a"] } ∧
      ((pipe (name "range") position.nth).eval runtime ⟨[.number count], input.namespaces⟩).result =
        { input with values := [.number (.ofNat 2)] } := by
  intro runtime input position others count
  have hvalues : Stream.raises input.values = false := rfl
  have hfirst : (position.eval runtime input).result.values = .number ⟨20, 1⟩ :: others := rfl
  have hwhole : (Value.number ⟨20, 1⟩).whole? = some 2 := by decide +kernel
  have hcount : count.value = (3 : Int) := Value.whole?_number_eq_some_iff.mp (by decide +kernel)
  have hcalls : (name "range").Calls "range" input.namespaces := .bare rfl
  have hcounted : (position.eval runtime ⟨Value.numbersBelow 3, input.namespaces⟩).result.values =
      .number ⟨20, 1⟩ :: others := rfl
  obtain ⟨-, hselected, hpipe⟩ := eval_nth .system .standard position hvalues
  refine ⟨⟨hvalues, hfirst, hwhole, hcount, hcalls⟩, ?_, ?_⟩
  · exact ((hselected _ others hfirst).2.2 2 hwhole).1 (by decide) (by decide)
  · exact (hpipe count 3 2 _ hcount hcalls _ others hcounted hwhole).mpr (by decide)

end Filter
end QueryShell
