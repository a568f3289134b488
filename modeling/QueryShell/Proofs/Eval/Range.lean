import QueryShell.Proofs.Decimal.Arithmetic
import QueryShell.Proofs.Decimal.Spelling
import QueryShell.Proofs.Eval.Form
import QueryShell.Proofs.Eval.Pipe
import QueryShell.Proofs.Value.Whole
import QueryShell.Value.Render

/-! Counting up to the integers of a stream. Each of them, in whatever form, makes as many natural
numbers as it says, and the first value that is no integer ends the stream. -/

namespace QueryShell

namespace Decimal

/-- Counting by ones as long as the bound is not reached. -/
inductive CountsUp (bound : Decimal) : Decimal → List Decimal → Prop where
  | done {next : Decimal} (h : next.cmp bound ≠ .lt) : CountsUp bound next []
  | more {next : Decimal} {rest : List Decimal} (h : next.cmp bound = .lt)
    (hrest : CountsUp bound (next.add (.ofNat 1)) rest) : CountsUp bound next (next :: rest)

variable {bound next : Decimal} {ns ms : List Decimal} {k : Int}

theorem CountsUp.unique (h : CountsUp bound next ns) (h' : CountsUp bound next ms) : ns = ms := by
  induction h generalizing ms with
  | done hstop =>
    cases h' with
    | done => rfl
    | more hgoing _ => exact absurd hgoing hstop
  | more hgoing _ ih =>
    cases h' with
    | done hstop => exact absurd hgoing hstop
    | more _ hrest => rw [ih hrest]

theorem ofNat_cmp_eq_lt_iff (hbound : bound.value = k) (i : Nat) :
    (ofNat i).cmp bound = .lt ↔ (i : Int) < k := by
  rw [cmp_eq_lt_iff, value_ofNat, hbound, ← Int.cast_natCast, Int.cast_lt]

theorem countsUp_from (hbound : bound.value = k) (count i : Nat) (hcount : count = (k - i).toNat) :
    CountsUp bound (ofNat i) ((List.range' i count).map ofNat) := by
  induction count generalizing i with
  | zero =>
    refine .done fun hlt => ?_
    have hbelow := (ofNat_cmp_eq_lt_iff hbound i).mp hlt
    omega
  | succ count ih =>
    have hrest := ih (i + 1) (by omega)
    rw [← ofNat_add_one] at hrest
    exact .more ((ofNat_cmp_eq_lt_iff hbound i).mpr (by omega)) hrest

/-- Counting goes through the natural numbers below the integer that the bound is, and comes to an
end. -/
theorem countsUp_iff (hbound : bound.value = k) :
    CountsUp bound (ofNat 0) ns ↔ ns = (List.range k.toNat).map ofNat := by
  have hcounts : CountsUp bound (ofNat 0) ((List.range k.toNat).map ofNat) := by
    rw [List.range_eq_range']
    exact countsUp_from hbound k.toNat 0 (by simp)
  exact ⟨fun h => h.unique hcounts, fun h => h ▸ hcounts⟩

theorem toText_ofNat (i : Nat) : (ofNat i).toText = Numeral.write i := by
  by_cases hzero : i = 0
  · rw [hzero, Numeral.write_of_lt (by omega)]
    rfl
  · have hdigits : (ofNat i).digits ≠ 0 := Int.natCast_ne_zero.mpr hzero
    have hsign : ¬ (ofNat i).digits < 0 := Int.not_lt.mpr (Int.natCast_nonneg i)
    have hwhole : unsignedText 'E' (Numeral.write i) 0 = Numeral.write i ++ [] :=
      unsignedText_of_whole 'E' (Numeral.write i) (by decide)
    rw [toText, toTextWith, if_neg hdigits, if_neg hsign]
    exact hwhole.trans (List.append_nil _)

end Decimal

namespace Value

/-- The natural numbers below an integer. -/
def numbersBelow (k : Int) : List Value := (List.range k.toNat).map fun i => .number (.ofNat i)

theorem raises_numbersBelow (k : Int) : Stream.raises (numbersBelow k) = false := by
  simp [numbersBelow, Stream.raises, isException]

theorem display_ofNat (i : Nat) : (Value.number (.ofNat i)).display = toString i := by
  have hdigits : (Value.number (.ofNat i)).display = String.ofList (Decimal.ofNat i).toText := rfl
  rw [hdigits, Decimal.toText_ofNat, Numeral.write_eq_toDigits]
  rfl

end Value

namespace Builtin

theorem upTo_of_value {bound : Decimal} {k : Int} (h : bound.value = k) :
    upTo bound = Value.numbersBelow k := by
  rw [upTo, Decimal.truncated_of_value h, Value.numbersBelow]
  by_cases hpos : 0 < bound.digits
  · rw [if_pos hpos]
  · have hk : k ≤ 0 := by
      rcases Int.lt_or_eq_of_le (Int.not_lt.mp hpos) with hneg | hzero
      · have hvalue := Decimal.value_neg_iff.mpr hneg
        rw [h, Int.cast_lt_zero] at hvalue
        omega
      · have hvalue := Decimal.value_eq_zero_iff.mpr hzero
        rw [h, Int.cast_eq_zero] at hvalue
        omega
    rw [if_neg hpos, Int.toNat_of_nonpos hk]
    rfl

/-- What the counting makes of a stream: natural numbers for each integer, and the exception for the
first value that is none. -/
theorem counted_eq (vs : List Value) :
    counted vs =
      ((vs.takeWhile (·.whole?.isSome)).filterMap Value.whole?).flatMap Value.numbersBelow ++
      ((vs.find? (·.whole?.isNone)).map fun v => v.wholeFault.toValue).toList := by
  induction vs with
  | nil => rfl
  | cons v vs ih =>
    rw [counted]
    cases hwhole : v.whole? with
    | none =>
      rw [integerOf_of_not_whole hwhole]
      simp [hwhole]
    | some k =>
      obtain ⟨n, hinteger, hvalue⟩ := integerOf_of_whole? hwhole
      rw [hinteger]
      dsimp only
      rw [ih, upTo_of_value hvalue]
      simp [hwhole]

end Builtin
namespace Filter

/-- Over an input without exceptions `range` counts up to each integer, whatever the form of the
number, as far as there are integers. Nothing comes of those that are not positive. The first other
value raises one exception, `type` if it is no number and `integer` if it is one, and nothing comes
of the values behind it. What is counted is what adding ones to zero goes through before it comes to
the integer, and it is shown without a point. -/
theorem eval_range (runner : Runner) (config : Config) {input : Stream}
    (hvalues : Stream.raises input.values = false) {f : Filter}
    (hcalls : f.Calls "range" input.namespaces) :
    let runtime : Runtime := ⟨.standard, runner, config⟩
    let integers := (input.values.takeWhile (·.whole?.isSome)).filterMap Value.whole?
    let offender? := input.values.find? (·.whole?.isNone)
    (f.eval runtime input).result = { input with
      values := integers.flatMap Value.numbersBelow ++
        (offender?.map fun v => v.wholeFault.toValue).toList } ∧
    (∀ bound k, (Value.number bound).whole? = some k → ∀ ns, bound.CountsUp (.ofNat 0) ns ↔
      ns = (List.range k.toNat).map .ofNat) ∧
    ∀ k, (Value.numbersBelow k).map Value.display = (List.range k.toNat).map toString := by
  intro runtime integers offender?
  refine ⟨?_, fun bound k hwhole ns => ?_, fun k => ?_⟩
  · have hlookup : runtime.builtins.lookup "range" 0 = .ok Builtin.range := rfl
    have hcounted : Stream.raises (integers.flatMap Value.numbersBelow) = false := by
      refine Stream.raises_eq_false_iff.mpr fun v hv => ?_
      obtain ⟨k, _, hmem⟩ := List.mem_flatMap.mp hv
      exact Stream.raises_eq_false_iff.mp (Value.raises_numbersBelow k) v hmem
    have hterminal :=
      Stream.terminal_append_toList hcounted (offender?.map fun v => v.wholeFault.toValue)
    have hmade : (Builtin.range [] input).result = .ofValues (Builtin.counted input.values) := rfl
    rw [eval_of_calls hlookup hcalls, result_bridge_of_raises_eq_false hvalues hmade,
      Builtin.counted_eq, Stream.throughException_of_terminal hterminal]
  · exact Decimal.countsUp_iff (Value.whole?_number_eq_some_iff.mp hwhole)
  · simp [Value.numbersBelow, Value.display_ofNat]

/-- Two forms of integers, one that is not positive, and a number that is no integer. -/
theorem eval_range_of_forms :
    let runtime : Runtime := ⟨.standard, .system, .standard⟩
    let input : Stream :=
      ⟨[.number ⟨300, 2⟩, .number ⟨2, 0⟩, .number ⟨-5, 0⟩, .number ⟨15, 1⟩, .number ⟨2, 0⟩], .empty⟩
    let counted : List Value := [0, 1, 2, 0, 1].map fun i => .number (.ofNat i)
    Stream.raises input.values = false ∧ (name "range").Calls "range" input.namespaces ∧
      ((name "range").eval runtime input).result =
        { input with values := counted ++ [(Exception.named "integer").toValue] } := by
  intro runtime input counted
  have hvalues : Stream.raises input.values = false := rfl
  have hcalls : (name "range").Calls "range" input.namespaces := .bare rfl
  have hthree : (Value.number ⟨300, 2⟩).whole? = some 3 := by decide +kernel
  have htwo : (Value.number ⟨2, 0⟩).whole? = some 2 := by decide +kernel
  have hnegative : (Value.number ⟨-5, 0⟩).whole? = some (-5) := by decide +kernel
  have hfraction : (Value.number ⟨15, 1⟩).whole? = none := by decide +kernel
  have hintegers : (input.values.takeWhile (·.whole?.isSome)).filterMap Value.whole? =
      [3, 2, -5] := by
    simp [input, hthree, htwo, hnegative, hfraction]
  have hoffender : input.values.find? (·.whole?.isNone) = some (.number ⟨15, 1⟩) := by
    simp [input, hthree, htwo, hnegative, hfraction]
  refine ⟨hvalues, hcalls, (eval_range .system .standard hvalues hcalls).1.trans ?_⟩
  rw [hintegers, hoffender]
  rfl

end Filter
end QueryShell
