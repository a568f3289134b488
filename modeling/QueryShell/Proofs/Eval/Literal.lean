import QueryShell.Proofs.Eval.Comma
import QueryShell.Proofs.Eval.Pairing
import QueryShell.Proofs.Value.Canonical

/-! Array and object literals. What two filters side by side put into a literal is the sum of the
literals that they make each by itself. -/

namespace QueryShell

/-- What is raised where a pair of a key and a value is expected and is not there. -/
def Value.entryFault (v : Value) : Exception := v.asException?.getD .wrongType

theorem Value.isException_of_asEntry? {v : Value} {entry : String × Value}
    (h : v.asEntry? = some entry) :
    v.isException = false := by
  cases v with
  | array items => rfl
  | _ => cases h

namespace Operator

/-- The result on two values that may be exceptions. The left one comes first. -/
def joined (op : Operator) (left right : Value) : Value :=
  if left.isException then left else if right.isException then right else op.outcome left right

theorem joined_of_left (op : Operator) {left : Value} (h : left.isException = true)
    (right : Value) :
    op.joined left right = left := if_pos h

theorem joined_of_right (op : Operator) {left right : Value} (hleft : left.isException = false)
    (h : right.isException = true) : op.joined left right = right := by
  rw [joined, hleft, if_neg Bool.false_ne_true, if_pos h]

theorem joined_of_plain (op : Operator) {left right : Value} (hleft : left.isException = false)
    (hright : right.isException = false) : op.joined left right = op.outcome left right := by
  rw [joined, hleft, hright, if_neg Bool.false_ne_true, if_neg Bool.false_ne_true]

theorem pairwise_singleton (op : Operator) (left right : Value) :
    op.pairwise [left] [right] = [op.outcome left right] := rfl

end Operator

namespace Node

theorem entriesOf_cons_of_none {v : Value} (h : v.asEntry? = none) (vs : List Value) :
    entriesOf (v :: vs) = .error v.entryFault := by
  cases v with
  | exception name fields => rfl
  | _ => simp [entriesOf, h, Value.entryFault, Value.asException?]

theorem entriesOf_cons_of_some {v : Value} {entry : String × Value} (h : v.asEntry? = some entry)
    (vs : List Value) :
    entriesOf (v :: vs) = (entry :: ·) <$> entriesOf vs := by
  cases v with
  | array items =>
    simp only [entriesOf, h]
    cases entriesOf vs <;> rfl
  | _ => cases h

theorem entriesOf_eq (values : List Value) :
    entriesOf values =
      match values.find? fun v => v.asEntry?.isNone with
      | some v => .error v.entryFault
      | none => .ok (values.filterMap Value.asEntry?) := by
  induction values with
  | nil => rfl
  | cons v vs ih =>
    cases hentry : v.asEntry? with
    | none => simp [entriesOf_cons_of_none hentry, hentry]
    | some entry =>
      rw [entriesOf_cons_of_some hentry, ih, List.filterMap_cons_some hentry,
        List.find?_cons_of_neg (by simp [hentry])]
      cases vs.find? fun v => v.asEntry?.isNone <;> rfl

theorem entriesOf_throughException (values : List Value) :
    entriesOf (Stream.throughException values) = entriesOf values := by
  induction values with
  | nil => rfl
  | cons v vs ih =>
    rw [Stream.throughException]
    cases hentry : v.asEntry? with
    -- The entries end at this value, whether what is behind it is there or cut.
    | none => by_cases hv : v.isException = true <;> simp [hv, entriesOf_cons_of_none hentry]
    | some entry =>
      have hv : v.isException = false := Value.isException_of_asEntry? hentry
      rw [if_neg (Bool.not_eq_true _ ▸ hv), entriesOf_cons_of_some hentry,
        entriesOf_cons_of_some hentry, ih]

theorem objectFrom_of_find? {values : List Value} {v : Value}
    (h : (values.find? fun v => v.asEntry?.isNone) = some v) :
    objectFrom values = v.entryFault.toValue := by
  rw [objectFrom, entriesOf_eq, h]

theorem objectFrom_of_forall {values : List Value}
    (h : (values.find? fun v => v.asEntry?.isNone) = none) :
    objectFrom values = .object (values.filterMap Value.asEntry?) := by
  rw [objectFrom, entriesOf_eq, h]

theorem joined_objectFrom_of_find? {first second : List Value} {v : Value}
    (h : ((first ++ second).find? fun v => v.asEntry?.isNone) = some v) :
    Operator.add.joined (objectFrom first) (objectFrom second) = v.entryFault.toValue := by
  rw [List.find?_append, Option.or_eq_some_iff] at h
  -- Only if the first values are all pairs is the fault one of the second values.
  rcases h with hfirst | ⟨hfirst, hsecond⟩
  · rw [objectFrom_of_find? hfirst, Operator.joined_of_left _ rfl]
  · rw [objectFrom_of_forall hfirst, objectFrom_of_find? hsecond,
      Operator.joined_of_right _ rfl rfl]

theorem joined_objectFrom_of_forall {first second : List Value}
    (h : ((first ++ second).find? fun v => v.asEntry?.isNone) = none) :
    Operator.add.joined (objectFrom first) (objectFrom second) =
      .object (Dictionary.ofEntries ((first ++ second).filterMap Value.asEntry?)) := by
  rw [List.find?_append, Option.or_eq_none_iff] at h
  rw [objectFrom_of_forall h.1, objectFrom_of_forall h.2, Operator.joined_of_plain _ rfl rfl,
    List.filterMap_append, ← Dictionary.union_ofEntries]
  rfl

theorem result_binary_singleton (op : Operator) {left right : Evaluator} {input : Stream}
    (h : Stream.raises input.values = false) {v w : Value}
    (hleft : (left input).result.values = [v]) (hright : (right input).result.values = [w]) :
    (binary op left right input).result = { input with values := [op.joined v w] } := by
  rw [result_binary op left right h, hleft, hright]
  cases hv : v.isException with
  | true => simp [Stream.firstException?, hv, op.joined_of_left hv]
  | false =>
    cases hw : w.isException with
    | true => simp [Stream.firstException?, hv, hw, op.joined_of_right hv hw]
    | false =>
      have hterminal :=
        Stream.throughException_of_terminal (Stream.terminal_singleton (op.outcome v w))
      simp [Stream.firstException?, hv, hw, op.joined_of_plain hv hw, op.pairwise_singleton,
        hterminal]

end Node

namespace Filter

variable (runtime : Runtime) {input : Stream}

theorem result_eval_object (h : Stream.raises input.values = false) (body : Filter) :
    ((object body).eval runtime input).result =
      { input with values := [Node.objectFrom (body.eval runtime input).result.values] } := by
  rw [eval, Node.objectOf, bridge_of_raises_eq_false _ h]
  simp only [Run.result_map, Run.result_bind, Node.objectFrom]
  cases Node.entriesOf (body.eval runtime input).result.values <;> rfl

theorem result_eval_array (h : Stream.raises input.values = false) (body : Filter) :
    ((array body).eval runtime input).result =
      { input with values := [.array (body.eval runtime input).result.values] } := by
  rw [eval, Node.arrayOf, bridge_of_raises_eq_false _ h]
  simp only [Run.result_map, Run.result_bind, Run.result_pure, Generated.values_once]

theorem result_eval_object_comma (h : Stream.raises input.values = false) (f g : Filter) :
    let pairs := (f.eval runtime input).result.values ++ (g.eval runtime input).result.values
    ((object (comma f g)).eval runtime input).result =
      { input with values := [Node.objectFrom pairs] } := by
  intro pairs
  rw [result_eval_object runtime h, eval_comma runtime h]
  simp only [Node.objectFrom, Node.entriesOf_throughException, pairs]

theorem result_eval_add_objects (h : Stream.raises input.values = false) (f g : Filter) :
    let first := Node.objectFrom (f.eval runtime input).result.values
    let second := Node.objectFrom (g.eval runtime input).result.values
    ((add (object f) (object g)).eval runtime input).result = { input with
      values := [Operator.add.joined first second] } := by
  intro first second
  have hvalues (body : Filter) : ((object body).eval runtime input).result.values =
      [Node.objectFrom (body.eval runtime input).result.values] := by
    rw [result_eval_object runtime h]
  rw [eval]
  exact Node.result_binary_singleton .add h (hvalues f) (hvalues g)

/-- Over an input without exceptions the object that two filters make side by side is the sum of the
objects that each makes by itself. In it the last pair for a key counts. If some value is no pair,
the first such value is raised in either case, or a type error if it is no exception. Over no input,
two filters that raise nothing make one array side by side or as a sum. -/
theorem eval_literal_comma (h : Stream.raises input.values = false) (f g : Filter) :
    let pairs := (f.eval runtime input).result.values ++ (g.eval runtime input).result.values
    let together := ((object (comma f g)).eval runtime input).result
    let apart := ((add (object f) (object g)).eval runtime input).result
    let output (v : Value) : Stream := { input with values := [v] }
    let fault? := pairs.find? fun v => v.asEntry?.isNone
    (∀ v, fault? = some v → together = output v.entryFault.toValue ∧
      apart = output v.entryFault.toValue) ∧
    (fault? = none →
      let entries := pairs.filterMap Value.asEntry?
      let merged := Dictionary.ofEntries entries
      together = output (.object entries) ∧ apart = output (.object merged) ∧
        (Value.object merged).canonical = (Value.object entries).canonical ∧
        ∀ key, Dictionary.find? key merged = Dictionary.find? key entries.reverse) ∧
    let nothing : Stream := ⟨[], input.namespaces⟩
    let first := (f.eval runtime nothing).result.values
    let second := (g.eval runtime nothing).result.values
    Stream.raises first = false → Stream.raises second = false →
      ((array (comma f g)).eval runtime nothing).result =
        { nothing with values := [.array (first ++ second)] } ∧
        ((add (array f) (array g)).eval runtime nothing).result =
          { nothing with values := [.array (first ++ second)] } := by
  intro pairs together apart output fault?
  have htogether : together = output (Node.objectFrom pairs) :=
    result_eval_object_comma runtime h f g
  have hapart := result_eval_add_objects runtime h f g
  refine ⟨fun v hfault => ⟨?_, ?_⟩, fun hfault => ⟨?_, ?_, ?_, ?_⟩, ?_⟩
  · rw [htogether, Node.objectFrom_of_find? hfault]
  · exact hapart.trans (congrArg output (Node.joined_objectFrom_of_find? hfault))
  · rw [htogether, Node.objectFrom_of_forall hfault]
  · exact hapart.trans (congrArg output (Node.joined_objectFrom_of_forall hfault))
  · exact Value.canonical_ofEntries _
  · exact fun key => Dictionary.find?_ofEntries key _
  · intro nothing first second hfirst hsecond
    have hnothing : Stream.raises nothing.values = false := rfl
    have hplain : Stream.raises (first ++ second) = false := by
      rw [Stream.raises_append, hfirst, hsecond, Bool.or_false]
    constructor
    · rw [result_eval_array runtime hnothing, eval_comma runtime hnothing]
      simp only [Stream.throughException_of_raises_eq_false hplain, first, second]
    · have hvalues (body : Filter) : ((array body).eval runtime nothing).result.values =
          [.array (body.eval runtime nothing).result.values] := by
        rw [result_eval_array runtime hnothing]
      rw [eval, Node.result_binary_singleton .add hnothing (hvalues f) (hvalues g),
        Operator.joined_of_plain _ rfl rfl]
      rfl

/-- The key `a` is overridden across the filters, and by itself it is no pair. -/
theorem eval_literal_comma_overriding :
    let runtime : Runtime := ⟨.standard, .system, .standard⟩
    let input : Stream :=
      ⟨[.string "a"], { Namespaces.empty with globals := [("g", [.null, .boolean true])] }⟩
    let f : Filter := .pair (.comma .identity (.string "b")) (.string "first")
    let g : Filter := .pair .identity (.globalVariable (.name "g"))
    let together (l r : Filter) : List Value :=
      ((object (comma l r)).eval runtime input).result.values
    let apart (l r : Filter) : List Value :=
      ((add (object l) (object r)).eval runtime input).result.values
    let entries : List (String × Value) :=
      [("a", .string "first"), ("b", .string "first"), ("a", .null), ("a", .boolean true)]
    let merged : List (String × Value) := [("a", .boolean true), ("b", .string "first")]
    let nothing : Stream := { input with values := [] }
    let items : List Value := [.array [.string "b", .string "first"], .null, .boolean true]
    (Stream.raises input.values = false ∧
      Stream.raises (f.eval runtime nothing).result.values = false ∧
        Stream.raises (g.eval runtime nothing).result.values = false) ∧
      (together f g = [.object entries] ∧ apart f g = [.object merged] ∧
        (Value.object merged).canonical = (Value.object entries).canonical) ∧
      (together f identity = [Exception.wrongType.toValue] ∧
        apart f identity = [Exception.wrongType.toValue]) ∧
      ((array (comma f g)).eval runtime nothing).result =
        { nothing with values := [.array items] } ∧
        ((add (array f) (array g)).eval runtime nothing).result =
          { nothing with values := [.array items] } := by
  intro runtime input f g together apart entries merged nothing items
  have hinput : Stream.raises input.values = false := rfl
  have hf : Stream.raises (f.eval runtime nothing).result.values = false := by cbv
  have hg : Stream.raises (g.eval runtime nothing).result.values = false := by cbv
  -- What either pair of filters yields side by side.
  let pairOf (entry : String × Value) : Value := .array [.string entry.1, entry.2]
  have hpairs : (f.eval runtime input).result.values ++ (g.eval runtime input).result.values =
      entries.map pairOf := by cbv
  have hbroken : (f.eval runtime input).result.values ++
      (identity.eval runtime input).result.values =
      (entries.take 2).map pairOf ++ [.string "a"] := by cbv
  obtain ⟨_, hobjects, harrays⟩ := eval_literal_comma runtime hinput f g
  obtain ⟨hfaults, _, _⟩ := eval_literal_comma runtime hinput f identity
  rw [hpairs] at hobjects
  rw [hbroken] at hfaults
  obtain ⟨htogether, hapart, hcanonical, _⟩ := hobjects rfl
  obtain ⟨htogether', hapart'⟩ := hfaults (.string "a") rfl
  obtain ⟨harray, hsum⟩ := harrays hf hg
  refine ⟨⟨hinput, hf, hg⟩,
    ⟨congrArg Stream.values htogether, congrArg Stream.values hapart, hcanonical⟩,
    ⟨congrArg Stream.values htogether', congrArg Stream.values hapart'⟩, harray.trans ?_,
    hsum.trans ?_⟩
  · cbv
  · cbv

end Filter
end QueryShell
