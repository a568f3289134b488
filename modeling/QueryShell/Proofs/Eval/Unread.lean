import QueryShell.Proofs.Eval.Form
import QueryShell.Proofs.Stream.FirstException

/-! What stands behind the first exception of an input is never read: two inputs that agree up to it
are evaluated to the same run. Some forms hand the whole input on to others, which is why the law is
one about evaluators. -/

namespace QueryShell

namespace Stream

/-- The stream as far as it is read. -/
def cut (input : Stream) : Stream := { input with values := throughException input.values }

@[simp]
theorem namespaces_cut (input : Stream) : input.cut.namespaces = input.namespaces := rfl

@[simp]
theorem firstException?_cut (input : Stream) :
    firstException? input.cut.values = firstException? input.values :=
  firstException?_throughException input.values

@[simp]
theorem plain_cut (input : Stream) : plain input.cut.values = plain input.values :=
  plain_throughException input.values

@[simp]
theorem throughException_cut (input : Stream) :
    throughException input.cut.values = throughException input.values :=
  throughException_throughException input.values

end Stream

/-- Nothing behind the first exception matters, neither to the output nor to the calls on the
way. -/
def Evaluator.Heeds (evaluator : Evaluator) : Prop := ∀ input, evaluator input = evaluator input.cut

theorem heeds_bridge (make : Stream → Run Generated) : Evaluator.Heeds (bridge make) := by
  intro input
  simp only [bridge, Stream.plain_cut, Stream.firstException?_cut, Stream.namespaces_cut]

theorem Namer.resolve_cut {namer : Namer} (h : namer.compute.Heeds) (input : Stream) :
    namer.resolve input = namer.resolve input.cut := by
  unfold resolve
  cases namer.literal? with
  | some name => rfl
  | none =>
    dsimp only
    rw [h input]

namespace Node

theorem heeds_raise (e : Exception) : Evaluator.Heeds (raise e) := fun _ => rfl

theorem heeds_identity : Evaluator.Heeds identity := by
  intro input
  simp only [identity, Stream.throughException_cut, Stream.namespaces_cut]

theorem replay_cut (values : List Value) (input : Stream) :
    replay values input = replay values input.cut := by
  simp only [replay, Stream.firstException?_cut, Stream.namespaces_cut]

theorem heeds_name (runtime : Runtime) (label : String) : Evaluator.Heeds (name runtime label) := by
  intro input
  unfold name
  rw [Stream.namespaces_cut]
  cases input.namespaces.locals.get? label with
  | some values =>
    dsimp only
    rw [replay_cut]
  | none =>
    cases runtime.builtins.lookup label 0 with
    | ok function => exact heeds_bridge (function []) input
    | error e => exact heeds_raise e input

theorem heeds_call (runtime : Runtime) {head : Namer} (args : List Evaluator)
    (h : head.compute.Heeds) : Evaluator.Heeds (call runtime head args) := by
  intro input
  unfold call
  rw [← Namer.resolve_cut h]
  refine bind_congr fun resolved => ?_
  cases resolved with
  | error e => exact heeds_raise e input
  | ok label =>
    dsimp only
    cases runtime.builtins.lookup label args.length with
    | ok function => exact heeds_bridge (function args) input
    | error e => exact heeds_raise e input

theorem heeds_globalVariable {label : Namer} (h : label.compute.Heeds) :
    Evaluator.Heeds (globalVariable label) := by
  intro input
  unfold globalVariable
  cases label.literal? with
  | some name =>
    dsimp only
    rw [replay_cut, Stream.namespaces_cut]
  | none =>
    dsimp only
    rw [← Namer.resolve_cut h]
    refine bind_congr fun resolved => ?_
    cases resolved with
    | error e => exact heeds_raise e input
    | ok name => rfl

theorem heeds_bind (target : Target) (values : List Value) :
    Evaluator.Heeds (bind target values) := by
  intro input
  cases target with
  | «local» label =>
    simp only [bind, withBinding, Stream.throughException_cut, Stream.namespaces_cut]
  | global label =>
    -- The label is resolved over no input at all.
    simp only [bind]
    refine bind_congr fun resolved => ?_
    cases resolved with
    | error e => exact heeds_raise e input
    | ok name => simp only [withBinding, Stream.throughException_cut, Stream.namespaces_cut]
  | unassignable kind source => exact heeds_raise _ input

theorem heeds_assign (target : Target) {right : Evaluator} (h : right.Heeds) :
    Evaluator.Heeds (assign target right) := by
  intro input
  unfold assign
  rw [← h input]
  refine bind_congr fun stored => ?_
  cases Stream.firstException? stored.values with
  | some e => rfl
  | none => exact heeds_bind target stored.values input

theorem heeds_semicolon {left right : Evaluator} (hl : left.Heeds) (hr : right.Heeds) :
    Evaluator.Heeds (semicolon left right) := by
  intro input
  unfold semicolon
  rw [← hl input]
  refine bind_congr fun before => ?_
  cases Stream.firstException? before.values with
  | some e => rfl
  | none => exact hr ⟨input.values, _⟩

end Node

namespace Filter

theorem heeds_eval (runtime : Runtime) (f : Filter) : (f.eval runtime).Heeds := by
  induction f using eval_induction runtime with
  | bridged f make h =>
    rw [h]
    exact heeds_bridge make
  | identity attributes h =>
    rw [h]
    exact Node.heeds_identity
  | name label =>
    rw [eval]
    exact Node.heeds_name runtime label
  | call head args h ih =>
    rw [h]
    exact Node.heeds_call runtime _ ih
  | assign l r ih =>
    rw [eval_assign]
    exact Node.heeds_assign _ ih
  | semicolon l r ihl ihr =>
    rw [eval]
    exact Node.heeds_semicolon ihl ihr
  | globalVariable label ih =>
    rw [eval]
    exact Node.heeds_globalVariable ih

/-- Values, namespaces and calls are the same whatever stands behind an exception of the input. -/
theorem eval_append_exception (runtime : Runtime) (f : Filter) (namespaces : Namespaces)
    (before : List Value) (e : Exception) (after after' : List Value) :
    f.eval runtime ⟨before ++ e.toValue :: after, namespaces⟩ =
      f.eval runtime ⟨before ++ e.toValue :: after', namespaces⟩ := by
  have he : e.toValue.isException = true := rfl
  rw [heeds_eval runtime f ⟨before ++ e.toValue :: after, namespaces⟩,
    heeds_eval runtime f ⟨before ++ e.toValue :: after', namespaces⟩]
  simp only [Stream.cut, Stream.throughException_append_exception before _ he]

end Filter
end QueryShell
