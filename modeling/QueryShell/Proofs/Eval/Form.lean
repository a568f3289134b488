import QueryShell.Eval.Basic
import QueryShell.Proofs.Eval.Run

/-! Induction over filters, and what each form of filter is evaluated as. -/

namespace QueryShell

namespace Node

/-- A name is a variable's values, a function's output or an exception. -/
theorem name_cases (runtime : Runtime) (label : String) (input : Stream) :
    (∃ values, input.namespaces.locals.get? label = some values ∧
      name runtime label input = return replay values input) ∨
    (∃ make, name runtime label input = bridge make input) ∨
    ∃ e, name runtime label input = raise e input := by
  unfold name
  cases hlocal : input.namespaces.locals.get? label with
  | some values => exact .inl ⟨values, rfl, rfl⟩
  | none =>
    cases runtime.builtins.lookup label 0 with
    | ok function => exact .inr (.inl ⟨function [], rfl⟩)
    | error e => exact .inr (.inr ⟨e, rfl⟩)

theorem call_cases (runtime : Runtime) (head : Namer) (args : List Evaluator) (input : Stream) :
    (∃ make, (call runtime head args input).result = (bridge make input).result) ∨
    ∃ e, (call runtime head args input).result = (raise e input).result := by
  unfold call
  rw [Run.result_bind]
  cases (head.resolve input).result with
  | error e => exact .inr ⟨e, rfl⟩
  | ok label =>
    dsimp only
    cases runtime.builtins.lookup label args.length with
    | ok function => exact .inl ⟨function args, rfl⟩
    | error e => exact .inr ⟨e, rfl⟩

theorem globalVariable_cases (label : Namer) (input : Stream) :
    (∃ name, label.literal? = some name ∧ (globalVariable label input).result =
      replay (globalValues input.namespaces.globals name) input) ∨
    label.literal? = none ∧
      ((∃ e, Namer.sensible (label.compute input).result.values = .error e ∧
        (globalVariable label input).result = (raise e input).result) ∨
      ∃ name, Namer.sensible (label.compute input).result.values = .ok name ∧
        (globalVariable label input).result =
          { input with values := globalValues input.namespaces.globals name }) := by
  unfold globalVariable
  cases hliteral : label.literal? with
  | some name => exact .inl ⟨name, rfl, rfl⟩
  | none =>
    have hresolve : (label.resolve input).result =
        Namer.sensible (label.compute input).result.values := by
      rw [Namer.resolve, hliteral]
      rfl
    refine .inr ⟨rfl, ?_⟩
    dsimp only
    rw [Run.result_bind, hresolve]
    cases Namer.sensible (label.compute input).result.values with
    | error e => exact .inl ⟨e, rfl, rfl⟩
    | ok name => exact .inr ⟨name, rfl, rfl⟩

end Node

namespace Filter

/-- The parts of a filter are its direct parts and, where a global variable is assigned to, the
filter of its label. -/
@[elab_as_elim]
theorem induction {motive : Filter → Prop}
    (empty : motive .empty)
    (parens : ∀ body, motive body → motive (.parens body))
    (array : ∀ body, motive body → motive (.array body))
    (object : ∀ body, motive body → motive (.object body))
    (name : ∀ label, motive (.name label))
    (number : ∀ text, motive (.number text))
    (string : ∀ text, motive (.string text))
    (pipe : ∀ l r, motive l → motive r → motive (.pipe l r))
    (apply : ∀ attributes, (∀ f ∈ attributes, motive f) → motive (.apply attributes))
    (comma : ∀ l r, motive l → motive r → motive (.comma l r))
    (add : ∀ l r, motive l → motive r → motive (.add l r))
    (multiply : ∀ l r, motive l → motive r → motive (.multiply l r))
    (assign : ∀ l r, motive l → (∀ label, l = .globalVariable label → motive label) → motive r →
      motive (.assign l r))
    (semicolon : ∀ l r, motive l → motive r → motive (.semicolon l r))
    (pair : ∀ l r, motive l → motive r → motive (.pair l r))
    (command : ∀ program, motive program → motive (.command program))
    (globalVariable : ∀ label, motive label → motive (.globalVariable label))
    (f : Filter) : motive f := by
  have h : motive f ∧ ∀ label, f = .globalVariable label → motive label := by
    induction f using Filter.rec (motive_2 := fun fs => ∀ f ∈ fs, motive f) with
    | empty => exact ⟨empty, nofun⟩
    | parens body ih => exact ⟨parens body ih.1, nofun⟩
    | array body ih => exact ⟨array body ih.1, nofun⟩
    | object body ih => exact ⟨object body ih.1, nofun⟩
    | name label => exact ⟨name label, nofun⟩
    | number text => exact ⟨number text, nofun⟩
    | string text => exact ⟨string text, nofun⟩
    | pipe l r ihl ihr => exact ⟨pipe l r ihl.1 ihr.1, nofun⟩
    | apply attributes ih => exact ⟨apply attributes ih, nofun⟩
    | comma l r ihl ihr => exact ⟨comma l r ihl.1 ihr.1, nofun⟩
    | add l r ihl ihr => exact ⟨add l r ihl.1 ihr.1, nofun⟩
    | multiply l r ihl ihr => exact ⟨multiply l r ihl.1 ihr.1, nofun⟩
    | assign l r ihl ihr => exact ⟨assign l r ihl.1 ihl.2 ihr.1, nofun⟩
    | semicolon l r ihl ihr => exact ⟨semicolon l r ihl.1 ihr.1, nofun⟩
    | pair l r ihl ihr => exact ⟨pair l r ihl.1 ihr.1, nofun⟩
    | command program ih => exact ⟨command program ih.1, nofun⟩
    | globalVariable label ih =>
      refine ⟨globalVariable label ih.1, ?_⟩
      rintro _ ⟨⟩
      exact ih.1
    | nil f hf => cases hf
    | cons head tail ihhead ihtail f hf =>
      rcases List.mem_cons.mp hf with rfl | hf
      · exact ihhead.1
      · exact ihtail f hf
  exact h.1

/-- Where an assignment to a filter puts its values. -/
def target (runtime : Runtime) : Filter → Node.Target
  | .name label => .local label
  | .globalVariable f => .global ⟨f.literalName?, f.eval runtime⟩
  | l => .unassignable l.kind l.source

theorem eval_assign (runtime : Runtime) (l r : Filter) :
    (assign l r).eval runtime = Node.assign (l.target runtime) (r.eval runtime) := by
  cases l <;> rfl

theorem evalAll_eq_map (runtime : Runtime) (fs : List Filter) :
    evalAll runtime fs = fs.map (eval runtime) := by
  induction fs with
  | nil => rfl
  | cons f fs ih => simp [evalAll, ih]

/-- Filters side by side are the identity, a numeral or a call. -/
theorem eval_apply_cases (runtime : Runtime) (attributes : List Filter) :
    (apply attributes).eval runtime = Node.identity ∨
    (∃ text, (apply attributes).eval runtime = Node.constant (Node.numeral text)) ∨
    ∃ head args, attributes = head :: args ∧ (apply attributes).eval runtime =
      Node.call runtime ⟨head.literalName?, head.eval runtime⟩ (args.map (eval runtime)) := by
  by_cases hall : attributes.all isEmpty = true
  · left
    rw [eval, if_pos hall]
  · right
    rw [eval, if_neg hall]
    cases hsplit : splitDecimal? attributes with
    | some text => exact .inl ⟨text, rfl⟩
    | none =>
      cases attributes with
      | nil => simp at hall
      | cons head args =>
        refine .inr ⟨head, args, rfl, ?_⟩
        simp only [evalCall, evalAll_eq_map]

theorem eval_apply_name {runtime : Runtime} {label : String} {args : List Filter}
    {function : Builtin} (h : runtime.builtins.lookup label args.length = .ok function) :
    (apply (.name label :: args)).eval runtime = bridge (function (args.map (eval runtime))) := by
  have hempty : (name label :: args).all isEmpty = false := rfl
  have hsplit : splitDecimal? (name label :: args) = none := rfl
  funext input
  rw [eval, hempty, hsplit, if_neg Bool.false_ne_true]
  simp only [evalCall, evalAll_eq_map, Node.call, Namer.resolve, literalName?, pure_bind,
    List.length_map, h]

/-- Ways to call a function without arguments. A local variable of the same name hides it from its
bare name. -/
inductive Calls (label : String) (namespaces : Namespaces) : Filter → Prop where
  | applied : Calls label namespaces (apply [.name label])
  | bare (hunbound : namespaces.locals.get? label = none) : Calls label namespaces (.name label)

theorem eval_of_calls {runtime : Runtime} {label : String} {function : Builtin}
    (hlookup : runtime.builtins.lookup label 0 = .ok function) {input : Stream} {f : Filter}
    (h : f.Calls label input.namespaces) : f.eval runtime input = bridge (function []) input := by
  cases h with
  | applied =>
    have hlookup' : runtime.builtins.lookup label ([] : List Filter).length = .ok function :=
      hlookup
    rw [eval_apply_name hlookup', List.map_nil]
  | bare hunbound => rw [eval, Node.name, hunbound, hlookup]

/-- Induction over what filters are evaluated as. Most are behind a bridge, the others handle the
stream themselves. -/
@[elab_as_elim]
theorem eval_induction (runtime : Runtime) {motive : Filter → Prop}
    (bridged : ∀ f make, f.eval runtime = bridge make → motive f)
    (identity : ∀ attributes, (apply attributes).eval runtime = Node.identity →
      motive (.apply attributes))
    (name : ∀ label, motive (.name label))
    (call : ∀ head args, (apply (head :: args)).eval runtime =
        Node.call runtime ⟨head.literalName?, head.eval runtime⟩ (args.map (eval runtime)) →
      motive head → motive (.apply (head :: args)))
    (assign : ∀ l r, motive r → motive (.assign l r))
    (semicolon : ∀ l r, motive l → motive r → motive (.semicolon l r))
    (globalVariable : ∀ label, motive label → motive (.globalVariable label))
    (f : Filter) : motive f := by
  have hbridged : ∀ f, (∃ make, f.eval runtime = bridge make) → motive f := by
    rintro f ⟨make, hmake⟩
    exact bridged f make hmake
  induction f using Filter.induction with
  | name label => exact name label
  | assign l r _ _ ihr => exact assign l r ihr
  | semicolon l r ihl ihr => exact semicolon l r ihl ihr
  | globalVariable label ih => exact globalVariable label ih
  | apply attributes ih =>
    rcases eval_apply_cases runtime attributes with h | ⟨text, h⟩ | ⟨head, args, rfl, h⟩
    · exact identity attributes h
    · exact bridged _ _ h
    · exact call head args h (ih head List.mem_cons_self)
  | _ =>
    apply hbridged
    rw [eval]
    exact ⟨_, rfl⟩

end Filter
end QueryShell
