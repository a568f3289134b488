import QueryShell.Proofs.Eval.Form
import QueryShell.Proofs.Stream.Scope

/-! What an evaluation can change beside the values: the variables that assignments at the root, or
in a sequence at the root, name as their targets. All else that a filter binds stays inside it. -/

namespace QueryShell

namespace Filter

/-- The local variables that a filter can bind for what comes after it. -/
def localTargets : Filter → List String
  | .assign (.name label) _ => [label]
  | .semicolon l r => l.localTargets ++ r.localTargets
  | _ => []

/-- The global variables that a filter can bind for what comes after it, `none` for one whose name
is computed. -/
def globalTargets : Filter → List (Option String)
  | .assign (.globalVariable label) _ => [label.literalName?]
  | .semicolon l r => l.globalTargets ++ r.globalTargets
  | _ => []

end Filter

namespace Namespaces

/-- All is as before but for the variables listed, and no variable is gone. -/
structure Framed (locals : List String) (globals : List (Option String))
    (before after : Namespaces) :
    Prop where
  formats : after.formats = before.formats
  context : after.context = before.context
  locals_get? : ∀ name, name ∉ locals → after.locals.get? name = before.locals.get? name
  globals_eq : globals = [] → after.globals = before.globals
  globals_get? : none ∉ globals → ∀ name, some name ∉ globals →
    after.globals.get? name = before.globals.get? name
  locals_contains : ∀ name, before.locals.contains name = true → after.locals.contains name = true
  globals_contains : ∀ name, before.globals.contains name = true →
    after.globals.contains name = true

namespace Framed

variable {locals locals' : List String} {globals globals' : List (Option String)}
  {first second third : Namespaces}

theorem refl (locals : List String) (globals : List (Option String)) (namespaces : Namespaces) :
    Framed locals globals namespaces namespaces :=
  ⟨rfl, rfl, fun _ _ => rfl, fun _ => rfl, fun _ _ _ => rfl, fun _ h => h, fun _ h => h⟩

theorem trans (h : Framed locals globals first second) (h' : Framed locals' globals' second third) :
    Framed (locals ++ locals') (globals ++ globals') first third where
  formats := h'.formats.trans h.formats
  context := h'.context.trans h.context
  locals_get? name hn := by
    rw [List.mem_append, not_or] at hn
    exact (h'.locals_get? name hn.2).trans (h.locals_get? name hn.1)
  globals_eq hg := by
    rw [List.append_eq_nil_iff] at hg
    exact (h'.globals_eq hg.2).trans (h.globals_eq hg.1)
  globals_get? hg name hn := by
    rw [List.mem_append, not_or] at hg hn
    exact (h'.globals_get? hg.2 name hn.2).trans (h.globals_get? hg.1 name hn.1)
  locals_contains name hn := h'.locals_contains name (h.locals_contains name hn)
  globals_contains name hn := h'.globals_contains name (h.globals_contains name hn)

theorem append_right (h : Framed locals globals first second) (locals' : List String)
    (globals' : List (Option String)) :
    Framed (locals ++ locals') (globals ++ globals') first second :=
  h.trans (refl locals' globals' second)

/-- The scopes of a later state beside the format strings and the context of an earlier one are the
later state. -/
theorem carried_eq (h : Framed locals globals first second) :
    { first with globals := second.globals, locals := second.locals } = second := by
  rw [← h.formats, ← h.context]

end Framed

theorem framed_locals_bind (namespaces : Namespaces) (name : String) (values : List Value) :
    Framed [name] [] namespaces { namespaces with locals := namespaces.locals.bind name values }
      where
  formats := rfl
  context := rfl
  locals_get? other hn := Scope.get?_bind_of_ne _ (by simpa using hn) values
  globals_eq _ := rfl
  globals_get? _ _ _ := rfl
  locals_contains _ hn := Scope.contains_bind name values hn
  globals_contains _ hn := hn

theorem framed_globals_bind (namespaces : Namespaces) {name : String} {label? : Option String}
    (h : ∀ label, label? = some label → name = label) (values : List Value) :
    Framed [] [label?] namespaces { namespaces with globals := namespaces.globals.bind name values }
      where
  formats := rfl
  context := rfl
  locals_get? _ _ := rfl
  globals_eq hg := by simp at hg
  globals_get? hg other hn := by
    refine Scope.get?_bind_of_ne _ ?_ values
    cases label? with
    | none => simp at hg
    | some label =>
      rintro rfl
      simp [h label rfl] at hn
  locals_contains _ hn := hn
  globals_contains _ hn := Scope.contains_bind name values hn

end Namespaces

namespace Node

theorem namespaces_name (runtime : Runtime) (label : String) (input : Stream) :
    (name runtime label input).result.namespaces = input.namespaces := by
  rcases name_cases runtime label input with ⟨values, _, h⟩ | ⟨make, h⟩ | ⟨e, h⟩ <;> rw [h] <;> rfl

theorem namespaces_call (runtime : Runtime) (head : Namer) (args : List Evaluator)
    (input : Stream) :
    (call runtime head args input).result.namespaces = input.namespaces := by
  rcases call_cases runtime head args input with ⟨make, h⟩ | ⟨e, h⟩ <;> rw [h] <;> rfl

theorem namespaces_globalVariable (label : Namer) (input : Stream) :
    (globalVariable label input).result.namespaces = input.namespaces := by
  rcases globalVariable_cases label input with
    ⟨name, _, h⟩ | ⟨_, ⟨e, _, h⟩ | ⟨name, _, h⟩⟩ <;> rw [h] <;> rfl

/-- What an exception of the left side leaves: itself, in the namespaces of the left side. -/
theorem semicolon_of_firstException? {left : Evaluator} {input : Stream} {e : Value}
    (h : Stream.firstException? (left input).result.values = some e) (right : Evaluator) :
    semicolon left right input =
      ⟨⟨[e], (left input).result.namespaces⟩, (left input).calls⟩ := by
  apply Run.ext
  · simp only [semicolon, Run.result_bind, h, Run.result_pure]
  · simp only [semicolon, Run.calls_bind, h, Run.calls_pure, List.append_nil]

theorem semicolon_of_raises_eq_false {left : Evaluator} {input : Stream}
    (h : Stream.raises (left input).result.values = false) (right : Evaluator) :
    semicolon left right input = left input >>= fun before =>
      right ⟨input.values, { input.namespaces with
        globals := before.namespaces.globals, locals := before.namespaces.locals }⟩ := by
  rw [← Stream.firstException?_eq_none_iff] at h
  apply Run.ext <;> simp [semicolon, h]

end Node

namespace Filter

/-- Only assignments and sequences leave other namespaces than they were given. -/
theorem namespaces_eval {f : Filter} (hassign : ∀ l r, f ≠ .assign l r)
    (hsemicolon : ∀ l r, f ≠ .semicolon l r) (runtime : Runtime) (input : Stream) :
    (f.eval runtime input).result.namespaces = input.namespaces := by
  induction f using eval_induction runtime with
  | bridged f make h =>
    rw [h]
    rfl
  | identity attributes h =>
    rw [h]
    rfl
  | name label =>
    rw [eval]
    exact Node.namespaces_name runtime label input
  | call head args h _ =>
    rw [h]
    exact Node.namespaces_call runtime _ _ input
  | globalVariable label _ =>
    rw [eval]
    exact Node.namespaces_globalVariable _ input
  | assign l r _ => exact absurd rfl (hassign l r)
  | semicolon l r _ _ => exact absurd rfl (hsemicolon l r)

/-- An assignment raises an exception and binds nothing, or it binds the variable that its left side
names and passes the input on. -/
theorem eval_assign_cases (runtime : Runtime) (l r : Filter) (input : Stream) :
    let stored := (r.eval runtime input).result.values
    let output := ((assign l r).eval runtime input).result
    (∃ e, e.isException = true ∧ output = ⟨[e], input.namespaces⟩) ∨
    Stream.raises stored = false ∧
      ((∃ label, l = .name label ∧ output = Node.withBinding input
        { input.namespaces with locals := input.namespaces.locals.bind label stored }) ∨
      ∃ f label, l = .globalVariable f ∧
        (Namer.resolve ⟨f.literalName?, f.eval runtime⟩ { input with values := [] }).result =
          .ok label ∧
        output = Node.withBinding input
          { input.namespaces with globals := input.namespaces.globals.bind label stored }) := by
  intro stored output
  have hout : output = (Node.assign (l.target runtime) (r.eval runtime) input).result := by
    rw [← eval_assign]
  rw [Node.assign, Run.result_bind] at hout
  cases he : Stream.firstException? stored with
  | some e =>
    have hout' : output = ⟨[e], input.namespaces⟩ := by
      rw [hout, he]
      rfl
    exact .inl ⟨e, Stream.isException_of_firstException? he, hout'⟩
  | none =>
    rw [he] at hout
    have hplain := Stream.firstException?_eq_none_iff.mp he
    cases l with
    | name label => exact .inr ⟨hplain, .inl ⟨label, rfl, hout⟩⟩
    | globalVariable f =>
      simp only [target, Node.bind, Run.result_bind] at hout
      cases hlabel :
        (Namer.resolve ⟨f.literalName?, f.eval runtime⟩ { input with values := [] }).result with
      | error e =>
        rw [hlabel] at hout
        exact .inl ⟨e.toValue, rfl, hout⟩
      | ok label =>
        rw [hlabel] at hout
        exact .inr ⟨hplain, .inr ⟨f, label, rfl, hlabel, hout⟩⟩
    | _ => exact .inl ⟨_, rfl, hout⟩

theorem framed_eval (runtime : Runtime) (f : Filter) (input : Stream) :
    Namespaces.Framed f.localTargets f.globalTargets input.namespaces
      (f.eval runtime input).result.namespaces := by
  induction f using Filter.induction generalizing input with
  | assign l r =>
    rcases eval_assign_cases runtime l r input with
      ⟨e, _, h⟩ | ⟨_, ⟨label, rfl, h⟩ | ⟨f, label, rfl, hlabel, h⟩⟩
    · rw [h]
      exact .refl _ _ _
    · rw [h]
      exact Namespaces.framed_locals_bind _ label _
    · rw [h]
      refine Namespaces.framed_globals_bind _ ?_ _
      intro name hname
      simpa [Namer.resolve, hname, eq_comm] using hlabel
  | semicolon l r ihl ihr =>
    rw [eval]
    by_cases hraises : Stream.raises (l.eval runtime input).result.values = true
    · obtain ⟨e, he⟩ := Stream.raises_iff_firstException?.mp hraises
      rw [Node.semicolon_of_firstException? he]
      exact (ihl input).append_right _ _
    · rw [Bool.not_eq_true] at hraises
      rw [Node.semicolon_of_raises_eq_false hraises, Run.result_bind, (ihl input).carried_eq]
      exact (ihl input).trans (ihr ⟨input.values, (l.eval runtime input).result.namespaces⟩)
  | _ =>
    rw [namespaces_eval (by simp) (by simp)]
    exact .refl _ _ _

/-- An evaluation leaves the format strings and the context alone, and with them all scopes unless
the filter is an assignment or a sequence. Otherwise it changes only what the assignments in
sequence at the root name, and it never takes a variable away. -/
theorem eval_frame (runtime : Runtime) (f : Filter) (input : Stream) :
    let before := input.namespaces
    let after := (f.eval runtime input).result.namespaces
    (after.formats = before.formats ∧ after.context = before.context) ∧
    ((∀ l r, f ≠ .assign l r) → (∀ l r, f ≠ .semicolon l r) → after = before) ∧
    (∀ name, name ∉ f.localTargets → after.locals.get? name = before.locals.get? name) ∧
    (f.globalTargets = [] → after.globals = before.globals) ∧
    (none ∉ f.globalTargets → ∀ name, some name ∉ f.globalTargets →
      after.globals.get? name = before.globals.get? name) ∧
    (∀ name, before.locals.contains name = true → after.locals.contains name = true) ∧
    ∀ name, before.globals.contains name = true → after.globals.contains name = true := by
  intro before after
  have hframed : Namespaces.Framed f.localTargets f.globalTargets before after :=
    framed_eval runtime f input
  have hall : (∀ l r, f ≠ .assign l r) → (∀ l r, f ≠ .semicolon l r) → after = before :=
    fun hassign hsemicolon => namespaces_eval hassign hsemicolon runtime input
  exact ⟨⟨hframed.formats, hframed.context⟩, hall, hframed.locals_get?, hframed.globals_eq,
    hframed.globals_get?, hframed.locals_contains, hframed.globals_contains⟩

/-- A left side that raises nothing hands its namespaces on. -/
theorem eval_semicolon_of_raises_eq_false {runtime : Runtime} {l : Filter} {input : Stream}
    (h : Stream.raises (l.eval runtime input).result.values = false) (r : Filter) :
    (semicolon l r).eval runtime input = l.eval runtime input >>= fun before =>
      r.eval runtime ⟨input.values, before.namespaces⟩ := by
  have hcarried := (framed_eval runtime l input).carried_eq
  rw [eval, Node.semicolon_of_raises_eq_false h]
  apply Run.ext
  · rw [Run.result_bind, Run.result_bind, hcarried]
  · rw [Run.calls_bind, Run.calls_bind, hcarried]

end Filter
end QueryShell
