import QueryShell.Eval.Course
import QueryShell.Proofs.Eval.Confined
import QueryShell.Proofs.Eval.Terminal

/-! The evaluation of a filter is one of its courses, and what each form of filter can come to. -/

namespace QueryShell

/-- The run of the evaluator is one of the courses. -/
def Course.Covers (course : Course) (evaluate : Evaluator) : Prop :=
  ∀ input, ∃ atEnd, course input ⟨(evaluate input).result, atEnd⟩

def Making.Covers (making : Making) (make : Stream → Run Generated) : Prop :=
  ∀ inner, ∃ atEnd, making inner ⟨(make inner).result, atEnd⟩

variable {body left right init position : Course} {evaluate evaluate' : Evaluator}

namespace Course

theorem covers_bridged {making : Making} {make : Stream → Run Generated} (h : making.Covers make) :
    Covers (bridged making) (bridge make) := by
  intro input
  obtain ⟨atEnd, hmade⟩ := h { input with values := Stream.plain input.values }
  exact ⟨true, .prompt hmade⟩

theorem covers_raise (e : Exception) : Covers (raise e) (Node.raise e) := fun _ => ⟨false, rfl⟩

theorem covers_identity : Covers identity Node.identity := fun _ => ⟨true, rfl⟩

theorem exists_resolves (literal? : Option String) (h : body.Covers evaluate) (input : Stream) :
    ∃ atEnd,
      Resolves literal? body input (Namer.resolve ⟨literal?, evaluate⟩ input).result atEnd := by
  cases literal? with
  | some name => exact ⟨false, .literal rfl⟩
  | none =>
    obtain ⟨atEnd, hcompute⟩ := h input
    exact ⟨atEnd, .computed rfl hcompute⟩

end Course

/-! ### Functions -/

namespace Making

theorem covers_constant (generated : Generated) :
    Covers (constant generated) fun _ => return generated :=
  fun _ => ⟨false, rfl⟩

theorem covers_eachValue (h : body.Covers evaluate) (namespaces : Namespaces)
    (values : List Value) :
    ∃ atEnd, eachValue body namespaces values (Builtin.eachValue evaluate namespaces values).result
      atEnd := by
  induction values with
  | nil => exact ⟨true, .ended⟩
  | cons v vs ih =>
    obtain ⟨atEnd, hbody⟩ := h ⟨[v], namespaces⟩
    rw [Builtin.eachValue, Run.result_bind]
    cases hraises : Stream.raises (evaluate ⟨[v], namespaces⟩).result.values with
    | true => exact ⟨false, .raised hbody hraises vs⟩
    | false =>
      obtain ⟨rest, hrest⟩ := ih
      exact ⟨rest, .next hbody hraises hrest⟩

theorem covers_iterated (h : body.Covers evaluate) (values : List Value) (state : Stream) :
    ∃ atEnd, iterated body values state (Builtin.iterated evaluate values state).result atEnd := by
  induction values generalizing state with
  | nil => exact ⟨true, .ended state⟩
  | cons v vs ih =>
    obtain ⟨_, hbody⟩ := h state
    obtain ⟨rest, hrest⟩ := ih (evaluate state).result
    exact ⟨rest, .next hbody v hrest⟩

theorem covers_steps (h : body.Covers evaluate) (values : List Value) (state : Stream) :
    ∃ atEnd, steps body values state (Builtin.steps evaluate values state).result atEnd := by
  induction values generalizing state with
  | nil => exact ⟨true, .ended state⟩
  | cons v vs ih =>
    obtain ⟨_, hbody⟩ := h state
    rw [Builtin.steps, Run.result_bind]
    cases hraises : Stream.raises (evaluate state).result.values with
    | true => exact ⟨false, .raised hbody hraises v vs⟩
    | false =>
      obtain ⟨rest, hrest⟩ := ih (evaluate state).result
      exact ⟨rest, .next hbody hraises v hrest⟩

theorem fst_counting (values : List Value) : (counting values).1 = Builtin.counted values := by
  fun_induction counting values with
  | case1 => rfl
  | case2 v vs bound hbound ih => simp only [Builtin.counted, hbound, ih]
  | case3 v vs e he => simp only [Builtin.counted, he]

theorem fst_spelling (values : List Value) : (spelling values).1 = Builtin.characters values := by
  fun_induction spelling values with
  | case1 => rfl
  | case2 v vs c hc ih =>
    rw [Builtin.characters, hc, ← ih]
    cases (spelling vs).1 <;> rfl
  | case3 v vs e he =>
    rw [Builtin.characters, he]
    rfl

theorem covers_each (h : body.Covers evaluate) : Covers (each body) (Builtin.each [evaluate]) := by
  intro inner
  obtain ⟨atEnd, heach⟩ := covers_eachValue h inner.namespaces inner.values
  exact ⟨atEnd, _, atEnd, heach, rfl⟩

theorem covers_nth (h : position.Covers evaluate) :
    Covers (nth position) (Builtin.nth [evaluate]) := by
  intro inner
  obtain ⟨_, hposition⟩ := h inner
  refine ⟨false, _, hposition, ?_⟩
  simp only [Builtin.nth, Builtin.withArgument, List.getElem?_cons_zero, Run.result_bind]
  cases Builtin.selected inner.values (evaluate inner).result.values <;> rfl

theorem covers_range : Covers range (Builtin.range []) := by
  intro inner
  refine ⟨(counting inner.values).2, ?_⟩
  rw [range, fst_counting]
  rfl

theorem covers_implode : Covers implode (Builtin.implode []) := by
  intro inner
  refine ⟨(spelling inner.values).2, ?_⟩
  have hspelling := fst_spelling inner.values
  unfold implode Builtin.implode
  cases hmade : spelling inner.values with
  | mk result atEnd =>
    rw [hmade] at hspelling
    rw [← hspelling]
    cases result <;> rfl

theorem covers_reduce (hinit : init.Covers evaluate) (hbody : body.Covers evaluate') :
    Covers (reduce init body) (Builtin.reduce [evaluate, evaluate']) := by
  intro inner
  obtain ⟨_, hstate⟩ := hinit inner
  obtain ⟨atEnd, hlast⟩ := covers_iterated hbody inner.values (evaluate inner).result
  refine ⟨atEnd, _, _, atEnd, hstate, hlast, ?_⟩
  simp only [Builtin.reduce, Builtin.withArgument, List.getElem?_cons_zero, Run.result_bind]
  cases hvalues : inner.values <;> rfl

theorem covers_forEach (hinit : init.Covers evaluate) (hbody : body.Covers evaluate') :
    Covers (forEach init body) (Builtin.forEach [evaluate, evaluate']) := by
  intro inner
  obtain ⟨_, hstate⟩ := hinit inner
  obtain ⟨atEnd, hsteps⟩ := covers_steps hbody inner.values (evaluate inner).result
  exact ⟨atEnd, _, _, atEnd, hstate, hsteps, rfl⟩

/-- What the functions of the standard table make is what their routines may make. -/
theorem covers_routine {label : String} {courses : List Course} {evaluators : List Evaluator}
    (hargs : List.Forall₂ Course.Covers courses evaluators) {function : Builtin}
    (hlookup : Builtins.standard.lookup label evaluators.length = .ok function) :
    (routine label courses).Covers (function evaluators) := by
  obtain ⟨functions, hname, harity⟩ := Builtins.mem_of_lookup hlookup
  simp only [Builtins.standard, List.mem_cons, Prod.mk.injEq, List.not_mem_nil, or_false] at hname
  rcases hname with ⟨rfl, rfl⟩ | ⟨rfl, rfl⟩ | ⟨rfl, rfl⟩ | ⟨rfl, rfl⟩ | ⟨rfl, rfl⟩ | ⟨rfl, rfl⟩ |
    ⟨rfl, rfl⟩ | ⟨rfl, rfl⟩ | ⟨rfl, rfl⟩ | ⟨rfl, rfl⟩ <;>
    obtain ⟨hcount, rfl⟩ := Prod.mk.inj (List.mem_singleton.mp harity) <;>
    rcases hargs with _ | ⟨hfirst, _ | ⟨hsecond, _ | _⟩⟩ <;> cases hcount
  · exact covers_each hfirst
  · exact covers_constant .nothing
  · exact covers_constant _
  · exact covers_forEach hfirst hsecond
  · exact covers_implode
  · exact covers_nth hfirst
  · exact covers_constant _
  · exact covers_range
  · exact covers_reduce hfirst hsecond
  · exact covers_constant _

end Making

/-! ### Nodes -/

namespace Course

theorem covers_constant (generated : Generated) :
    Covers (bridged (.constant generated)) (Node.constant generated) :=
  covers_bridged (Making.covers_constant generated)

theorem covers_parens (h : body.Covers evaluate) :
    Covers (bridged (.parens body)) (Node.parens evaluate) := by
  refine covers_bridged fun inner => ?_
  obtain ⟨atEnd, hbody⟩ := h inner
  exact ⟨atEnd, _, hbody, rfl⟩

theorem covers_arrayOf (h : body.Covers evaluate) :
    Covers (bridged (.arrayOf body)) (Node.arrayOf evaluate) := by
  refine covers_bridged fun inner => ?_
  obtain ⟨_, hbody⟩ := h inner
  exact ⟨false, _, hbody, rfl⟩

theorem covers_objectOf (h : body.Covers evaluate) :
    Covers (bridged (.objectOf body)) (Node.objectOf evaluate) := by
  refine covers_bridged fun inner => ?_
  obtain ⟨atEnd, hbody⟩ := h inner
  refine ⟨atEnd, _, hbody, ?_⟩
  rw [Run.result_bind, Node.objectFrom]
  cases Node.entriesOf (evaluate inner).result.values <;> rfl

theorem covers_pipe (hleft : left.Covers evaluate) (hright : right.Covers evaluate') :
    Covers (bridged (.pipe left right)) (Node.pipe evaluate evaluate') := by
  refine covers_bridged fun inner => ?_
  obtain ⟨first, hfirst⟩ := hleft inner
  obtain ⟨last, hlast⟩ := hright (evaluate inner).result
  exact ⟨first && last, _, _, hfirst, hlast, rfl⟩

theorem covers_comma (hleft : left.Covers evaluate) (hright : right.Covers evaluate') :
    Covers (bridged (.comma left right)) (Node.comma evaluate evaluate') := by
  refine covers_bridged fun inner => ?_
  obtain ⟨first, hfirst⟩ := hleft inner
  obtain ⟨second, hsecond⟩ := hright inner
  exact ⟨first || second, _, _, hfirst, hsecond, rfl⟩

theorem covers_binary (op : Operator) (hleft : left.Covers evaluate)
    (hright : right.Covers evaluate') :
    Covers (bridged (.binary op left right)) (Node.binary op evaluate evaluate') := by
  refine covers_bridged fun inner => ?_
  obtain ⟨first, hfirst⟩ := hleft inner
  obtain ⟨second, hsecond⟩ := hright inner
  refine ⟨first || second, _, _, hfirst, hsecond, ?_⟩
  simp only [Run.result_bind, Making.paired]
  cases Stream.firstException? ((evaluate inner).result.values ++ (evaluate' inner).result.values)
    <;> rfl

theorem covers_command (runtime : Runtime) (literal? : Option String) (h : body.Covers evaluate) :
    Covers (bridged (.command runtime literal? body))
      (Node.command runtime ⟨literal?, evaluate⟩) := by
  refine covers_bridged fun inner => ?_
  obtain ⟨atEnd, hname⟩ := exists_resolves literal? h inner
  rw [Run.result_bind]
  cases hresult : (Namer.resolve ⟨literal?, evaluate⟩ inner).result with
  | error e => exact ⟨false, _, atEnd, hresult ▸ hname, rfl⟩
  | ok program => exact ⟨true, _, atEnd, hresult ▸ hname, rfl⟩

theorem covers_name (runner : Runner) (config : Config) (label : String) :
    Covers (name ⟨.standard, runner, config⟩ label)
      (Node.name ⟨.standard, runner, config⟩ label) := by
  intro input
  unfold name Node.name
  cases input.namespaces.locals.get? label with
  | some values => exact ⟨true, rfl⟩
  | none =>
    cases hlookup : Builtins.standard.lookup label 0 with
    | ok function =>
      have hmakes : (Making.routine label []).Covers (function []) :=
        Making.covers_routine .nil hlookup
      simpa only [hlookup] using covers_bridged hmakes input
    | error e => simpa only [hlookup] using covers_raise e input

theorem covers_call (runner : Runner) (config : Config) (literal? : Option String)
    (h : body.Covers evaluate) {courses : List Course} {evaluators : List Evaluator}
    (hargs : List.Forall₂ Covers courses evaluators) :
    Covers (call ⟨.standard, runner, config⟩ literal? body courses)
      (Node.call ⟨.standard, runner, config⟩ ⟨literal?, evaluate⟩ evaluators) := by
  intro input
  obtain ⟨atEnd, hhead⟩ := exists_resolves literal? h input
  unfold call Node.call
  rw [Run.result_bind]
  cases hresult : (Namer.resolve ⟨literal?, evaluate⟩ input).result with
  | error e => exact ⟨false, _, atEnd, hresult ▸ hhead, rfl⟩
  | ok label =>
    cases hlookup : Builtins.standard.lookup label evaluators.length with
    | ok function =>
      obtain ⟨read, hbody⟩ := covers_bridged (Making.covers_routine hargs hlookup) input
      refine ⟨read || atEnd, _, atEnd, hresult ▸ hhead, ?_⟩
      simpa only [hargs.length_eq, hlookup] using ⟨_, hbody, rfl⟩
    | error e =>
      refine ⟨false, _, atEnd, hresult ▸ hhead, ?_⟩
      simp only [hargs.length_eq, hlookup]
      rfl

theorem covers_globalVariable (literal? : Option String) (h : body.Covers evaluate) :
    Covers (globalVariable literal? body) (Node.globalVariable ⟨literal?, evaluate⟩) := by
  intro input
  cases literal? with
  | some name => exact ⟨true, rfl⟩
  | none =>
    obtain ⟨atEnd, hlabel⟩ := h input
    simp only [globalVariable, Node.globalVariable, Namer.resolve, Run.result_bind, Run.result_pure]
    cases hname : Namer.sensible (evaluate input).result.values with
    | error e => exact ⟨false, _, hlabel, by simp only [hname]; rfl⟩
    | ok name => exact ⟨atEnd, _, hlabel, by simp only [hname, Run.result_pure]⟩

/-- What an assignment does with the values of its right side. -/
theorem covers_assign {bind : List Value → Course} {target : Node.Target}
    (hbind : ∀ values, (bind values).Covers (Node.bind target values)) (h : right.Covers evaluate) :
    Covers (assign bind right) (Node.assign target evaluate) := by
  intro input
  obtain ⟨_, hstored⟩ := h input
  simp only [assign, Node.assign, Run.result_bind]
  cases hfirst : Stream.firstException? (evaluate input).result.values with
  | some e => exact ⟨false, _, hstored, by simp only [hfirst, Run.result_pure]⟩
  | none =>
    obtain ⟨atEnd, hbound⟩ := hbind (evaluate input).result.values input
    exact ⟨atEnd, _, hstored, by simpa only [hfirst] using hbound⟩

theorem covers_bindLocal (label : String) (values : List Value) :
    Covers (bindLocal label values) (Node.bind (.local label) values) := fun _ => ⟨true, rfl⟩

theorem covers_bindGlobal (literal? : Option String) (h : body.Covers evaluate)
    (values : List Value) :
    Covers (bindGlobal literal? body values) (Node.bind (.global ⟨literal?, evaluate⟩) values) := by
  intro input
  obtain ⟨atEnd, hlabel⟩ := exists_resolves literal? h { input with values := [] }
  simp only [bindGlobal, Node.bind, Run.result_bind]
  cases hresult : (Namer.resolve ⟨literal?, evaluate⟩ { input with values := [] }).result with
  | error e => exact ⟨false, _, atEnd, hresult ▸ hlabel, rfl⟩
  | ok name => exact ⟨true, _, atEnd, hresult ▸ hlabel, rfl⟩

theorem covers_semicolon (hleft : left.Covers evaluate) (hright : right.Covers evaluate') :
    Covers (semicolon left right) (Node.semicolon evaluate evaluate') := by
  intro input
  obtain ⟨_, hbefore⟩ := hleft input
  simp only [semicolon, Node.semicolon, Run.result_bind]
  cases hfirst : Stream.firstException? (evaluate input).result.values with
  | some e => exact ⟨false, _, hbefore, by simp only [hfirst, Run.result_pure]⟩
  | none =>
    obtain ⟨_, hbehind⟩ := hright (carried input (evaluate input).result.namespaces)
    exact ⟨true, _, hbefore, by simpa only [hfirst] using ⟨_, hbehind, rfl⟩⟩

end Course

namespace Filter

theorem courses_eq_map (runtime : Runtime) (fs : List Filter) :
    courses runtime fs = fs.map (course runtime) := by
  induction fs with
  | nil => rfl
  | cons f fs ih => rw [courses, ih, List.map_cons]

/-- The course of events that `eval` takes is one of those that there are. -/
theorem covers_eval (runner : Runner) (config : Config) (f : Filter) :
    (f.course ⟨.standard, runner, config⟩).Covers (f.eval ⟨.standard, runner, config⟩) := by
  induction f using Filter.induction with
  | empty | number _ | string _ => exact Course.covers_constant _
  | parens _ ih => exact Course.covers_parens ih
  | array _ ih => exact Course.covers_arrayOf ih
  | object _ ih => exact Course.covers_objectOf ih
  | name label => exact Course.covers_name runner config label
  | pipe _ _ ihl ihr => exact Course.covers_pipe ihl ihr
  | comma _ _ ihl ihr => exact Course.covers_comma ihl ihr
  | add _ _ ihl ihr => exact Course.covers_binary .add ihl ihr
  | multiply _ _ ihl ihr => exact Course.covers_binary .multiply ihl ihr
  | pair _ _ ihl ihr => exact Course.covers_binary .pair ihl ihr
  | semicolon _ _ ihl ihr => exact Course.covers_semicolon ihl ihr
  | command f ih => exact Course.covers_command _ f.literalName? ih
  | globalVariable f ih => exact Course.covers_globalVariable f.literalName? ih
  | assign l r _ ihlabel ihr =>
    cases l with
    | name label => exact Course.covers_assign (Course.covers_bindLocal label) ihr
    | globalVariable f =>
      exact Course.covers_assign (Course.covers_bindGlobal f.literalName? (ihlabel f rfl)) ihr
    | _ => exact Course.covers_assign (fun _ => Course.covers_raise _) ihr
  | apply attributes ih =>
    by_cases hall : attributes.all isEmpty = true
    · rw [course, eval, if_pos hall, if_pos hall]
      exact Course.covers_identity
    · rw [course, eval, if_neg hall, if_neg hall]
      cases splitDecimal? attributes with
      | some text => exact Course.covers_constant _
      | none =>
        cases attributes with
        | nil => exact Course.covers_identity
        | cons head args =>
          obtain ⟨ihhead, ihargs⟩ := List.forall_mem_cons.mp ih
          have hargs : List.Forall₂ Course.Covers (courses ⟨.standard, runner, config⟩ args)
              (evalAll ⟨.standard, runner, config⟩ args) := by
            rw [courses_eq_map, evalAll_eq_map, List.forall₂_map_left_iff,
              List.forall₂_map_right_iff, List.forall₂_same]
            exact ihargs
          exact Course.covers_call runner config head.literalName? ihhead hargs

end Filter

/-! ### What each form of filter can come to -/

namespace Course

variable {input : Stream} {passage : Passage}

theorem namespaces_bridged {making : Making} (h : bridged making input passage) :
    passage.output.namespaces = input.namespaces := by
  cases h <;> rfl

theorem name_cases {runtime : Runtime} {label : String} (h : name runtime label input passage) :
    (∃ values, input.namespaces.locals.get? label = some values ∧ replay values input passage) ∨
    bridged (.routine label []) input passage ∨ ∃ e, raise e input passage := by
  unfold name at h
  split at h
  · next values hvalues => exact .inl ⟨values, hvalues, h⟩
  · split at h
    · exact .inr (.inl h)
    · next e _ => exact .inr (.inr ⟨e, h⟩)

theorem Resolves.eq_ok {literal? : Option String} {head : Except Exception String} {atEnd : Bool}
    (h : Resolves literal? body input head atEnd) {name : String} (hname : literal? = some name) :
    head = .ok name := by
  cases h with
  | literal hliteral =>
    cases hliteral.symm.trans hname
    rfl
  | computed hliteral => cases hliteral.symm.trans hname

theorem call_cases {runtime : Runtime} {literal? : Option String} {args : List Course}
    (h : call runtime literal? body args input passage) :
    (∃ e, raise e input passage) ∨
    ∃ label made, (∀ name, literal? = some name → label = name) ∧
      bridged (.routine label args) input made ∧ passage.output = made.output ∧
      (made.atEnd = true → passage.atEnd = true) := by
  obtain ⟨head, atEnd, hresolves, hhead⟩ := h
  cases head with
  | error e => exact .inl ⟨e, hhead⟩
  | ok label =>
    dsimp only at hhead
    split at hhead
    · obtain ⟨made, hmade, rfl⟩ := hhead
      refine .inr ⟨label, made, fun name hname => ?_, hmade, rfl, fun hatEnd => ?_⟩
      · cases hresolves.eq_ok hname
        rfl
      · simp only [hatEnd, Bool.true_or]
    · next e _ => exact .inl ⟨e, hhead⟩

theorem globalVariable_cases {literal? : Option String}
    (h : globalVariable literal? body input passage) :
    (∃ name, literal? = some name ∧
      replay (Node.globalValues input.namespaces.globals name) input passage) ∨
    literal? = none ∧ ((∃ e, raise e input passage) ∨
      ∃ name, passage.output =
        { input with values := Node.globalValues input.namespaces.globals name }) := by
  unfold globalVariable at h
  split at h
  · next name => exact .inl ⟨name, rfl, h⟩
  · obtain ⟨label, _, hlabel⟩ := h
    split at hlabel
    · next e _ => exact .inr ⟨rfl, .inl ⟨e, hlabel⟩⟩
    · next name _ =>
      cases hlabel
      exact .inr ⟨rfl, .inr ⟨name, rfl⟩⟩

theorem semicolon_cases (h : semicolon left right input passage) :
    ∃ before, left input before ∧
      ((∃ e, Stream.firstException? before.output.values = some e ∧
        passage = ⟨{ before.output with values := [e] }, false⟩) ∨
      Stream.raises before.output.values = false ∧
        ∃ behind, right (carried input before.output.namespaces) behind ∧
        passage = ⟨behind.output, true⟩) := by
  obtain ⟨before, hbefore, hrest⟩ := h
  refine ⟨before, hbefore, ?_⟩
  split at hrest
  · next e he => exact .inl ⟨e, he, hrest⟩
  · next hnone => exact .inr ⟨Stream.firstException?_eq_none_iff.mp hnone, hrest⟩

end Course

namespace Filter

/-- An assignment raises an exception, or it binds plain values in one of the scopes. -/
theorem course_assign_cases {runtime : Runtime} {l r : Filter} {input : Stream} {passage : Passage}
    (h : (assign l r).course runtime input passage) :
    (∃ e, e.isException = true ∧ passage = ⟨{ input with values := [e] }, false⟩) ∨
    ∃ label values, Stream.raises values = false ∧
      (Course.bindLocal label values input passage ∨ passage = ⟨Node.withBinding input
        { input.namespaces with globals := input.namespaces.globals.bind label values }, true⟩) := by
  have hassign : ∃ bind : List Value → Course, Course.assign bind (r.course runtime) input passage ∧
      ∀ values, bind values input passage → (∃ e, Course.raise e input passage) ∨
        ∃ label, Course.bindLocal label values input passage ∨ passage = ⟨Node.withBinding input
          { input.namespaces with globals := input.namespaces.globals.bind label values }, true⟩ := by
    cases l with
    | name label => exact ⟨_, h, fun values hbind => .inr ⟨label, .inl hbind⟩⟩
    | globalVariable f =>
      refine ⟨_, h, fun values hbind => ?_⟩
      obtain ⟨label, _, _, hlabel⟩ := hbind
      cases label with
      | error e => exact .inl ⟨e, hlabel⟩
      | ok name => exact .inr ⟨name, .inr hlabel⟩
    | _ => exact ⟨_, h, fun _ hraise => .inl ⟨_, hraise⟩⟩
  obtain ⟨bind, ⟨stored, _, hstored⟩, hbind⟩ := hassign
  split at hstored
  · next e he => exact .inl ⟨e, Stream.isException_of_firstException? he, hstored⟩
  · next hnone =>
    rcases hbind _ hstored with ⟨e, hraise⟩ | ⟨label, hbound⟩
    · exact .inl ⟨e.toValue, rfl, hraise⟩
    · exact .inr ⟨label, _, Stream.firstException?_eq_none_iff.mp hnone, hbound⟩

/-- Induction over what the courses of filters are. -/
@[elab_as_elim]
theorem course_induction (runtime : Runtime) {motive : Filter → Prop}
    (bridged : ∀ f making, f.course runtime = .bridged making → motive f)
    (identity : ∀ attributes, (apply attributes).course runtime = .identity →
      motive (.apply attributes)) (name : ∀ label, motive (.name label))
    (call : ∀ head args, (apply (head :: args)).course runtime =
      .call runtime head.literalName? (head.course runtime) (courses runtime args) →
      motive (.apply (head :: args))) (assign : ∀ l r, motive (.assign l r))
    (semicolon : ∀ l r, motive l → motive r → motive (.semicolon l r))
    (globalVariable : ∀ label, motive (.globalVariable label)) (f : Filter) : motive f := by
  have hbridged : ∀ f, (∃ making, f.course runtime = .bridged making) → motive f := by
    rintro f ⟨making, hmaking⟩
    exact bridged f making hmaking
  induction f using Filter.induction with
  | name label => exact name label
  | assign l r => exact assign l r
  | semicolon l r ihl ihr => exact semicolon l r ihl ihr
  | globalVariable label => exact globalVariable label
  | apply attributes =>
    by_cases hall : attributes.all isEmpty = true
    · exact identity attributes (by rw [course, if_pos hall])
    · cases hsplit : splitDecimal? attributes with
      | some text => exact hbridged _ ⟨_, by rw [course, if_neg hall, hsplit]⟩
      | none =>
        cases attributes with
        | nil => simp at hall
        | cons head args => exact call head args (by rw [course, if_neg hall, hsplit, courseOfCall])
  | _ =>
    apply hbridged
    rw [course]
    exact ⟨_, rfl⟩

end Filter

end QueryShell
