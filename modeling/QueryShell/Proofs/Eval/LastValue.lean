import QueryShell.Proofs.Eval.Course

/-! Where exceptions stand in what comes out of a filter, whatever course its evaluation takes. An
exception is the last value, unless an undefined global variable is read over an input that holds an
exception. -/

namespace QueryShell

namespace Course

variable {input : Stream} {passage : Passage}

theorem terminal_bridged {making : Making} (h : bridged making input passage) :
    Stream.Terminal passage.output.values := by
  cases h with
  | prompt => exact Generated.terminal_followedBy _ _
  | late => exact Generated.terminal_values _

theorem terminal_raise {e : Exception} (h : raise e input passage) :
    Stream.Terminal passage.output.values := by
  cases h
  exact Stream.terminal_singleton _

theorem terminal_replay {values : List Value} (hvalues : Stream.raises values = false)
    (h : replay values input passage) : Stream.Terminal passage.output.values := by
  cases h
  exact Node.terminal_replay hvalues input

end Course

namespace Filter

variable {runtime : Runtime} {input : Stream} {passage : Passage}

/-- No course puts an exception into a scope. -/
theorem plain_course {f : Filter} (h : input.namespaces.Plain)
    (hcourse : f.course runtime input passage) :
    passage.output.namespaces.Plain := by
  induction f using course_induction runtime generalizing input passage with
  | bridged f making hf =>
    rw [hf] at hcourse
    rw [Course.namespaces_bridged hcourse]
    exact h
  | identity attributes hf =>
    rw [hf] at hcourse
    cases hcourse
    exact h
  | name label =>
    rw [course] at hcourse
    rcases Course.name_cases hcourse with ⟨values, _, hreplay⟩ | hbridged | ⟨e, hraise⟩
    · cases hreplay
      exact h
    · rw [Course.namespaces_bridged hbridged]
      exact h
    · cases hraise
      exact h
  | call head args hf =>
    rw [hf] at hcourse
    rcases Course.call_cases hcourse with ⟨e, hraise⟩ | ⟨label, made, _, hmade, houtput, _⟩
    · cases hraise
      exact h
    · rw [houtput, Course.namespaces_bridged hmade]
      exact h
  | assign l r =>
    rcases course_assign_cases hcourse with
      ⟨e, _, hassign⟩ | ⟨label, values, hvalues, hassign | hassign⟩ <;> cases hassign
    · exact h
    · exact ⟨h.globals, h.locals.bind label hvalues⟩
    · exact ⟨h.globals.bind label hvalues, h.locals⟩
  | semicolon l r ihl ihr =>
    rw [course] at hcourse
    obtain ⟨before, hbefore, ⟨e, _, hpassage⟩ | ⟨_, behind, hbehind, hpassage⟩⟩ :=
      Course.semicolon_cases hcourse <;> cases hpassage
    · exact (ihl h hbefore : before.output.namespaces.Plain)
    · have hscopes : before.output.namespaces.Plain := ihl h hbefore
      have hcarried : (Course.carried input before.output.namespaces).namespaces.Plain :=
        ⟨hscopes.globals, hscopes.locals⟩
      exact (ihr hcarried hbehind : behind.output.namespaces.Plain)
  | globalVariable label =>
    rw [course] at hcourse
    rcases Course.globalVariable_cases hcourse with ⟨name, _, hreplay⟩ |
      ⟨_, ⟨e, hraise⟩ | ⟨name, houtput⟩⟩
    · cases hreplay
      exact h
    · cases hraise
      exact h
    · rw [houtput]
      exact h

/-- The last filter of a sequence is a global variable with a literal name. It is not in the scopes
that the filters in front of it can leave, and there is an exception in its input. -/
inductive MeetsUndefined (runtime : Runtime) : Filter → Stream → Prop where
  | globalVariable {label : Filter} {name : String} (hname : label.literalName? = some name)
    {input : Stream}
    (hglobals : input.namespaces.globals.get? name = none)
    (hraises : Stream.raises input.values = true) :
    MeetsUndefined runtime (.globalVariable label) input
  | semicolon {l r : Filter} {input : Stream} {before : Passage}
    (hleft : l.course runtime input before)
    (hplain : Stream.raises before.output.values = false)
    (hright : MeetsUndefined runtime r (Course.carried input before.output.namespaces)) :
    MeetsUndefined runtime (.semicolon l r) input

/-- The undefined variable raises an exception of its own and passes the one of the input on behind
it. -/
theorem MeetsUndefined.exists_course {f : Filter} (h : f.MeetsUndefined runtime input) :
    ∃ passage, f.course runtime input passage ∧ ∃ name e, e.isException = true ∧
      passage.output.values = [(Exception.undefinedName name).toValue, e] := by
  induction h with
  | @globalVariable label name hname input hglobals hraises =>
    obtain ⟨e, he⟩ := Stream.raises_iff_firstException?.mp hraises
    refine ⟨⟨Node.replay [(Exception.undefinedName name).toValue] input, true⟩, ?_, name, e,
      Stream.isException_of_firstException? he, ?_⟩
    · rw [course, hname, Course.globalVariable, Node.globalValues, hglobals]
      rfl
    · rw [Node.replay, he]
      rfl
  | @semicolon l r input before hleft hplain _ ih =>
    obtain ⟨behind, hbehind, hvalues⟩ := ih
    refine ⟨⟨behind.output, true⟩, ⟨before, hleft, ?_⟩, hvalues⟩
    rw [Stream.firstException?_eq_none_iff.mpr hplain]
    exact ⟨behind, hbehind, rfl⟩

theorem terminal_course {f : Filter} (h : input.namespaces.Plain)
    (hf : ¬ f.MeetsUndefined runtime input) (hcourse : f.course runtime input passage) :
    Stream.Terminal passage.output.values := by
  induction f using course_induction runtime generalizing input passage with
  | bridged f making hbridged =>
    rw [hbridged] at hcourse
    exact Course.terminal_bridged hcourse
  | identity attributes hidentity =>
    rw [hidentity] at hcourse
    cases hcourse
    exact Stream.terminal_throughException input.values
  | name label =>
    rw [course] at hcourse
    rcases Course.name_cases hcourse with ⟨values, hvalues, hreplay⟩ | hbridged | ⟨e, hraise⟩
    · exact Course.terminal_replay (h.locals label values hvalues) hreplay
    · exact Course.terminal_bridged hbridged
    · exact Course.terminal_raise hraise
  | call head args hcall =>
    rw [hcall] at hcourse
    rcases Course.call_cases hcourse with ⟨e, hraise⟩ | ⟨label, made, _, hmade, houtput, _⟩
    · exact Course.terminal_raise hraise
    · rw [houtput]
      exact Course.terminal_bridged hmade
  | assign l r =>
    rcases course_assign_cases hcourse with
      ⟨e, _, hassign⟩ | ⟨label, values, _, hassign | hassign⟩ <;> cases hassign
    · exact Stream.terminal_singleton e
    · exact Stream.terminal_throughException input.values
    · exact Stream.terminal_throughException input.values
  | semicolon l r _ ihr =>
    rw [course] at hcourse
    obtain ⟨before, hbefore, ⟨e, _, hpassage⟩ | ⟨hplain, behind, hbehind, hpassage⟩⟩ :=
      Course.semicolon_cases hcourse <;> cases hpassage
    · exact Stream.terminal_singleton e
    · -- The left side may have let an exception of the input go by, so that the right side meets
      -- it.
      have hscopes := plain_course h hbefore
      have hcarried : (Course.carried input before.output.namespaces).namespaces.Plain :=
        ⟨hscopes.globals, hscopes.locals⟩
      have hr : ¬ r.MeetsUndefined runtime (Course.carried input before.output.namespaces) :=
        fun hright => hf (.semicolon hbefore hplain hright)
      exact (ihr hcarried hr hbehind : Stream.Terminal behind.output.values)
  | globalVariable label =>
    rw [course] at hcourse
    rcases Course.globalVariable_cases hcourse with ⟨name, hname, hreplay⟩ |
      ⟨_, ⟨e, hraise⟩ | ⟨name, houtput⟩⟩
    · cases hglobals : input.namespaces.globals.get? name with
      | some values =>
        rw [Node.globalValues, hglobals] at hreplay
        exact Course.terminal_replay (h.globals name values hglobals) hreplay
      | none =>
        have hraises : Stream.raises input.values = false := by
          rw [← Bool.not_eq_true]
          exact fun hraises => hf (.globalVariable hname hglobals hraises)
        cases hreplay
        rw [Node.replay, Stream.firstException?_eq_none_iff.mpr hraises, Option.toList_none,
          List.append_nil]
        exact terminal_globalValues h.globals name
    · exact Course.terminal_raise hraise
    · rw [houtput]
      exact terminal_globalValues h.globals name

/-- Whatever course the evaluation takes, what a filter yields has no exception but its last value,
exactly if the filter does not come to an undefined global variable with an exception in its
input. -/
theorem terminal_courses_iff (runner : Runner) (config : Config) (f : Filter) {input : Stream}
    (h : input.namespaces.Plain) :
    let runtime : Runtime := ⟨.standard, runner, config⟩
    (∃ atEnd, f.course runtime input ⟨(f.eval runtime input).result, atEnd⟩) ∧
      ((∀ passage, f.course runtime input passage → Stream.Terminal passage.output.values) ↔
        ¬ f.MeetsUndefined runtime input) := by
  intro runtime
  refine ⟨covers_eval runner config f input, fun hterminal hf => ?_, fun hf passage =>
    terminal_course h hf⟩
  obtain ⟨passage, hcourse, name, e, _, hvalues⟩ := hf.exists_course
  have hfirst := hterminal passage hcourse
  rw [hvalues] at hfirst
  cases hfirst (Exception.undefinedName name).toValue List.mem_cons_self

/-- Inside another filter the exception of the input stops short of the undefined variable. -/
theorem terminal_courses_undefined_in_comma :
    let scope : Scope := [("x", [.string "a"])]
    let input : Stream :=
      ⟨[.null, Exception.wrongType.toValue, .null], { Namespaces.empty with locals := scope }⟩
    input.namespaces.Plain ∧ ∀ passage,
      (Filter.comma (.name "x") (.globalVariable (.name "nope"))).course
        ⟨.standard, .system, .standard⟩ input passage → Stream.Terminal passage.output.values := by
  intro scope input
  have hplain : input.namespaces.Plain := ⟨Scope.plain_nil, Scope.plain_nil.bind "x" rfl⟩
  exact ⟨hplain, (terminal_courses_iff .system .standard _ hplain).2.mpr nofun⟩

theorem not_terminal_eval_undefined :
    Namespaces.empty.Plain ∧
      ¬ Stream.Terminal ((Filter.globalVariable (.name "nope")).eval ⟨.standard, .system, .standard⟩
        ⟨[Exception.wrongType.toValue], .empty⟩).result.values :=
  ⟨Namespaces.plain_empty, by decide⟩

/-- A number in front of the variable may have been put out before the exception is come to. -/
example : (semicolon (.number "1") (.globalVariable (.name "nope"))).MeetsUndefined
    ⟨.standard, .system, .standard⟩ ⟨[.null, Exception.wrongType.toValue], .empty⟩ :=
  .semicolon (.late (List.nil_prefix) rfl (.inl rfl)) (by decide) (.globalVariable rfl rfl rfl)

end Filter
end QueryShell
