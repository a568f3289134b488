import QueryShell.Proofs.Eval.Crossing
import QueryShell.Proofs.Eval.Generated
import QueryShell.Proofs.Eval.Literal

/-! Filters that read on to the end of their input before they stop, unless an exception stops them.
They let no exception of the input go by, whatever course the evaluation takes: what they yield ends
with it or with another one. -/

namespace QueryShell

namespace Stream

def EndsRaised (values : List Value) : Prop := ∃ e, values.getLast? = some e ∧ e.isException = true

variable {values : List Value}

theorem endsRaised_singleton {e : Value} (he : e.isException = true) : EndsRaised [e] :=
  ⟨e, rfl, he⟩

theorem EndsRaised.append (first : List Value) (h : EndsRaised values) :
    EndsRaised (first ++ values) := by
  obtain ⟨e, hlast, he⟩ := h
  refine ⟨e, ?_, he⟩
  rw [List.getLast?_append, hlast, Option.some_or]

theorem EndsRaised.raises (h : EndsRaised values) : raises values = true := by
  obtain ⟨e, hlast, he⟩ := h
  exact List.any_eq_true.mpr ⟨e, List.mem_of_getLast? hlast, he⟩

/-- Where only the last value can be an exception, it is one if there is any. -/
theorem Terminal.endsRaised (hterminal : Terminal values) (hraises : raises values = true) :
    EndsRaised values := by
  obtain ⟨e, hmem, he⟩ := List.any_eq_true.mp hraises
  have hne : values ≠ [] := List.ne_nil_of_mem hmem
  have hsplit := List.dropLast_append_getLast hne
  rw [← hsplit, List.mem_append, List.mem_singleton] at hmem
  rcases hmem with hbefore | rfl
  · rw [hterminal e hbefore] at he
    cases he
  · exact ⟨_, List.getLast?_eq_some_getLast hne, he⟩

theorem endsRaised_firstException? (h : raises values = true) :
    EndsRaised (firstException? values).toList := by
  obtain ⟨e, he⟩ := raises_iff_firstException?.mp h
  rw [he]
  exact endsRaised_singleton (isException_of_firstException? he)

theorem endsRaised_throughException (h : raises values = true) :
    EndsRaised (throughException values) := by
  rw [throughException_eq_plain_append]
  exact (endsRaised_firstException? h).append _

end Stream

theorem Generated.raises_followedBy (generated : Generated) (values : List Value) :
    Stream.raises (generated.followedBy (Stream.firstException? values)) =
      (Stream.raises generated.values || Stream.raises values) := by
  rw [followedBy_eq]
  split
  · next h => rw [h, Bool.true_or]
  · rw [Stream.raises_append, Stream.raises_toList_firstException?]

theorem Generated.raises_raised (e : Exception) : Stream.raises (raised e).values = true := by
  rw [raised, values_once]
  rfl

theorem Generated.raises_ofValues (values : List Value) :
    Stream.raises (ofValues values).values = Stream.raises values := by
  rw [values_ofValues, Stream.raises_throughException]

/-- Of its own accord the node stops only when it has read to the end. -/
def Making.Attentive (making : Making) : Prop :=
  ∀ inner made, making inner made → made.atEnd = true ∨ Stream.raises made.generated.values = true

/-- The input is taken to the end unless an exception comes out, and if there is an exception in it,
one comes out at the end. -/
structure Course.Attentive (course : Course) : Prop where
  atEnd : ∀ {input passage}, course input passage →
    passage.atEnd = true ∨ Stream.raises passage.output.values = true
  endsRaised : ∀ {input passage}, course input passage → Stream.raises input.values = true →
    Stream.EndsRaised passage.output.values

variable {body left right : Course}

namespace Making

theorem attentive_parens (h : body.Attentive) : (parens body).Attentive := by
  rintro inner _ ⟨passage, hbody, rfl⟩
  rw [Generated.raises_ofValues]
  exact h.atEnd hbody

/-- An exception is no pair, so no object is made. -/
theorem raises_objectFrom {values : List Value} (h : Stream.raises values = true) :
    (Node.objectFrom values).isException = true := by
  obtain ⟨e, hmem, he⟩ := List.any_eq_true.mp h
  have hentry : e.asEntry?.isNone = true := by
    cases e <;> first | rfl | cases he
  have hfound : (values.find? fun v => v.asEntry?.isNone).isSome = true :=
    List.find?_isSome.mpr ⟨e, hmem, hentry⟩
  obtain ⟨v, hv⟩ := Option.isSome_iff_exists.mp hfound
  rw [Node.objectFrom_of_find? hv]
  rfl

theorem attentive_objectOf (h : body.Attentive) : (objectOf body).Attentive := by
  rintro inner _ ⟨passage, hbody, rfl⟩
  rw [Generated.values_once]
  exact (h.atEnd hbody).imp_right fun hraises =>
    (Stream.endsRaised_singleton (raises_objectFrom hraises)).raises

/-- An exception of the left side is in the input of the right side. -/
theorem attentive_pipe (hleft : left.Attentive) (hright : right.Attentive) :
    (pipe left right).Attentive := by
  rintro inner _ ⟨first, last, hfirst, hlast, rfl⟩
  rw [Generated.raises_ofValues, Bool.and_eq_true]
  rcases hleft.atEnd hfirst with hfirstEnd | hraises
  · exact (hright.atEnd hlast).imp_left fun hlastEnd => ⟨hfirstEnd, hlastEnd⟩
  · exact .inr (hright.endsRaised hlast hraises).raises

theorem attentive_comma (hleft : left.Attentive) (right : Course) :
    (comma left right).Attentive := by
  rintro inner _ ⟨first, second, hfirst, _, rfl⟩
  rw [Generated.raises_ofValues, Stream.raises_append, Bool.or_eq_true, Bool.or_eq_true]
  exact (hleft.atEnd hfirst).imp .inl .inl

theorem attentive_binary (op : Operator) (hleft : left.Attentive) (right : Course) :
    (binary op left right).Attentive := by
  rintro inner _ ⟨first, second, hfirst, _, rfl⟩
  rcases hleft.atEnd hfirst with hatEnd | hraises
  · exact .inl (Bool.or_eq_true_iff.mpr (.inl hatEnd))
  · obtain ⟨e, he⟩ := Stream.raises_iff_firstException?.mp hraises
    rw [paired, Stream.firstException?_append, he, Option.some_or, Generated.values_once]
    exact .inr (Stream.endsRaised_singleton (Stream.isException_of_firstException? he)).raises

theorem attentive_command (runtime : Runtime) (literal? : Option String) (compute : Course) :
    (command runtime literal? compute).Attentive := by
  rintro inner _ ⟨program, atEnd, _, rfl⟩
  cases program with
  | error e => exact .inr (Generated.raises_raised e)
  | ok program => exact .inl rfl

theorem eachValue.atEnd {namespaces : Namespaces} {values made : List Value} {atEnd : Bool}
    (h : eachValue body namespaces values made atEnd) :
    atEnd = true ∨ Stream.raises made = true := by
  induction h with
  | ended => exact .inl rfl
  | raised _ hraises => exact .inr hraises
  | next _ _ _ ih =>
    rw [Stream.raises_append, Bool.or_eq_true]
    exact ih.imp_right .inr

theorem iterated.atEnd {values : List Value} {state last : Stream} {atEnd : Bool}
    (h : iterated body values state last atEnd) : atEnd = true := by
  induction h with
  | ended => rfl
  | next _ _ _ ih => exact ih

theorem steps.atEnd {values made : List Value} {state : Stream} {atEnd : Bool}
    (h : steps body values state made atEnd) : atEnd = true ∨ Stream.raises made = true := by
  induction h with
  | ended => exact .inl rfl
  | raised _ hraises => exact .inr hraises
  | next _ _ _ _ ih =>
    rw [Stream.raises_append, Bool.or_eq_true]
    exact ih.imp_right .inr

theorem counting_atEnd (values : List Value) :
    (counting values).2 = true ∨ Stream.raises (counting values).1 = true := by
  fun_induction counting values with
  | case1 => exact .inl rfl
  | case2 v vs bound hbound ih =>
    rw [Stream.raises_append, Bool.or_eq_true]
    exact ih.imp_right .inr
  | case3 v vs e he => exact .inr rfl

theorem spelling_atEnd (values : List Value) :
    (spelling values).2 = true ∨ ∃ e, (spelling values).1 = .error e := by
  fun_induction spelling values with
  | case1 => exact .inl rfl
  | case2 v vs c hc ih =>
    rcases ih with hatEnd | ⟨e, he⟩
    · exact .inl hatEnd
    · rw [he]
      exact .inr ⟨e, rfl⟩
  | case3 v vs e he => exact .inr ⟨e, rfl⟩

theorem attentive_each (body : Course) : (each body).Attentive := by
  rintro inner _ ⟨values, atEnd, heach, rfl⟩
  rw [Generated.raises_ofValues]
  exact heach.atEnd

theorem attentive_range : range.Attentive := by
  rintro inner _ rfl
  rw [Generated.raises_ofValues]
  exact counting_atEnd inner.values

theorem attentive_implode : implode.Attentive := by
  rintro inner _ rfl
  have hspelling := spelling_atEnd inner.values
  cases hmade : spelling inner.values with
  | mk result atEnd =>
    rw [hmade] at hspelling
    cases result with
    | ok cs => exact .inl (hspelling.resolve_right fun ⟨e, he⟩ => nomatch he)
    | error e => exact .inr (Generated.raises_raised e)

theorem attentive_reduce (init body : Course) : (reduce init body).Attentive := by
  rintro inner _ ⟨state, last, atEnd, _, hlast, rfl⟩
  exact .inl hlast.atEnd

theorem attentive_forEach (init body : Course) : (forEach init body).Attentive := by
  rintro inner _ ⟨state, values, atEnd, _, hsteps, rfl⟩
  rw [Generated.raises_ofValues]
  exact hsteps.atEnd

end Making

/-- The functions that read on to the end of their input, with their numbers of arguments. -/
def Filter.attentiveFunctions : List (String × Nat) :=
  [("range", 0), ("implode", 0), ("each", 1), ("for", 2), ("reduce", 2)]

theorem Making.attentive_routine {label : String} {args : List Course}
    (h : (label, args.length) ∈ Filter.attentiveFunctions) : (routine label args).Attentive := by
  simp only [Filter.attentiveFunctions, List.mem_cons, Prod.mk.injEq, List.not_mem_nil, or_false]
    at h
  rcases h with ⟨rfl, hcount⟩ | ⟨rfl, hcount⟩ | ⟨rfl, hcount⟩ | ⟨rfl, hcount⟩ | ⟨rfl, hcount⟩
  · rw [List.length_eq_zero_iff] at hcount
    exact hcount ▸ attentive_range
  · rw [List.length_eq_zero_iff] at hcount
    exact hcount ▸ attentive_implode
  · obtain ⟨body, rfl⟩ := List.length_eq_one_iff.mp hcount
    exact attentive_each body
  · obtain ⟨init, body, rfl⟩ := List.length_eq_two.mp hcount
    exact attentive_forEach init body
  · obtain ⟨init, body, rfl⟩ := List.length_eq_two.mp hcount
    exact attentive_reduce init body

/-! ### Filters -/

namespace Course

theorem attentive_bridged {making : Making} (h : making.Attentive) :
    Attentive (bridged making) where
  atEnd hcourse := by
    cases hcourse with
    | prompt => exact .inl rfl
    | late _ hmade hstop =>
      rcases hstop with hstop | hraises
      · exact .inr ((h _ _ hmade).resolve_left (Bool.eq_false_iff.mp hstop))
      · exact .inr hraises
  endsRaised hcourse hraises := by
    cases hcourse with
    | prompt =>
      refine (Generated.terminal_followedBy _ _).endsRaised ?_
      rw [Generated.raises_followedBy, hraises, Bool.or_true]
    | @late _ _ made hmade hstop =>
      refine (Generated.terminal_values _).endsRaised ?_
      rcases hstop with hstop | hraises
      · exact (h _ _ hmade).resolve_left (Bool.eq_false_iff.mp hstop)
      · exact hraises

/-- In whatever order the caller and the worker of a node take their steps, no exception of the input
goes by a node that reads on to the end. -/
theorem endsRaised_of_steps {making : Making} (h : making.Attentive) {input : Stream}
    (hraises : Stream.raises input.values = true) {made : Made} {state : Bridging.State}
    (hrun : Relation.ReflTransGen (Bridging.Step made.generated.ending)
      (Bridging.start input.values made.generated.items) state) (hcaller : state.caller = .done)
    (hmade : making { input with values := state.heard ++ state.bridge.values } made)
    (hread : made.atEnd = true → Stream.raises made.generated.values = true ∨
      state.bridge.terminated = true) :
    ∃ values, state.output = .ofValues values ∧ Stream.EndsRaised values := by
  obtain ⟨passage, hbridged, houtput⟩ := Bridging.bridged_of_steps hrun hcaller hmade hread
  exact ⟨_, houtput, (attentive_bridged h).endsRaised hbridged hraises⟩

theorem attentive_identity : identity.Attentive where
  atEnd := by
    rintro input _ rfl
    exact .inl rfl
  endsRaised := by
    rintro input _ rfl hraises
    exact Stream.endsRaised_throughException hraises

theorem attentive_replay (values : List Value) : (replay values).Attentive where
  atEnd := by
    rintro input _ rfl
    exact .inl rfl
  endsRaised := by
    rintro input _ rfl hraises
    exact (Stream.endsRaised_firstException? hraises).append values

theorem attentive_raise (e : Exception) : (raise e).Attentive where
  atEnd := by
    rintro input _ rfl
    exact .inr rfl
  endsRaised := by
    rintro input _ rfl _
    exact Stream.endsRaised_singleton rfl

/-- A course is attentive if each of its passages is, up to where it says that it has taken the
input to, one of an attentive course. -/
theorem Attentive.of_cases {course : Course}
    (h : ∀ {input passage}, course input passage → ∃ other made, Attentive other ∧
      other input made ∧ passage.output = made.output ∧
      (made.atEnd = true → passage.atEnd = true)) : course.Attentive where
  atEnd hcourse := by
    obtain ⟨_, made, hother, hmade, houtput, hatEnd⟩ := h hcourse
    rw [houtput]
    exact (hother.atEnd hmade).imp_left hatEnd
  endsRaised hcourse hraises := by
    obtain ⟨_, made, hother, hmade, houtput, _⟩ := h hcourse
    rw [houtput]
    exact hother.endsRaised hmade hraises

theorem attentive_name (runtime : Runtime) {label : String}
    (h : (label, 0) ∈ Filter.attentiveFunctions) : (name runtime label).Attentive := by
  refine .of_cases fun {input passage} hcourse => ?_
  rcases name_cases hcourse with ⟨values, _, hreplay⟩ | hbridged | ⟨e, hraise⟩
  · exact ⟨_, passage, attentive_replay values, hreplay, rfl, id⟩
  · exact ⟨_, passage, attentive_bridged (Making.attentive_routine h), hbridged, rfl, id⟩
  · exact ⟨_, passage, attentive_raise e, hraise, rfl, id⟩

theorem attentive_call (runtime : Runtime) {label : String} (compute : Course) {args : List Course}
    (h : (label, args.length) ∈ Filter.attentiveFunctions) :
    (call runtime (some label) compute args).Attentive := by
  refine .of_cases fun {input passage} hcourse => ?_
  rcases call_cases hcourse with ⟨e, hraise⟩ | ⟨head, made, hhead, hmade, houtput, hatEnd⟩
  · exact ⟨_, passage, attentive_raise e, hraise, rfl, id⟩
  · cases hhead label rfl
    exact ⟨_, made, attentive_bridged (Making.attentive_routine h), hmade, houtput, hatEnd⟩

theorem attentive_globalVariable (name : String) (compute : Course) :
    (globalVariable (some name) compute).Attentive :=
  .of_cases fun {_ passage} hreplay => ⟨_, passage, attentive_replay _, hreplay, rfl, id⟩

/-- An exception of the input that gets through the left side keeps the right side from being
run. -/
theorem attentive_semicolon (hleft : left.Attentive) (right : Course) :
    (semicolon left right).Attentive := by
  constructor
  · intro input passage hcourse
    obtain ⟨before, _, ⟨e, he, rfl⟩ | ⟨_, behind, _, rfl⟩⟩ := semicolon_cases hcourse
    · exact .inr (Stream.endsRaised_singleton (Stream.isException_of_firstException? he)).raises
    · exact .inl rfl
  · intro input passage hcourse hraises
    obtain ⟨before, hbefore, ⟨e, he, rfl⟩ | ⟨hplain, _⟩⟩ := semicolon_cases hcourse
    · exact Stream.endsRaised_singleton (Stream.isException_of_firstException? he)
    · cases hplain.symm.trans (hleft.endsRaised hbefore hraises).raises

end Course

namespace Filter

/-- Filters that do not stop before the end of their input without an exception. -/
inductive Attentive : Filter → Prop where
  | identity {attributes : List Filter} (h : attributes.all isEmpty = true) :
    Attentive (.apply attributes)
  | name {label : String} (h : (label, 0) ∈ attentiveFunctions) : Attentive (.name label)
  | call {head : Filter} {args : List Filter} {label : String}
    (hhead : head.literalName? = some label)
    (h : (label, args.length) ∈ attentiveFunctions) : Attentive (.apply (head :: args))
  | assign (l r : Filter) : Attentive (.assign l r)
  | command (program : Filter) : Attentive (.command program)
  | globalVariable {label : Filter} {name : String} (h : label.literalName? = some name) :
    Attentive (.globalVariable label)
  | parens {body : Filter} (h : Attentive body) : Attentive (.parens body)
  | object {body : Filter} (h : Attentive body) : Attentive (.object body)
  | pipe {l r : Filter} (hl : Attentive l) (hr : Attentive r) : Attentive (.pipe l r)
  | comma {l r : Filter} (hl : Attentive l) (hr : Attentive r) : Attentive (.comma l r)
  | add {l r : Filter} (hl : Attentive l) (hr : Attentive r) : Attentive (.add l r)
  | multiply {l r : Filter} (hl : Attentive l) (hr : Attentive r) : Attentive (.multiply l r)
  | pair {l r : Filter} (hl : Attentive l) (hr : Attentive r) : Attentive (.pair l r)
  | semicolon {l r : Filter} (hl : Attentive l) (hr : Attentive r) : Attentive (.semicolon l r)

theorem attentive_assign (runtime : Runtime) (l r : Filter) :
    ((assign l r).course runtime).Attentive := by
  constructor
  · intro input passage hcourse
    rcases course_assign_cases hcourse with ⟨e, he, rfl⟩ | ⟨label, values, _, hbind⟩
    · exact .inr (Stream.endsRaised_singleton he).raises
    · rcases hbind with rfl | rfl <;> exact .inl rfl
  · intro input passage hcourse hraises
    rcases course_assign_cases hcourse with ⟨e, he, rfl⟩ | ⟨label, values, _, hbind⟩
    · exact Stream.endsRaised_singleton he
    · rcases hbind with rfl | rfl <;> exact Stream.endsRaised_throughException hraises

theorem Attentive.course (runtime : Runtime) {f : Filter} (hf : f.Attentive) :
    (f.course runtime).Attentive := by
  induction hf with
  | @identity attributes hall =>
    rw [Filter.course, if_pos hall]
    exact Course.attentive_identity
  | name h => exact Course.attentive_name runtime h
  | @call head args label hhead h =>
    have hcall : (apply (head :: args)).course runtime =
        .call runtime (some label) (head.course runtime) (courses runtime args) := by
      cases head with
      | name _ | string _ => cases hhead; rfl
      | _ => cases hhead
    rw [hcall]
    refine Course.attentive_call runtime _ ?_
    rw [courses_eq_map, List.length_map]
    exact h
  | assign l r => exact attentive_assign runtime l r
  | command program => exact Course.attentive_bridged (Making.attentive_command runtime _ _)
  | @globalVariable label name hname =>
    rw [Filter.course, hname]
    exact Course.attentive_globalVariable name _
  | parens _ ih => exact Course.attentive_bridged (Making.attentive_parens ih)
  | object _ ih => exact Course.attentive_bridged (Making.attentive_objectOf ih)
  | pipe _ _ ihl ihr => exact Course.attentive_bridged (Making.attentive_pipe ihl ihr)
  | comma _ _ ihl _ => exact Course.attentive_bridged (Making.attentive_comma ihl _)
  | add _ _ ihl _ => exact Course.attentive_bridged (Making.attentive_binary .add ihl _)
  | multiply _ _ ihl _ => exact Course.attentive_bridged (Making.attentive_binary .multiply ihl _)
  | pair _ _ ihl _ => exact Course.attentive_bridged (Making.attentive_binary .pair ihl _)
  | semicolon _ _ ihl _ => exact Course.attentive_semicolon ihl _

/-- An exception in the input of a filter that reads on to the end of it is not lost: whatever
course the evaluation takes, the last value out is that exception or another one, in whatever
namespaces the filter is run. -/
theorem endsRaised_courses (runner : Runner) (config : Config) {f : Filter} (hf : f.Attentive)
    (namespaces : Namespaces) {values : List Value} (h : ∃ v ∈ values, v.isException = true) :
    let runtime : Runtime := ⟨.standard, runner, config⟩
    let input : Stream := ⟨values, namespaces⟩
    (∃ atEnd, f.course runtime input ⟨(f.eval runtime input).result, atEnd⟩) ∧
      ∀ passage, f.course runtime input passage →
        ∃ e, passage.output.values.getLast? = some e ∧ e.isException = true := by
  intro runtime input
  have hraises : Stream.raises input.values = true := List.any_eq_true.mpr h
  exact ⟨covers_eval runner config f input, fun passage hcourse =>
    (hf.course runtime).endsRaised hcourse hraises⟩

/-- The exception comes behind a variable that holds another one, and a sequence that starts with an
assignment keeps it. -/
theorem endsRaised_courses_nested :
    let f : Filter := .semicolon (.assign (.name "x") (.number "1"))
      (.parens
        (.pipe (.object (.pair (.name "implode") .identity))
          (.comma (.globalVariable (.name "g")) (.name "range"))))
    let namespaces : Namespaces :=
      ⟨[("g", [Exception.notInteger.toValue, .null])], [], [], .standard⟩
    let values : List Value := [.number ⟨97, 0⟩, Exception.wrongType.toValue, .null]
    f.Attentive ∧ (∃ v ∈ values, v.isException = true) ∧
      ∀ passage, f.course ⟨.standard, .system, .standard⟩ ⟨values, namespaces⟩ passage →
        ∃ e, passage.output.values.getLast? = some e ∧ e.isException = true := by
  intro f namespaces values
  have himplode : Attentive (.name "implode") := .name (by simp [attentiveFunctions])
  have hrange : Attentive (.name "range") := .name (by simp [attentiveFunctions])
  have hobject : Attentive (.object (.pair (.name "implode") .identity)) :=
    .object (.pair himplode (.identity rfl))
  have hcomma : Attentive (.comma (.globalVariable (.name "g")) (.name "range")) :=
    .comma (.globalVariable rfl) hrange
  have hf : f.Attentive := .semicolon (.assign _ _) (.parens (.pipe hobject hcomma))
  have hvalues : ∃ v ∈ values, v.isException = true :=
    ⟨Exception.wrongType.toValue, by simp [values], rfl⟩
  exact ⟨hf, hvalues, (endsRaised_courses .system .standard hf namespaces hvalues).2⟩

/-- A number may be put out before its caller comes to the exception of the input, which is then
lost. -/
example : ∃ passage, (number "1").course ⟨.standard, .system, .standard⟩
    ⟨[Exception.wrongType.toValue], .empty⟩ passage ∧ passage.output.values = [.number ⟨1, 0⟩] :=
  ⟨_, .late List.nil_prefix rfl (.inl rfl), rfl⟩

end Filter
end QueryShell
