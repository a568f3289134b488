import QueryShell.Proofs.Eval.Confined
import QueryShell.Proofs.Eval.Terminal
import QueryShell.Proofs.Value.Faultless

/-! Streams without a fault of the program in their values and variables. The functions make no
fault when they get as many arguments as they are registered for, and no form of filter makes one as
long as its parts do not. -/

namespace QueryShell

def Scope.Faultless (scope : Scope) : Prop :=
  ∀ name values, scope.get? name = some values → ∀ v ∈ values, v.Faultless

structure Namespaces.Faultless (namespaces : Namespaces) : Prop where
  globals : namespaces.globals.Faultless
  locals : namespaces.locals.Faultless

structure Stream.Faultless (stream : Stream) : Prop where
  values : ∀ v ∈ stream.values, v.Faultless
  namespaces : stream.namespaces.Faultless

/-- All that is generated are values without a fault, to the regular end. -/
structure Generated.Faultless (generated : Generated) : Prop where
  items : ∀ item ∈ generated.items, ∃ v : Value, item = .value v ∧ v.Faultless
  ending : generated.ending = .finished

def Evaluator.Faultless (evaluator : Evaluator) : Prop :=
  ∀ ⦃input : Stream⦄, input.Faultless → (evaluator input).result.Faultless

def MakesNoFault (make : Stream → Run Generated) : Prop :=
  ∀ ⦃inner : Stream⦄, inner.Faultless → (make inner).result.Faultless

theorem Scope.Faultless.bind {scope : Scope} (h : scope.Faultless) (name : String)
    {values : List Value} (hvalues : ∀ v ∈ values, v.Faultless) :
    (scope.bind name values).Faultless := by
  intro other stored hother
  rw [Scope.get?_bind] at hother
  by_cases hname : other = name
  · rw [if_pos hname, Option.some.injEq] at hother
    exact hother ▸ hvalues
  · rw [if_neg hname] at hother
    exact h other stored hother

namespace Stream

variable {values : List Value}

theorem faultless_plain (h : ∀ v ∈ values, v.Faultless) : ∀ v ∈ plain values, v.Faultless :=
  fun v hv => h v ((List.takeWhile_prefix _).subset hv)

theorem faultless_firstException? (h : ∀ v ∈ values, v.Faultless) :
    ∀ e ∈ firstException? values, e.Faultless :=
  fun e he => h e (List.mem_of_find?_eq_some he)

theorem faultless_append_firstException? {others : List Value} (hvalues : ∀ v ∈ values, v.Faultless)
    (hothers : ∀ v ∈ others, v.Faultless) :
    ∀ v ∈ values ++ (firstException? others).toList, v.Faultless := by
  refine List.forall_mem_append.mpr ⟨hvalues, fun e he => ?_⟩
  exact faultless_firstException? hothers e (Option.mem_toList.mp he)

theorem faultless_throughException (h : ∀ v ∈ values, v.Faultless) :
    ∀ v ∈ throughException values, v.Faultless := by
  rw [throughException_eq_plain_append]
  exact faultless_append_firstException? (faultless_plain h) h

theorem Faultless.withValues {stream : Stream} (h : stream.Faultless)
    (hvalues : ∀ v ∈ values, v.Faultless) :
    Faultless { stream with values := values } :=
  ⟨hvalues, h.namespaces⟩

end Stream

namespace Generated

theorem faultless_ofValues {values : List Value} (h : ∀ v ∈ values, v.Faultless) :
    (ofValues values).Faultless where
  items := List.forall_mem_map.mpr fun v hv => ⟨v, rfl, h v hv⟩
  ending := rfl

theorem faultless_once {v : Value} (h : v.Faultless) : (once v).Faultless :=
  faultless_ofValues (List.forall_mem_singleton.mpr h)

theorem faultless_nothing : nothing.Faultless := ⟨nofun, rfl⟩

theorem Faultless.values {generated : Generated} (h : generated.Faultless) :
    ∀ v ∈ generated.values, v.Faultless := by
  have hitems := h.items
  unfold Generated.values
  revert hitems
  induction generated.items with
  | nil =>
    rw [values.go, h.ending]
    exact fun _ _ hv => absurd hv List.not_mem_nil
  | cons item rest ih =>
    intro hitems
    obtain ⟨⟨v, rfl, hv⟩, hrest⟩ := List.forall_mem_cons.mp hitems
    rw [values.go]
    split
    · exact List.forall_mem_singleton.mpr hv
    · exact List.forall_mem_cons.mpr ⟨hv, ih hrest⟩

end Generated

theorem faultless_bridge {make : Stream → Run Generated} (h : MakesNoFault make) :
    Evaluator.Faultless (bridge make) := by
  intro input hinput
  have hmade := (h (hinput.withValues (Stream.faultless_plain hinput.values))).values
  refine ⟨?_, hinput.namespaces⟩
  rw [values_bridge]
  split
  · exact hmade
  · exact Stream.faultless_append_firstException? hmade hinput.values

open Exception (Allows)

namespace Builtin

variable {args : List Evaluator}

theorem makesNoFault_constant {generated : Generated} (h : generated.Faultless)
    (args : List Evaluator) :
    MakesNoFault (constant generated args) := fun _ _ => h

theorem withArgument_of_lt {index : Nat} (h : index < args.length)
    (use : Evaluator → Run Generated) :
    withArgument index args use = use args[index] := by
  rw [withArgument, List.getElem?_eq_getElem h]

theorem faultless_eachValue {body : Evaluator} (hbody : body.Faultless) {namespaces : Namespaces}
    (h : namespaces.Faultless) {values : List Value} (hvalues : ∀ v ∈ values, v.Faultless) :
    ∀ v ∈ (eachValue body namespaces values).result, v.Faultless := by
  induction values with
  | nil => exact nofun
  | cons v vs ih =>
    obtain ⟨hv, hvs⟩ := List.forall_mem_cons.mp hvalues
    have hinput : Stream.Faultless ⟨[v], namespaces⟩ := ⟨List.forall_mem_singleton.mpr hv, h⟩
    have houtput := (hbody hinput).values
    rw [eachValue, Run.result_bind]
    split
    · exact houtput
    · exact List.forall_mem_append.mpr ⟨houtput, ih hvs⟩

theorem makesNoFault_each (hcount : args.length = 1) (h : ∀ argument ∈ args, argument.Faultless) :
    MakesNoFault (each args) := by
  intro inner hinner
  have hindex : 0 < args.length := by omega
  rw [each, withArgument_of_lt hindex]
  exact Generated.faultless_ofValues
    (faultless_eachValue (h _ (List.getElem_mem hindex)) hinner.namespaces hinner.values)

theorem allows_integerOf (v : Value) : Allows (fun _ => True) (integerOf v) := by
  unfold integerOf
  split
  · split
    · trivial
    · exact Exception.faultless_notInteger
  · exact Exception.faultless_wrongType

theorem allows_selected {values positions : List Value} (hvalues : ∀ v ∈ values, v.Faultless)
    (hpositions : ∀ v ∈ positions, v.Faultless) :
    Allows Value.Faultless (selected values positions) := by
  unfold selected
  split
  · exact Exception.faultless_noPosition
  · exact hpositions _ List.mem_cons_self
  · refine (allows_integerOf _).bind fun n _ => ?_
    split
    · next v hfound =>
      obtain ⟨i, _, hv⟩ := Option.bind_eq_some_iff.mp hfound
      exact hvalues v (List.mem_of_getElem? hv)
    · exact Exception.faultless_noSuchPosition

theorem makesNoFault_nth (hcount : args.length = 1) (h : ∀ argument ∈ args, argument.Faultless) :
    MakesNoFault (nth args) := by
  intro inner hinner
  have hindex : 0 < args.length := by omega
  have hposition := (h _ (List.getElem_mem hindex) hinner).values
  have hselected := allows_selected hinner.values hposition
  rw [nth, withArgument_of_lt hindex, Run.result_bind]
  split
  · next v hv => exact Generated.faultless_once (hselected.of_ok hv)
  · next e he => exact Generated.faultless_once (hselected.of_error he)

theorem faultless_counted (values : List Value) : ∀ v ∈ counted values, v.Faultless := by
  induction values with
  | nil => exact nofun
  | cons v vs ih =>
    have hinteger := allows_integerOf v
    rw [counted]
    split
    · next bound _ =>
      refine List.forall_mem_append.mpr ⟨?_, ih⟩
      unfold upTo
      split
      · exact List.forall_mem_map.mpr fun n _ => .number _
      · exact nofun
    · next e he => exact List.forall_mem_singleton.mpr (hinteger.of_error he)

theorem makesNoFault_range (args : List Evaluator) : MakesNoFault (range args) :=
  fun inner _ => Generated.faultless_ofValues (faultless_counted inner.values)

theorem allows_characterOf (v : Value) : Allows (fun _ => True) (characterOf v) := by
  refine (allows_integerOf v).bind fun n _ => ?_
  split
  · next code _ =>
    by_cases hvalid : code.isValidChar
    · rw [dif_pos hvalid]
      trivial
    · rw [dif_neg hvalid]
      exact Exception.faultless_notUnicode
  · exact Exception.faultless_notUnicode

theorem allows_characters (values : List Value) : Allows (fun _ => True) (characters values) := by
  induction values with
  | nil => trivial
  | cons v vs ih => exact (allows_characterOf v).bind fun c _ => ih.bind fun _ _ => trivial

theorem makesNoFault_implode (args : List Evaluator) : MakesNoFault (implode args) := by
  intro inner _
  have hcharacters := allows_characters inner.values
  unfold implode
  split
  · exact Generated.faultless_once (.string _)
  · next e he => exact Generated.faultless_once (hcharacters.of_error he)

theorem faultless_iterated {body : Evaluator} (hbody : body.Faultless) (values : List Value) :
    Evaluator.Faultless (iterated body values) := by
  induction values with
  | nil => exact fun _ hstate => hstate
  | cons v vs ih => exact fun _ hstate => ih (hbody hstate)

theorem makesNoFault_reduce (hcount : args.length = 2) (h : ∀ argument ∈ args, argument.Faultless) :
    MakesNoFault (reduce args) := by
  intro inner hinner
  have hfirst : 0 < args.length := by omega
  have hsecond : 1 < args.length := by omega
  have hstate := h _ (List.getElem_mem hfirst) hinner
  rw [reduce, withArgument_of_lt hfirst, Run.result_bind]
  split
  · exact Generated.faultless_ofValues hstate.values
  · rw [withArgument_of_lt hsecond]
    have hlast := faultless_iterated (h _ (List.getElem_mem hsecond)) inner.values hstate
    exact Generated.faultless_ofValues hlast.values

theorem faultless_steps {body : Evaluator} (hbody : body.Faultless) (values : List Value)
    {state : Stream} (hstate : state.Faultless) :
    ∀ v ∈ (steps body values state).result, v.Faultless := by
  induction values generalizing state with
  | nil => exact nofun
  | cons v vs ih =>
    have hnext := hbody hstate
    rw [steps, Run.result_bind]
    split
    · exact hnext.values
    · exact List.forall_mem_append.mpr ⟨hnext.values, ih hnext⟩

theorem makesNoFault_forEach (hcount : args.length = 2)
    (h : ∀ argument ∈ args, argument.Faultless) :
    MakesNoFault (forEach args) := by
  intro inner hinner
  have hfirst : 0 < args.length := by omega
  have hsecond : 1 < args.length := by omega
  have hstate := h _ (List.getElem_mem hfirst) hinner
  rw [forEach, withArgument_of_lt hsecond, withArgument_of_lt hfirst]
  exact Generated.faultless_ofValues
    (faultless_steps (h _ (List.getElem_mem hsecond)) inner.values hstate)

end Builtin

namespace Builtins

/-- A function makes no fault when it gets as many arguments as it is looked up for. -/
def Faultless (table : Builtins) : Prop :=
  ∀ name arity function, table.lookup name arity = .ok function →
    ∀ args : List Evaluator, args.length = arity → (∀ argument ∈ args, argument.Faultless) →
    MakesNoFault (function args)

theorem faultless_standard : standard.Faultless := by
  intro name arity function hlookup args hcount hargs
  obtain ⟨functions, hname, harity⟩ := mem_of_lookup hlookup
  simp only [standard, List.mem_cons, Prod.mk.injEq, List.not_mem_nil, or_false] at hname
  rcases hname with ⟨_, rfl⟩ | ⟨_, rfl⟩ | ⟨_, rfl⟩ | ⟨_, rfl⟩ | ⟨_, rfl⟩ | ⟨_, rfl⟩ | ⟨_, rfl⟩ |
    ⟨_, rfl⟩ | ⟨_, rfl⟩ | ⟨_, rfl⟩ <;>
    obtain ⟨rfl, rfl⟩ := Prod.mk.inj (List.mem_singleton.mp harity)
  · exact Builtin.makesNoFault_each hcount hargs
  · exact Builtin.makesNoFault_constant Generated.faultless_nothing args
  · exact Builtin.makesNoFault_constant (Generated.faultless_once (.boolean false)) args
  · exact Builtin.makesNoFault_forEach hcount hargs
  · exact Builtin.makesNoFault_implode args
  · exact Builtin.makesNoFault_nth hcount hargs
  · exact Builtin.makesNoFault_constant (Generated.faultless_once .null) args
  · exact Builtin.makesNoFault_range args
  · exact Builtin.makesNoFault_reduce hcount hargs
  · exact Builtin.makesNoFault_constant (Generated.faultless_once (.boolean true)) args

/-- What a look-up that fails raises is no fault. -/
theorem allows_lookup (table : Builtins) (name : String) (arity : Nat) :
    Allows (fun _ => True) (table.lookup name arity) := by
  unfold lookup
  split
  · exact Exception.faultless_undefinedName name
  · split
    · trivial
    · exact Exception.faultless_argumentCount _ arity

end Builtins

theorem Namer.allows_sensible {values : List Value} (h : ∀ v ∈ values, v.Faultless) :
    Allows (fun _ => True) (sensible values) := by
  unfold sensible
  split
  · exact Exception.faultless_noSensibleString _
  · exact h _ List.mem_cons_self
  · trivial
  · exact Exception.faultless_noSensibleString _
  · exact Exception.faultless_noSensibleString _

theorem Namer.allows_resolve {namer : Namer} (h : namer.compute.Faultless) {input : Stream}
    (hinput : input.Faultless) :
    Allows (fun _ => True) (namer.resolve input).result := by
  unfold resolve
  split
  · trivial
  · exact allows_sensible (h hinput).values

namespace Node

theorem faultless_raise {e : Exception} (h : e.Faultless) : Evaluator.Faultless (raise e) :=
  fun _ hinput => hinput.withValues (List.forall_mem_singleton.mpr h)

theorem faultless_identity : Evaluator.Faultless identity :=
  fun _ hinput => hinput.withValues (Stream.faultless_throughException hinput.values)

theorem faultless_replay {values : List Value} (h : ∀ v ∈ values, v.Faultless) {input : Stream}
    (hinput : input.Faultless) : (replay values input).Faultless :=
  hinput.withValues (Stream.faultless_append_firstException? h hinput.values)

theorem faultless_numeral {text : String} (h : ∃ n, Decimal.ofText text.toList = .ok n) :
    (numeral text).Faultless := by
  obtain ⟨n, hn⟩ := h
  unfold numeral
  rw [hn]
  exact Generated.faultless_once (.number n)

theorem allows_entriesOf {values : List Value} (h : ∀ v ∈ values, v.Faultless) :
    Allows (fun entries => ∀ e ∈ entries, e.2.Faultless) (entriesOf values) := by
  fun_induction entriesOf values with
  | case1 => exact nofun
  | case2 name fields vs => exact h _ List.mem_cons_self
  | case3 v vs _ entry hentry ih =>
    obtain ⟨hv, hvs⟩ := List.forall_mem_cons.mp h
    exact (ih hvs).bind fun entries hentries =>
      List.forall_mem_cons.mpr ⟨Value.faultless_of_asEntry? hv hentry, hentries⟩
  | case4 => exact Exception.faultless_wrongType

theorem faultless_name {runtime : Runtime} (hbuiltins : runtime.builtins.Faultless)
    (label : String) :
    Evaluator.Faultless (name runtime label) := by
  intro input hinput
  unfold name
  split
  · next values hvalues =>
      exact faultless_replay (hinput.namespaces.locals label values hvalues) hinput
  · split
    · next function hlookup => exact faultless_bridge (hbuiltins _ _ _ hlookup [] rfl nofun) hinput
    · next e herror => exact faultless_raise ((Builtins.allows_lookup _ _ _).of_error herror) hinput

theorem faultless_call {runtime : Runtime} (hbuiltins : runtime.builtins.Faultless) {head : Namer}
    (hhead : head.compute.Faultless) {args : List Evaluator}
    (hargs : ∀ argument ∈ args, argument.Faultless) :
    Evaluator.Faultless (call runtime head args) := by
  intro input hinput
  rw [call, Run.result_bind]
  split
  · next e herror =>
      exact faultless_raise ((Namer.allows_resolve hhead hinput).of_error herror) hinput
  · split
    · next function hlookup =>
        exact faultless_bridge (hbuiltins _ _ _ hlookup args rfl hargs) hinput
    · next e herror => exact faultless_raise ((Builtins.allows_lookup _ _ _).of_error herror) hinput

theorem faultless_globalValues {globals : Scope} (h : globals.Faultless) (label : String) :
    ∀ v ∈ globalValues globals label, v.Faultless := by
  unfold globalValues
  cases hlabel : globals.get? label with
  | some values => exact h label values hlabel
  | none => exact List.forall_mem_singleton.mpr (Exception.faultless_undefinedName label)

theorem faultless_globalVariable {label : Namer} (h : label.compute.Faultless) :
    Evaluator.Faultless (globalVariable label) := by
  intro input hinput
  have hvalues := faultless_globalValues hinput.namespaces.globals
  unfold globalVariable
  split
  · next name _ => exact faultless_replay (hvalues name) hinput
  · rw [Run.result_bind]
    split
    · next e herror =>
        exact faultless_raise ((Namer.allows_resolve h hinput).of_error herror) hinput
    · next name _ => exact hinput.withValues (hvalues name)

theorem faultless_withBinding {input : Stream} (hinput : input.Faultless) {namespaces : Namespaces}
    (h : namespaces.Faultless) : (withBinding input namespaces).Faultless :=
  ⟨Stream.faultless_throughException hinput.values, h⟩

theorem faultless_bind {target : Target}
    (h : ∀ label, target = .global label → label.compute.Faultless) {values : List Value}
    (hvalues : ∀ v ∈ values, v.Faultless) : Evaluator.Faultless (bind target values) := by
  intro input hinput
  obtain ⟨hglobals, hlocals⟩ := hinput.namespaces
  cases target with
  | «local» label => exact faultless_withBinding hinput ⟨hglobals, hlocals.bind label hvalues⟩
  | global label =>
    have hnone : Stream.Faultless { input with values := [] } := hinput.withValues nofun
    have hresolve := Namer.allows_resolve (h label rfl) hnone
    rw [bind, Run.result_bind]
    split
    · next e herror => exact faultless_raise (hresolve.of_error herror) hinput
    · next name _ => exact faultless_withBinding hinput ⟨hglobals.bind name hvalues, hlocals⟩
  | unassignable kind source =>
    exact faultless_raise (Exception.faultless_assignment kind source) hinput

theorem faultless_assign {target : Target} {right : Evaluator}
    (h : ∀ label, target = .global label → label.compute.Faultless) (hright : right.Faultless) :
    Evaluator.Faultless (assign target right) := by
  intro input hinput
  have hstored := (hright hinput).values
  rw [assign, Run.result_bind]
  split
  · next e he =>
      exact hinput.withValues
        (List.forall_mem_singleton.mpr (Stream.faultless_firstException? hstored e he))
  · exact faultless_bind h hstored hinput

theorem faultless_semicolon {left right : Evaluator} (hleft : left.Faultless)
    (hright : right.Faultless) :
    Evaluator.Faultless (semicolon left right) := by
  intro input hinput
  have hbefore := hleft hinput
  rw [semicolon, Run.result_bind]
  split
  · next e he =>
    exact hbefore.withValues
      (List.forall_mem_singleton.mpr (Stream.faultless_firstException? hbefore.values e he))
  · exact hright ⟨hinput.values, hbefore.namespaces.globals, hbefore.namespaces.locals⟩

end Node

end QueryShell
