import Mathlib.Data.Set.Defs
import QueryShell.Proofs.Eval.Form
import QueryShell.Proofs.Stream.Scope

/-! Two runs over the same values, in namespaces with the same global variables and the same local
variables of some names. No form of filter and no function tells them apart, as long as its parts do
not. -/

namespace QueryShell

/-- All global variables are the same, and the local variables of these names. -/
structure Namespaces.Agree (names : Set String) (first second : Namespaces) : Prop where
  globals : first.globals = second.globals
  locals : ∀ name ∈ names, first.locals.get? name = second.locals.get? name

/-- The same values in namespaces that agree. -/
structure Stream.Agree (names : Set String) (first second : Stream) : Prop where
  values : first.values = second.values
  namespaces : first.namespaces.Agree names second.namespaces

/-- Where the inputs agree so do the outputs, and the calls on the way are the same. -/
def Evaluator.Confined (names : Set String) (evaluator : Evaluator) : Prop :=
  ∀ ⦃first second : Stream⦄, first.Agree names second →
    Run.Related (Stream.Agree names) (evaluator first) (evaluator second)

/-- Where the inputs agree, the same is made of both. -/
def ReadsOnly {α : Type} (names : Set String) (make : Stream → Run α) : Prop :=
  ∀ ⦃first second : Stream⦄, first.Agree names second → make first = make second

variable {names : Set String}

namespace Namespaces.Agree

variable {first second : Namespaces}

theorem bind_local (h : first.Agree names second) (name : String) (values : List Value) :
    Agree names { first with locals := first.locals.bind name values }
      { second with locals := second.locals.bind name values } where
  globals := h.globals
  locals other hother := by
    rw [Scope.get?_bind, Scope.get?_bind, h.locals other hother]

theorem bind_global (h : first.Agree names second) (name : String) (values : List Value) :
    Agree names { first with globals := first.globals.bind name values }
      { second with globals := second.globals.bind name values } where
  globals := congrArg (fun scope : Scope => scope.bind name values) h.globals
  locals := h.locals

end Namespaces.Agree

namespace Stream.Agree

variable {first second : Stream}

theorem withValues (h : first.Agree names second) (values : List Value) :
    Agree names { first with values := values } { second with values := values } :=
  ⟨rfl, h.namespaces⟩

end Stream.Agree

theorem confined_bridge {make : Stream → Run Generated} (h : ReadsOnly names make) :
    Evaluator.Confined names (bridge make) := by
  intro first second hagree
  unfold bridge
  rw [← hagree.values, h (hagree.withValues (Stream.plain first.values))]
  exact ⟨hagree.withValues _, rfl⟩

theorem Namer.readsOnly_resolve {namer : Namer} (h : namer.compute.Confined names) :
    ReadsOnly names namer.resolve := by
  intro first second hagree
  unfold resolve
  cases namer.literal? with
  | some name => rfl
  | none => exact (h hagree).bind_eq fun a b hab => by rw [hab.values]

namespace Builtin

variable {args : List Evaluator}

theorem readsOnly_constant (generated : Generated) (args : List Evaluator) :
    ReadsOnly names (constant generated args) := fun _ _ _ => rfl

theorem withArgument_congr {use use' : Evaluator → Run Generated}
    (h : ∀ argument ∈ args, use argument = use' argument) (index : Nat) :
    withArgument index args use = withArgument index args use' := by
  unfold withArgument
  cases hindex : args[index]? with
  | none => rfl
  | some argument => exact h argument (List.mem_of_getElem? hindex)

theorem eachValue_congr {body : Evaluator} (hbody : body.Confined names)
    {first second : Namespaces} (h : first.Agree names second) (values : List Value) :
    eachValue body first values = eachValue body second values := by
  induction values with
  | nil => rfl
  | cons v vs ih =>
    -- Each value is run by itself, in the namespaces of the whole input.
    have hagree : Stream.Agree names ⟨[v], first⟩ ⟨[v], second⟩ := ⟨rfl, h⟩
    unfold eachValue
    refine (hbody hagree).bind_eq fun output output' houtput => ?_
    rw [houtput.values, ih]

theorem readsOnly_each (h : ∀ argument ∈ args, argument.Confined names) :
    ReadsOnly names (each args) := by
  intro first second hagree
  refine withArgument_congr (fun body hbody => ?_) 0
  rw [hagree.values, eachValue_congr (h body hbody) hagree.namespaces]

theorem readsOnly_nth (h : ∀ argument ∈ args, argument.Confined names) :
    ReadsOnly names (nth args) := by
  intro first second hagree
  refine withArgument_congr (fun position hposition => ?_) 0
  refine (h position hposition hagree).bind_eq fun output output' houtput => ?_
  rw [hagree.values, houtput.values]

theorem readsOnly_range (args : List Evaluator) : ReadsOnly names (range args) := by
  intro first second hagree
  unfold range
  rw [hagree.values]

theorem readsOnly_implode (args : List Evaluator) : ReadsOnly names (implode args) := by
  intro first second hagree
  unfold implode
  rw [hagree.values]

theorem confined_iterated {body : Evaluator} (hbody : body.Confined names) (values : List Value) :
    Evaluator.Confined names (iterated body values) := by
  induction values with
  | nil => exact fun _ _ hagree => .pure hagree
  | cons v vs ih => exact fun _ _ hagree => (hbody hagree).bind fun _ _ hnext => ih hnext

theorem readsOnly_reduce (h : ∀ argument ∈ args, argument.Confined names) :
    ReadsOnly names (reduce args) := by
  intro first second hagree
  refine withArgument_congr (fun init hinit => ?_) 0
  refine (h init hinit hagree).bind_eq fun state state' hstate => ?_
  rw [hagree.values, hstate.values]
  -- The body is looked for only if there is a value to run it for.
  refine if_congr Iff.rfl rfl (withArgument_congr (fun body hbody => ?_) 1)
  refine (confined_iterated (h body hbody) second.values hstate).bind_eq fun last last' hlast => ?_
  rw [hlast.values]

theorem readsOnly_steps {body : Evaluator} (hbody : body.Confined names) (values : List Value) :
    ReadsOnly names (steps body values) := by
  induction values with
  | nil => exact fun _ _ _ => rfl
  | cons v vs ih =>
    intro first second hagree
    unfold steps
    refine (hbody hagree).bind_eq fun next next' hnext => ?_
    rw [hnext.values, ih hnext]

theorem readsOnly_forEach (h : ∀ argument ∈ args, argument.Confined names) :
    ReadsOnly names (forEach args) := by
  intro first second hagree
  refine withArgument_congr (fun body hbody => withArgument_congr (fun init hinit => ?_) 0) 1
  refine (h init hinit hagree).bind_eq fun state state' hstate => ?_
  rw [hagree.values, readsOnly_steps (h body hbody) second.values hstate]

end Builtin

namespace Builtins

/-- No function gets to know more than its arguments do. -/
def Confined (names : Set String) (table : Builtins) : Prop :=
  ∀ name arity function, table.lookup name arity = .ok function →
    ∀ args : List Evaluator, (∀ argument ∈ args, argument.Confined names) →
      ReadsOnly names (function args)

theorem mem_of_lookup {table : Builtins} {name : String} {arity : Nat} {function : Builtin}
    (h : table.lookup name arity = .ok function) :
    ∃ functions, (name, functions) ∈ table ∧ (arity, function) ∈ functions := by
  unfold lookup at h
  cases hname : Dictionary.find? name table with
  | none => simp [hname] at h
  | some functions =>
    cases harity : Dictionary.find? arity functions with
    | none => simp [hname, harity] at h
    | some found =>
      obtain rfl : found = function := by simpa [hname, harity] using h
      exact ⟨functions, Dictionary.mem_of_find? hname, Dictionary.mem_of_find? harity⟩

theorem confined_standard (names : Set String) : standard.Confined names := by
  intro name arity function hlookup args hargs
  obtain ⟨functions, hname, harity⟩ := mem_of_lookup hlookup
  simp only [standard, List.mem_cons, Prod.mk.injEq, List.not_mem_nil, or_false] at hname
  rcases hname with ⟨_, rfl⟩ | ⟨_, rfl⟩ | ⟨_, rfl⟩ | ⟨_, rfl⟩ | ⟨_, rfl⟩ | ⟨_, rfl⟩ | ⟨_, rfl⟩ |
    ⟨_, rfl⟩ | ⟨_, rfl⟩ | ⟨_, rfl⟩ <;>
    obtain ⟨_, rfl⟩ := Prod.mk.inj (List.mem_singleton.mp harity)
  · exact Builtin.readsOnly_each hargs
  · exact Builtin.readsOnly_constant _ args
  · exact Builtin.readsOnly_constant _ args
  · exact Builtin.readsOnly_forEach hargs
  · exact Builtin.readsOnly_implode args
  · exact Builtin.readsOnly_nth hargs
  · exact Builtin.readsOnly_constant _ args
  · exact Builtin.readsOnly_range args
  · exact Builtin.readsOnly_reduce hargs
  · exact Builtin.readsOnly_constant _ args

end Builtins

namespace Node

theorem confined_raise (e : Exception) : Evaluator.Confined names (raise e) :=
  fun _ _ hagree => .pure (hagree.withValues [e.toValue])

theorem confined_identity : Evaluator.Confined names identity := by
  intro first second hagree
  unfold identity
  rw [← hagree.values]
  exact .pure (hagree.withValues _)

theorem agree_replay (values : List Value) {first second : Stream} (h : first.Agree names second) :
    Stream.Agree names (replay values first) (replay values second) := by
  unfold replay
  rw [← h.values]
  exact h.withValues _

theorem confined_constant (generated : Generated) : Evaluator.Confined names (constant generated) :=
  confined_bridge fun _ _ _ => rfl

theorem confined_parens {body : Evaluator} (h : body.Confined names) :
    Evaluator.Confined names (parens body) :=
  confined_bridge fun _ _ hagree => (h hagree).bind_eq fun _ _ houtput => by rw [houtput.values]

theorem confined_arrayOf {body : Evaluator} (h : body.Confined names) :
    Evaluator.Confined names (arrayOf body) :=
  confined_bridge fun _ _ hagree => (h hagree).bind_eq fun _ _ houtput => by rw [houtput.values]

theorem confined_objectOf {body : Evaluator} (h : body.Confined names) :
    Evaluator.Confined names (objectOf body) :=
  confined_bridge fun _ _ hagree => (h hagree).bind_eq fun _ _ houtput => by rw [houtput.values]

theorem confined_pipe {left right : Evaluator} (hleft : left.Confined names)
    (hright : right.Confined names) : Evaluator.Confined names (pipe left right) := by
  refine confined_bridge fun first second hagree => ?_
  refine (hleft hagree).bind_eq fun between between' hbetween => ?_
  exact (hright hbetween).bind_eq fun _ _ houtput => by rw [houtput.values]

theorem confined_comma {left right : Evaluator} (hleft : left.Confined names)
    (hright : right.Confined names) : Evaluator.Confined names (comma left right) := by
  refine confined_bridge fun first second hagree => ?_
  refine (hleft hagree).bind_eq fun output output' houtput => ?_
  exact (hright hagree).bind_eq fun _ _ hother => by rw [houtput.values, hother.values]

theorem confined_binary (op : Operator) {left right : Evaluator} (hleft : left.Confined names)
    (hright : right.Confined names) : Evaluator.Confined names (binary op left right) := by
  refine confined_bridge fun first second hagree => ?_
  refine (hleft hagree).bind_eq fun output output' houtput => ?_
  exact (hright hagree).bind_eq fun _ _ hother => by rw [houtput.values, hother.values]

theorem confined_command (runtime : Runtime) {program : Namer}
    (h : program.compute.Confined names) : Evaluator.Confined names (command runtime program) := by
  refine confined_bridge fun first second hagree => ?_
  rw [hagree.values, Namer.readsOnly_resolve h hagree]

theorem confined_name {runtime : Runtime} (hbuiltins : runtime.builtins.Confined names)
    {label : String} (h : label ∈ names) : Evaluator.Confined names (name runtime label) := by
  intro first second hagree
  unfold name
  rw [← hagree.namespaces.locals label h]
  cases first.namespaces.locals.get? label with
  | some values => exact .pure (agree_replay values hagree)
  | none =>
    cases hlookup : runtime.builtins.lookup label 0 with
    | ok function => exact confined_bridge (hbuiltins _ _ _ hlookup [] nofun) hagree
    | error e => exact confined_raise e hagree

theorem confined_call {runtime : Runtime} (hbuiltins : runtime.builtins.Confined names)
    {head : Namer} (hhead : head.compute.Confined names) {args : List Evaluator}
    (hargs : ∀ argument ∈ args, argument.Confined names) :
    Evaluator.Confined names (call runtime head args) := by
  intro first second hagree
  unfold call
  rw [Namer.readsOnly_resolve hhead hagree]
  refine .bind_same _ fun resolved => ?_
  cases resolved with
  | error e => exact confined_raise e hagree
  | ok label =>
    dsimp only
    cases hlookup : runtime.builtins.lookup label args.length with
    | ok function => exact confined_bridge (hbuiltins _ _ _ hlookup args hargs) hagree
    | error e => exact confined_raise e hagree

theorem confined_globalVariable {label : Namer} (h : label.compute.Confined names) :
    Evaluator.Confined names (globalVariable label) := by
  intro first second hagree
  unfold globalVariable
  rw [Namer.readsOnly_resolve h hagree, hagree.namespaces.globals]
  cases label.literal? with
  | some name => exact .pure (agree_replay _ hagree)
  | none =>
    refine .bind_same _ fun resolved => ?_
    cases resolved with
    | error e => exact confined_raise e hagree
    | ok name => exact .pure (hagree.withValues _)

theorem agree_withBinding {first second : Stream} {before after : Namespaces}
    (h : first.Agree names second) (hbound : before.Agree names after) :
    Stream.Agree names (withBinding first before) (withBinding second after) := by
  unfold withBinding
  rw [h.values]
  exact ⟨rfl, hbound⟩

theorem confined_bind {target : Target}
    (h : ∀ label, target = .global label → label.compute.Confined names) (values : List Value) :
    Evaluator.Confined names (bind target values) := by
  intro first second hagree
  cases target with
  | «local» label =>
    exact .pure (agree_withBinding hagree (hagree.namespaces.bind_local label values))
  | global label =>
    -- The label is resolved over no values, in the namespaces of the input.
    unfold bind
    dsimp only
    rw [Namer.readsOnly_resolve (h label rfl) (hagree.withValues [])]
    refine .bind_same _ fun resolved => ?_
    cases resolved with
    | error e => exact confined_raise e hagree
    | ok name => exact .pure (agree_withBinding hagree (hagree.namespaces.bind_global name values))
  | unassignable kind source => exact confined_raise _ hagree

theorem confined_assign {target : Target} {right : Evaluator}
    (h : ∀ label, target = .global label → label.compute.Confined names)
    (hright : right.Confined names) : Evaluator.Confined names (assign target right) := by
  intro first second hagree
  refine (hright hagree).bind fun stored stored' hstored => ?_
  rw [← hstored.values]
  cases Stream.firstException? stored.values with
  | some e => exact .pure (hagree.withValues [e])
  | none => exact confined_bind h stored.values hagree

/-- The format strings and the context of the input go on to the right side unread. -/
theorem confined_semicolon {left right : Evaluator} (hleft : left.Confined names)
    (hright : right.Confined names) : Evaluator.Confined names (semicolon left right) := by
  intro first second hagree
  refine (hleft hagree).bind fun before before' hbefore => ?_
  rw [← hbefore.values]
  cases Stream.firstException? before.values with
  | some e => exact .pure (hbefore.withValues [e])
  | none => exact hright ⟨hagree.values, hbefore.namespaces.globals, hbefore.namespaces.locals⟩

end Node

end QueryShell
