import QueryShell.Eval.Runtime
import QueryShell.Filter.Basic

/-! What each form of filter does, given evaluators for its parts. -/

namespace QueryShell

/-- A filter that should name something: a literal name, or a filter whose output is the name. -/
structure Namer where
  literal? : Option String
  compute : Evaluator

namespace Namer

def sensible : List Value → Except Exception String
  | [] => .error (.noSensibleString "filter produced no value")
  | .exception name fields :: _ => .error ⟨name, fields⟩
  | [.string text] => .ok text
  | .string _ :: _ :: _ => .error (.noSensibleString "filter produced more than one value")
  | v :: _ => .error (.noSensibleString ("expected a string, got " ++ v.kind.name))

def resolve (namer : Namer) (input : Stream) : Run (Except Exception String) :=
  match namer.literal? with
  | some name => return .ok name
  | none => do return sensible (← namer.compute input).values

end Namer

namespace Node

def raise (e : Exception) : Evaluator := fun input => return { input with values := [e.toValue] }

def identity : Evaluator := fun input =>
  return { input with values := Stream.throughException input.values }

/-- Values in place of the input's, with the input's first exception behind them. -/
def replay (values : List Value) (input : Stream) : Stream :=
  { input with values := values ++ (Stream.firstException? input.values).toList }

def constant (generated : Generated) : Evaluator := bridge fun _ => return generated

/-- A numeral that cannot be read is a fault of the filter. -/
def numeral (text : String) : Generated :=
  match Decimal.ofText text.toList with
  | .ok n => .once (.number n)
  | .error e => .faulty (.internal ("invalid number literal " ++ text ++ ": " ++ e.message))

def parens (body : Evaluator) : Evaluator := bridge fun inner => do
  return .ofValues (← body inner).values

def arrayOf (body : Evaluator) : Evaluator := bridge fun inner => do
  return .once (.array (← body inner).values)

/-- The entries that pairs make, or the first exception in their place. -/
def entriesOf : List Value → Except Exception (List (String × Value))
  | [] => .ok []
  | .exception name fields :: _ => .error ⟨name, fields⟩
  | v :: vs =>
    match v.asEntry? with
    | some entry => do return entry :: (← entriesOf vs)
    | none => .error .wrongType

/-- The object that pairs make, or what is raised instead. -/
def objectFrom (values : List Value) : Value :=
  match entriesOf values with
  | .ok entries => .object entries
  | .error e => e.toValue

def objectOf (body : Evaluator) : Evaluator := bridge fun inner => do
  match entriesOf (← body inner).values with
  | .ok entries => return .once (.object entries)
  | .error e => return .raised e

/-- The right side takes what the left side yields, and the scopes that it leaves. -/
def pipe (left right : Evaluator) : Evaluator := bridge fun inner => do
  return .ofValues (← right (← left inner)).values

def comma (left right : Evaluator) : Evaluator := bridge fun inner => do
  let first ← left inner
  let second ← right inner
  return .ofValues (first.values ++ second.values)

/-- An exception of the left side comes before one of the right side. -/
def binary (op : Operator) (left right : Evaluator) : Evaluator := bridge fun inner => do
  let first ← left inner
  let second ← right inner
  match Stream.firstException? (first.values ++ second.values) with
  | some e => return .once e
  | none => return .ofValues (op.pairwise first.values second.values)

def answer (runtime : Runtime) (program : String) (values : List Value) : Run Generated := do
  match Command.encodeInput runtime.config.command values with
  | .error e => return .raised e
  | .ok bytes =>
    match ← runtime.call program bytes with
    | .error failure => return .raised (failure.exception program)
    | .ok output =>
      match Command.decodeOutput runtime.config.command output with
      | .error e => return .raised e
      | .ok values => return .ofValues values

def command (runtime : Runtime) (program : Namer) : Evaluator := bridge fun inner => do
  match ← program.resolve inner with
  | .error e => return .raised e
  | .ok name => answer runtime name inner.values

/-- A local variable hides a function of the same name. -/
def name (runtime : Runtime) (label : String) : Evaluator := fun input =>
  match input.namespaces.locals.get? label with
  | some values => return replay values input
  | none =>
    match runtime.builtins.lookup label 0 with
    | .ok function => bridge (function []) input
    | .error e => raise e input

def call (runtime : Runtime) (head : Namer) (args : List Evaluator) : Evaluator := fun input => do
  match ← head.resolve input with
  | .error e => raise e input
  | .ok label =>
    match runtime.builtins.lookup label args.length with
    | .ok function => bridge (function args) input
    | .error e => raise e input

def globalValues (globals : Scope) (label : String) : List Value :=
  (globals.get? label).getD [(Exception.undefinedName label).toValue]

/-- A computed name uses up the input with its exception. -/
def globalVariable (label : Namer) : Evaluator := fun input =>
  match label.literal? with
  | some name => return replay (globalValues input.namespaces.globals name) input
  | none => do
    match ← label.resolve input with
    | .error e => raise e input
    | .ok name => return { input with values := globalValues input.namespaces.globals name }

inductive Target where
  | local (label : String)
  | global (label : Namer)
  | unassignable (kind source : String)

def withBinding (input : Stream) (namespaces : Namespaces) : Stream :=
  ⟨Stream.throughException input.values, namespaces⟩

def bind (target : Target) (values : List Value) : Evaluator := fun input =>
  match target with
  | .local label =>
    return withBinding input
      { input.namespaces with locals := input.namespaces.locals.bind label values }
  | .global label => do
    match ← label.resolve { input with values := [] } with
    | .error e => raise e input
    | .ok name =>
      return withBinding input
        { input.namespaces with globals := input.namespaces.globals.bind name values }
  | .unassignable kind source => raise (.assignment kind source) input

/-- An exception on the right is raised whatever the target is. -/
def assign (target : Target) (right : Evaluator) : Evaluator := fun input => do
  let stored ← right input
  match Stream.firstException? stored.values with
  | some e => return { input with values := [e] }
  | none => bind target stored.values input

/-- The right side gets the whole input, the scopes that the left side leaves, and the format
strings and the context of the input. An exception on the left is all that is left of both sides. -/
def semicolon (left right : Evaluator) : Evaluator := fun input => do
  let before ← left input
  match Stream.firstException? before.values with
  | some e => return { before with values := [e] }
  | none =>
    right ⟨input.values,
      { input.namespaces with
        globals := before.namespaces.globals, locals := before.namespaces.locals }⟩

end Node
end QueryShell
