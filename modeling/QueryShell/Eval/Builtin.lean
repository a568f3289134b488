import QueryShell.Eval.Generator
import QueryShell.Value.Operator

/-! The functions that filters can call. Each gets evaluators for its arguments and the values
before the first exception. -/

namespace QueryShell

abbrev Builtin := List Evaluator → Stream → Run Generated

namespace Builtin

def missingArgument (count index : Nat) : Generated :=
  .broken ("index out of bounds: the len is " ++ toString count ++ " but the index is " ++
    toString index)

def withArgument (index : Nat) (args : List Evaluator) (use : Evaluator → Run Generated) :
    Run Generated :=
  match args[index]? with
  | some argument => use argument
  | none => return missingArgument args.length index

def constant (generated : Generated) : Builtin := fun _ _ => return generated

def integerOf : Value → Except Exception Decimal
  | .number n => if n.isInteger then .ok n else .error .notInteger
  | _ => .error .wrongType

/-- The body's values for each value by itself, up to the first exception. -/
def eachValue (body : Evaluator) (namespaces : Namespaces) : List Value → Run (List Value)
  | [] => return []
  | v :: vs => do
    let output ← body ⟨[v], namespaces⟩
    if Stream.raises output.values then return output.values
    return output.values ++ (← eachValue body namespaces vs)

def each : Builtin := fun args input => withArgument 0 args fun body => do
  return .ofValues (← eachValue body input.namespaces input.values)

def selected (values : List Value) : List Value → Except Exception Value
  | [] => .error .noPosition
  | .exception name fields :: _ => .error ⟨name, fields⟩
  | position :: _ => do
    let n ← integerOf position
    match (n.toNat? (Value.countBound - 1)).bind (values[·]?) with
    | some v => .ok v
    | none => .error .noSuchPosition

def nth : Builtin := fun args input => withArgument 0 args fun position => do
  match selected input.values (← position input).values with
  | .ok v => return .once v
  | .error e => return .raised e

def upTo (bound : Decimal) : List Value :=
  if 0 < bound.digits then (List.range bound.truncated.toNat).map fun n => .number (.ofNat n)
  else []

def counted : List Value → List Value
  | [] => []
  | v :: vs =>
    match integerOf v with
    | .ok bound => upTo bound ++ counted vs
    | .error e => [e.toValue]

def range : Builtin := fun _ input => return .ofValues (counted input.values)

def characterOf (v : Value) : Except Exception Char := do
  let n ← integerOf v
  match n.toNat? 0x10ffff with
  | some code => if h : code.isValidChar then .ok (Char.ofNatAux code h) else .error .notUnicode
  | none => .error .notUnicode

def characters : List Value → Except Exception (List Char)
  | [] => .ok []
  | v :: vs => do return (← characterOf v) :: (← characters vs)

def implode : Builtin := fun _ input =>
  match characters input.values with
  | .ok cs => return .once (.string (String.ofList cs))
  | .error e => return .raised e

/-- The stream that the body makes of a stream, as often as there are values. -/
def iterated (body : Evaluator) : List Value → Evaluator
  | [], state => return state
  | _ :: vs, state => do iterated body vs (← body state)

def reduce : Builtin := fun args input => withArgument 0 args fun init => do
  let state ← init input
  if input.values.isEmpty then return .ofValues state.values
  withArgument 1 args fun body => do return .ofValues (← iterated body input.values state).values

/-- The values of every stream on the way, up to the first exception. -/
def steps (body : Evaluator) : List Value → Stream → Run (List Value)
  | [], _ => return []
  | _ :: vs, state => do
    let next ← body state
    if Stream.raises next.values then return next.values
    return next.values ++ (← steps body vs next)

def forEach : Builtin :=
  fun args input => withArgument 1 args fun body => withArgument 0 args fun init => do
  let state ← init input
  return .ofValues (← steps body input.values state)

end Builtin

/-- Functions by name and number of arguments. -/
abbrev Builtins := List (String × List (Nat × Builtin))

namespace Builtins

def register (table : Builtins) (name : String) (arity : Nat) (function : Builtin) : Builtins :=
  Dictionary.insert name (Dictionary.insert arity function ((Dictionary.find? name table).getD []))
    table

def lookup (table : Builtins) (name : String) (arity : Nat) : Except Exception Builtin :=
  match Dictionary.find? name table with
  | none => .error (.undefinedName name)
  | some functions =>
    match Dictionary.find? arity functions with
    | some function => .ok function
    | none => .error (.argumentCount (Dictionary.keys functions) arity)

def contains (table : Builtins) (name : String) : Bool := Dictionary.contains name table

def names (table : Builtins) : List String := Dictionary.keys table

def size (table : Builtins) : Nat := table.foldl (fun n (_, functions) => n + functions.length) 0

def describe (table : Builtins) : String := Text.escapeSet table.names

def empty : Builtins := []

def standard : Builtins :=
  [("each", [(1, Builtin.each)]), ("empty", [(0, Builtin.constant .nothing)]),
    ("false", [(0, Builtin.constant (.once (.boolean false)))]), ("for", [(2, Builtin.forEach)]),
    ("implode", [(0, Builtin.implode)]), ("nth", [(1, Builtin.nth)]),
    ("null", [(0, Builtin.constant (.once .null))]), ("range", [(0, Builtin.range)]),
    ("reduce", [(2, Builtin.reduce)]), ("true", [(0, Builtin.constant (.once (.boolean true)))])]

end Builtins
end QueryShell
