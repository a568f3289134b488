import QueryShell.Error
import QueryShell.Eval.Run
import QueryShell.Stream.Basic
import QueryShell.Value.Exception

/-! The bridge between a stream and what a node generates from it. The node sees the values before
the first exception; what it generates ends with the first exception, fault or breakdown, or else
with the exception that the stream held. -/

namespace QueryShell

inductive Item where
  | value (v : Value)
  | fault (e : Error)

/-- How a node stops: by itself, or broken down with or without a message. -/
inductive Ending where
  | finished
  | brokenDown (message : Option String)

structure Generated where
  items : List Item
  ending : Ending

namespace Generated

def nothing : Generated := ⟨[], .finished⟩

def ofValues (values : List Value) : Generated := ⟨values.map .value, .finished⟩

def once (v : Value) : Generated := ofValues [v]

def raised (e : Exception) : Generated := once e.toValue

def faulty (e : Error) : Generated := ⟨[.fault e], .finished⟩

def broken (message : String) : Generated := ⟨[], .brokenDown (some message)⟩

end Generated

def Ending.values : Ending → List Value
  | .finished => []
  | .brokenDown (some message) => [(Exception.internal message).toValue]
  | .brokenDown none => [(Exception.internal "panic in worker").toValue]

/-- The values that get through: all before the first exception, which a fault or a breakdown
becomes. A cancelled operation ends them without one. -/
def Generated.values (generated : Generated) : List Value := go generated.items
where
  go : List Item → List Value
    | [] => generated.ending.values
    | .value v :: rest => if v.isException then [v] else v :: go rest
    | .fault e :: _ => if e.isCancelled then [] else [(Exception.internal e.message).toValue]

/-- What is put out in all: a pending exception comes behind what was generated, unless that ended
with one of its own. -/
def Generated.followedBy (generated : Generated) (pending : Option Value) : List Value :=
  let values := generated.values
  values ++ if Stream.raises values then [] else pending.toList

abbrev Evaluator := Stream → Run Stream

/-- The node is read after the input has been moved up to its first exception. A node that stops
before it has read to the end may also be seen to have finished first, and the exception left where
it is: see `Course.bridged`. That the worker of a node cannot be started is left out. -/
def bridge (make : Stream → Run Generated) : Evaluator := fun input => do
  let generated ← make { input with values := Stream.plain input.values }
  return { input with values := generated.followedBy (Stream.firstException? input.values) }

end QueryShell
