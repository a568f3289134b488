import QueryShell.Eval.Basic

/-! Sessions: filters run one after the other, each in the scopes that the one before it left. A
turn that is cancelled leaves the scopes as they were. -/

namespace QueryShell

structure Session where
  runtime : Runtime
  namespaces : Namespaces
  /-- Whether the token of the last turn has fired. -/
  fired : Bool

/-- A filter with its input, and the program call at which the turn is cancelled, if any. -/
structure Turn where
  filter : Filter
  input : List Value
  cancelledAt : Option Nat

namespace Session

def start (runtime : Runtime) : Session := ⟨runtime, .empty, false⟩

def withContext (session : Session) (context : Context) : Session :=
  { session with namespaces := { session.namespaces with context := context } }

def cancel (session : Session) : Session := { session with fired := true }

def isCancelled (turn : Turn) (calls : List Call) : Bool :=
  match turn.cancelledAt with
  | some index => index < calls.length
  | none => false

/-- What there is of a turn when its output ends, and whether its token has fired by then. -/
structure Outcome where
  output : Stream
  fired : Bool

/-- Once the token of a turn has fired, whatever is there of its output is void. -/
def settle (session : Session) (outcome : Outcome) : Except Error Stream × Session :=
  if outcome.fired then (.error (.channel .cancelled), { session with fired := true })
  else (.ok outcome.output, ⟨session.runtime, outcome.output.namespaces, false⟩)

/-- A turn runs under a token of its own, so a request from before it does not count. The arrays in
the scopes are read whole: what a token that has fired may have left of them is said by
`Namespaces.Lapses`. -/
def run (session : Session) (turn : Turn) : Except Error Stream × Session :=
  let run := turn.filter.eval session.runtime ⟨turn.input, session.namespaces⟩
  session.settle ⟨run.result, isCancelled turn run.calls⟩

end Session
end QueryShell
