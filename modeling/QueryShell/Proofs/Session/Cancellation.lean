import QueryShell.Proofs.Session.History

/-! Turns that are cancelled, and what is seen of a history of turns and of requests to cancel if
every array in the scopes is read whole. -/

namespace QueryShell.Session

/-- The token under which a turn is run fires on the way. -/
def fires (session : Session) (turn : Turn) : Bool :=
  isCancelled turn (turn.filter.eval session.runtime ⟨turn.input, session.namespaces⟩).calls

/-- Ways for a turn to end. Once the token has fired every read can fail, in whatever stage of the
filter, so there is no telling which values and namespaces come through. -/
inductive Ends (session : Session) (turn : Turn) : Outcome → Prop where
  | finished (h : session.fires turn = false) : Ends session turn
      ⟨(turn.filter.eval session.runtime ⟨turn.input, session.namespaces⟩).result, false⟩
  | cutOff (h : session.fires turn = true) (output : Stream) : Ends session turn ⟨output, true⟩

/-- What can be seen of a turn: the scopes before it, whether its token has fired, its answer and
whether that has an exception in it, and the scopes after it. -/
structure Report where
  turn : Turn
  before : Namespaces
  fired : Bool
  answer : Except Error Stream
  raised : Bool
  after : Namespaces

def reportOf (session : Session) (turn : Turn) (outcome : Outcome) : Report where
  turn := turn
  before := session.namespaces
  fired := outcome.fired
  answer := (session.settle outcome).1
  raised := (session.settle outcome).1.toOption.any fun output => Stream.raises output.values
  after := (session.settle outcome).2.namespaces

def report (session : Session) (turn : Turn) : Report :=
  let run := turn.filter.eval session.runtime ⟨turn.input, session.namespaces⟩
  session.reportOf turn ⟨run.result, isCancelled turn run.calls⟩

def reports (session : Session) : List Event → List Report
  | [] => []
  | .turn turn :: events => session.report turn :: (session.run turn).2.reports events
  | .cancel :: events => session.cancel.reports events

/-- The history that is left of what was seen without the turns whose token has fired. -/
def remaining (reports : List Report) : List Event :=
  (reports.filter fun report => !report.fired).map fun report => .turn report.turn

/-- What a turn binds before the call at which it is cancelled does not last. -/
example :
    let first : Turn := ⟨.assign (.name "x") (.string "a"), [], none⟩
    let cut : Turn :=
      ⟨.semicolon (.assign (.name "x") (.string "b")) (.command (.name "true")), [], some 0⟩
    let session := ((start ⟨.standard, .system, .standard⟩).run first).2
    session.fires cut = true ∧
      (session.run cut).2.namespaces.locals.get? "x" = some [.string "a"] := by cbv

end QueryShell.Session
