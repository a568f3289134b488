import QueryShell.Stream.Namespaces

/-! Streams of values. The first exception is the last thing that counts in a stream. -/

namespace QueryShell

structure Stream where
  values : List Value
  namespaces : Namespaces

namespace Stream

/-- The values before the first exception. -/
def plain (values : List Value) : List Value := values.takeWhile (!·.isException)

/-- The values up to the first exception and with it. -/
def throughException : List Value → List Value
  | [] => []
  | v :: vs => if v.isException then [v] else v :: throughException vs

def firstException? (values : List Value) : Option Value := values.find? Value.isException

def raises (values : List Value) : Bool := values.any Value.isException

end Stream
end QueryShell
