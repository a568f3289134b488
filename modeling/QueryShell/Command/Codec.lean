import QueryShell.Config.Basic
import QueryShell.Text.Utf8
import QueryShell.Value.Exception
import QueryShell.Value.Json

/-! How values reach an external program and come back: one line of JSON for each value, and an
end-of-transmission byte behind them if the settings ask for it. -/

namespace QueryShell.Command

def endOfTransmission : UInt8 := 0x04

def encodeLines : List Value → Except Error (List Char)
  | [] => .ok []
  | v :: vs => do return (← v.toJsonText) ++ '\n' :: (← encodeLines vs)

/-- A value without a JSON form leaves the program without input. -/
def encodeInput (settings : CommandSettings) (values : List Value) :
    Except Exception (List UInt8) :=
  match encodeLines values with
  | .error e => .error (.internal e.message)
  | .ok cs => .ok (Text.toUtf8 cs ++ if settings.endOfTransmission then [endOfTransmission] else [])

def stripped (settings : CommandSettings) (bytes : List UInt8) : List UInt8 :=
  if settings.stripTrailingEot && bytes.getLast? = some endOfTransmission then bytes.dropLast
  else bytes

def decodeOutput (settings : CommandSettings) (bytes : List UInt8) :
    Except Exception (List Value) :=
  match Text.ofUtf8 (stripped settings bytes) with
  | .error fault => .error (.commandOutput ("output is not UTF-8: " ++ fault.message))
  | .ok cs =>
    match Value.readStream cs with
    | .error e => .error (.commandOutput e.message)
    | .ok values => .ok values

end QueryShell.Command
