import QueryShell.Json.Fault

/-! What can fail outside the values that filters pass on, and how each failure reads. -/

namespace QueryShell

inductive ChannelError where
  | closed
  | wouldBlock
  | cancelled
  | alreadyAssigned
  deriving DecidableEq

def ChannelError.message : ChannelError → String
  | .closed => "channel closed"
  | .wouldBlock => "channel would block"
  | .cancelled => "channel operation cancelled"
  | .alreadyAssigned => "namespace slot already assigned"

/-- A failure may be wrapped in notes on what was going on. -/
inductive Error where
  | channel (e : ChannelError)
  | config (text : String)
  | json (e : Json.SyntaxError)
  /-- A text that is not read as a configuration. What the reader finds wrong with it is left out,
  here and in the message. -/
  | toml
  | notSerializable (name : String)
  | io (text : String)
  | internal (text : String)
  | context (note : String) (source : Error)

namespace Error

def message : Error → String
  | .channel e => "Channel error: " ++ e.message
  | .config text => "Configuration error: " ++ text
  | .json e => "JSON error: " ++ e.message
  | .toml => "TOML error"
  | .notSerializable name => "Value is not serializable: " ++ name
  | .io text => "IO error: " ++ text
  | .internal text => "Internal error: " ++ text
  | .context note source => note ++ ": " ++ source.message

def isCancelled : Error → Bool
  | .channel .cancelled => true
  | .context _ source => source.isCancelled
  | _ => false

def causes : Error → List String
  | .channel e => [(channel e).message, e.message]
  | .json e => [(json e).message, e.message]
  | .io text => [(io text).message, text]
  | .context note source => (context note source).message :: source.causes
  | e => [e.message]

end Error
end QueryShell
