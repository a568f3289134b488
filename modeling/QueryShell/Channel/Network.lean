import QueryShell.Channel.Slots
import QueryShell.Eval.Generator

/-! Channels, tokens and workers between channels. Channels and tokens are known by their number. -/

namespace QueryShell

/-- A queue of values with slots beside it. Without a token a channel is never cancelled. -/
structure Channel where
  queue : Queue Value
  slots : Slots
  token : Option Nat

namespace Channel

def empty (token : Option Nat) : Channel := ⟨.empty, .empty, token⟩

def ofStream (stream : Stream) : Channel :=
  ⟨.ofValues stream.values, .ofNamespaces stream.namespaces, none⟩

def setQueue (channel : Channel) (queue : Queue Value) : Channel := { channel with queue := queue }

/-- An exception in a channel ends it, with defaults for the slots that nobody set. -/
def throw (channel : Channel) (e : Value) : Channel :=
  { channel with queue := (channel.queue.emit e).finish, slots := channel.slots.fillDefaults }

def describe (channel : Channel) : String :=
  "Channel \x7b input_closed: " ++ toString channel.queue.inputClosed ++ ", terminated: "
    ++ toString channel.queue.terminated ++ " \x7d"

end Channel

/-- A filter at work between two channels, with the values it has taken so far. -/
structure Stage where
  evaluate : Evaluator
  input : Nat
  output : Nat
  received : List Value
  /-- How many of its values are out. -/
  delivered : Nat
  /-- Whether nothing more is to be received. -/
  complete : Bool

inductive Worker where
  | forward (source : Nat) (targets : List Nat)
  | relay (kind : SlotKind) (source : Nat) (targets : List Nat)
  | stage (stage : Stage)

structure Network where
  /-- Whether each token has fired. -/
  tokens : List Bool
  /-- The token of the filters that are started from now on. -/
  runtime : Nat
  channels : List Channel
  /-- The oldest worker comes first. No worker writes to a channel that is older than the one it
  reads. -/
  workers : List Worker

namespace Network

def initial : Network := ⟨[false], 0, [], []⟩

def channel (net : Network) (id : Nat) : Channel :=
  (net.channels[id]?).getD (.ofStream ⟨[], .empty⟩)

def queue (net : Network) (id : Nat) : Queue Value := (net.channel id).queue

def slots (net : Network) (id : Nat) : Slots := (net.channel id).slots

def update (net : Network) (id : Nat) (change : Channel → Channel) : Network :=
  { net with channels := net.channels.modify id change }

def setQueue (net : Network) (id : Nat) (queue : Queue Value) : Network :=
  net.update id (·.setQueue queue)

def updateAll (net : Network) (ids : List Nat) (change : Channel → Channel) : Network :=
  ids.foldl (fun net id => net.update id change) net

def append (net : Network) (channels : List Channel) : Network :=
  { net with channels := net.channels ++ channels }

def employ (net : Network) (workers : List Worker) : Network :=
  { net with workers := net.workers ++ workers }

def isFired (net : Network) (token : Nat) : Bool := (net.tokens[token]?).getD false

def fire (net : Network) (token : Nat) : Network := { net with tokens := net.tokens.set token true }

def addToken (net : Network) : Network := { net with tokens := net.tokens ++ [false] }

/-- Filters that are started later run under a token of their own. -/
def renew (net : Network) : Network := { net.addToken with runtime := net.tokens.length }

def isCancelled (net : Network) (id : Nat) : Bool := (net.channel id).token.any net.isFired

def fuse (net : Network) (id : Nat) : Fuse := if net.isCancelled id then some 0 else none

end Network
end QueryShell
