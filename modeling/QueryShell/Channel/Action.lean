import QueryShell.Channel.Foresight
import QueryShell.Eval.Node

/-! All that can be done with a network, action by action. -/

namespace QueryShell

inductive Action where
  | addToken
  | fire (token : Nat)
  | cancel (channel : Nat)
  | renew
  | openChannel (token : Option Nat)
  | openStream (stream : Stream)
  | push (channel : Nat) (v : Value)
  | emit (channel : Nat) (v : Value)
  | terminate (channel : Nat)
  | close (channel : Nat)
  | throw (channel : Nat) (e : Value)
  | pop (channel : Nat) (waits : Bool)
  | drain (channel : Nat)
  | take (channel count : Nat)
  | nextException (channel : Nat)
  | pull (source target : Nat) (closing : Bool)
  | pullThroughException (source target : Nat) (closing : Bool)
  | split (channel count : Nat)
  | assign (channel : Nat) (kind : SlotKind) (content : kind.Content)
  | fillDefaults (channel : Nat)
  | read (channel : Nat) (kind : SlotKind)
  | snapshot (channel : Nat)
  | relay (source : Nat) (kinds : List SlotKind) (targets : List Nat)
  | start (evaluate : Evaluator) (input : Nat)
  | name (namer : Namer) (input : Nat)
  | advance (worker : Nat)

inductive Answer where
  | done
  | failed (e : ChannelError)
  | waiting
  | ended
  | value (v : Value)
  | values (vs : List Value)
  | flag (b : Bool)
  | content (kind : SlotKind) (content : kind.Content)
  | namespaces (n : Namespaces)
  | name (outcome : Except Exception String)

def Answer.ofReading {α : Type} (make : α → Answer) : Reading α → Answer
  | .value v => make v
  | .ended => .ended
  | .waiting => .waiting
  | .failed e => .failed e

/-- The answer to a transfer, given the one for a transfer that went well. -/
def Halt.answer (regular : Answer) : Halt → Answer
  | .waiting => .waiting
  | .failed e => .failed e
  | _ => regular

namespace Network

/-- A change of a queue that may be refused. -/
def attempt (net : Network) (id : Nat) : Except ChannelError (Queue Value) → Answer × Network
  | .ok queue => (.done, net.setQueue id queue)
  | .error e => (.failed e, net)

def take (net : Network) (id : Nat) : Nat → List Value × Network
  | 0 => ([], net)
  | count + 1 =>
    match (net.queue id).pop (.patient (net.fuse id)) with
    | (.value v, left) =>
      let (vs, next) := take (net.setQueue id left) id count
      (v :: vs, next)
    | (_, left) => ([], net.setQueue id left)

/-- Reads through the next exception, which alone is kept. -/
def nextException (net : Network) (id : Nat) : Answer × Network :=
  let (vs, halt, left) := (net.queue id).readThrough Value.isException (net.fuse id)
  let found := if halt = .found then (vs.getLast?.map Answer.value).getD .ended else .ended
  (halt.answer found, net.setQueue id left)

/-- Reads a channel into another one or into itself. -/
def transfer (net : Network) (source target : Nat) (sought : Value → Bool) (closing : Bool) :
    Halt × Network :=
  if source = target then
    let (_, halt, turned) := (net.queue source).turnThrough sought (net.fuse source) closing
    (halt, net.setQueue source turned)
  else
    let moved := (net.queue source).pullThrough (net.queue target) sought (net.fuse source) closing
    (moved.halt, (net.setQueue source moved.source).setQueue target moved.target)

def relay (net : Network) (source : Nat) (kinds : List SlotKind) (targets : List Nat) : Network :=
  kinds.foldl (fun net kind =>
    match (net.slots source).get? kind with
    | some content => net.publish kind content targets
    | none => net) net

/-- A filter that is not a literal name cannot tell one under a token that has fired. -/
def resolve (net : Network) (namer : Namer) (input : Nat) : Except Exception String × Network :=
  match namer.literal? with
  | some name => (.ok name, net)
  | none =>
    let (vs, _, left) := (net.queue input).drain (net.fuse input)
    let outcome := if net.isFired net.runtime then .error (.internal ChannelError.cancelled.message)
      else (namer.resolve ⟨vs, (net.slots input).namespaces⟩).result
    (outcome, net.setQueue input left)

def perform (net : Network) : Action → Answer × Network
  | .addToken => (.done, net.addToken)
  | .fire token => let next := net.fire token; (.flag (next.isFired token), next)
  | .cancel id =>
    let next := ((net.channel id).token.map net.fire).getD net
    (.flag (next.isCancelled id), next)
  | .renew => let next := net.renew; (.flag (next.isFired next.runtime), next)
  | .openChannel token => (.done, net.append [.empty token])
  | .openStream stream => (.done, net.append [.ofStream stream])
  | .push id v => net.attempt id ((net.queue id).push v)
  | .emit id v => (.done, net.setQueue id ((net.queue id).emit v))
  | .terminate id => net.attempt id (net.queue id).terminate
  | .close id => (.done, net.setQueue id (net.queue id).finish)
  | .throw id e => (.done, net.update id (·.throw e))
  | .pop id waits =>
    let (reading, left) := (net.queue id).pop (if waits then .patient (net.fuse id) else .immediate)
    (.ofReading .value reading, net.setQueue id left)
  | .drain id =>
    let (vs, _, left) := (net.queue id).drain (net.fuse id)
    (.values vs, net.setQueue id left)
  | .take id count => let (vs, next) := net.take id count; (.values vs, next)
  | .nextException id => net.nextException id
  | .pull source target closing =>
    let (halt, next) := net.transfer source target (fun _ => false) closing
    (halt.answer .done, next)
  | .pullThroughException source target closing =>
    let (halt, next) := net.transfer source target Value.isException closing
    (halt.answer (.flag (halt = .found)), next)
  | .split id count => (.done, net.split id count)
  | .assign id kind content =>
    match (net.slots id).assign kind content with
    | .ok slots => (.done, net.update id fun c => { c with slots := slots })
    | .error e => (.failed e, net)
  | .fillDefaults id => (.done, net.update id fun c => { c with slots := c.slots.fillDefaults })
  | .read id kind =>
    (.ofReading (.content kind) ((net.slots id).read kind (net.isCancelled id)), net)
  | .snapshot id => (.ofReading .namespaces ((net.slots id).snapshot (net.isCancelled id)), net)
  | .relay source kinds targets => (.done, net.relay source kinds targets)
  | .start evaluate input => (.done, net.start evaluate input)
  | .name namer input =>
    let (outcome, next) := net.resolve namer input
    (.name outcome, next)
  | .advance worker => (.done, net.advance worker)

def performAll (net : Network) : List Action → Network
  | [] => net
  | action :: rest => performAll (net.perform action).2 rest

/-- Writes what the readers of an action wait for and stages can say already. -/
def prepare (net : Network) : Action → Network
  | .pop id true =>
    if (net.queue id).unread.isEmpty then net.elicit (·.take 1) net.channels.length id else net
  | .take id count =>
    net.elicit (·.take (count - (net.queue id).values.length)) net.channels.length id
  | .nextException id => untilException net id
  | .pullThroughException source _ _ => untilException net source
  | .read id kind => net.elicitSlot kind net.channels.length id
  | .snapshot id =>
    SlotKind.all.foldl (fun net kind => net.elicitSlot kind net.channels.length id) net
  | .relay id kinds _ =>
    kinds.foldl (fun net kind => net.elicitSlot kind net.channels.length id) net
  | _ => net
where
  untilException (net : Network) (id : Nat) : Network :=
    net.elicit (fun vs => if Stream.raises ((net.queue id).values) || !Stream.raises vs then []
      else Stream.throughException vs) net.channels.length id

def request (net : Network) (action : Action) : Answer × Network :=
  let (answer, next) := (net.prepare action).perform action
  (answer, next.settle)

end Network
end QueryShell
