import QueryShell.Channel.Worker

/-! A reader that waits for a stage gets what the stage says on what it has received. A channel is
newer than the one that its values come from, so as many steps as there are channels lead to the
first one. -/

namespace QueryShell

def Worker.writesTo (id : Nat) : Worker → Bool
  | .forward _ targets => targets.contains id
  | .relay .. => false
  | .stage s => s.output = id

def Worker.relaysTo (id : Nat) (kind : SlotKind) : Worker → Bool
  | .forward .. => false
  | .relay k _ targets => k = kind && targets.contains id
  | .stage s => s.output = id

namespace Network

/-- The values of a channel beyond those written, as far as its input is known. -/
def foreseen (net : Network) : Nat → Nat → List Value
  | 0, _ => []
  | limit + 1, id =>
    match net.workers.find? (Worker.writesTo id) with
    | some (.stage stage) =>
      let more := (net.queue stage.input).values ++ foreseen net limit stage.input
      (net.output stage more).values.drop stage.delivered
    | some (.forward source _) => foreseen net limit source
    | _ => []

/-- Writes foreseen values to a channel, those that `wanted` takes of them. -/
def elicit (wanted : List Value → List Value) : Nat → Nat → Network → Network
  | 0, _, net => net
  | limit + 1, id, net =>
    match net.workers.find? (Worker.writesTo id) with
    | some (.stage stage) =>
      let vs := wanted (foreseen net (limit + 1) id)
      let workers := net.workers.map fun worker =>
        match worker with
        | .stage s =>
          if s.output = id then .stage { s with delivered := s.delivered + vs.length } else worker
        | _ => worker
      { net.update stage.output (fun c => c.setQueue (vs.foldl Queue.emit c.queue)) with
        workers := workers }
    | some (.forward source _) => settle (elicit wanted limit source net)
    | _ => net

/-- Sets a slot that a stage sets, as far as its input is known. -/
def elicitSlot (kind : SlotKind) : Nat → Nat → Network → Network
  | 0, _, net => net
  | limit + 1, id, net =>
    match net.workers.find? (Worker.relaysTo id kind) with
    | some (.stage stage) =>
      let before := elicitSlot kind limit stage.input net
      let more := (before.queue stage.input).values ++ foreseen before limit stage.input
      before.publish kind ((before.output stage more).namespaces.get kind) [id]
    | some (.relay _ source _) => settle (elicitSlot kind limit source net)
    | _ => net

end Network
end QueryShell
