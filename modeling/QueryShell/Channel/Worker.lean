import QueryShell.Channel.Network

/-! What the workers of a network do. A worker takes one step at a time, and waits when there is
nothing for it. That a worker cannot be started is left out, for splits and relays as for stages. -/

namespace QueryShell

def Worker.source : Worker → Nat
  | .forward source _ => source
  | .relay _ source _ => source
  | .stage s => s.input

namespace Network

/-- Gives an entry to each copy. A copy that was closed drops it. -/
def spread (net : Network) (entry : Entry Value) (targets : List Nat) : Network :=
  net.updateAll targets fun c => c.setQueue (c.queue.accept entry)

def publish (net : Network) (kind : SlotKind) (content : kind.Content) (targets : List Nat) :
    Network :=
  net.updateAll targets fun c => { c with slots := c.slots.supply kind content }

/-- All that a stage has to say, on what it has received. -/
def output (net : Network) (stage : Stage) (more : List Value) : Stream :=
  (stage.evaluate ⟨stage.received ++ more, (net.slots stage.input).namespaces⟩).result

def conclude (net : Network) (stage : Stage) : Network :=
  let out := net.output stage []
  net.update stage.output fun c =>
    { c with queue := ((out.values.drop stage.delivered).foldl Queue.emit c.queue).finish,
             slots := c.slots.supplyAll out.namespaces }

/-- A step of a worker: what comes of it, and the worker unless it is done. A worker that waits
takes none. -/
def step (net : Network) : Worker → Option (Network × Option Worker)
  | .forward source targets =>
    if net.isCancelled source then some (net.spread .terminator targets, none)
    else
      match (net.queue source).receive? with
      | none => none
      | some (.terminator, left) =>
        some ((net.setQueue source left).spread .terminator targets, none)
      | some (.value v, left) =>
        some ((net.setQueue source left).spread (.value v) targets, some (.forward source targets))
  | .relay kind source targets =>
    match (net.slots source).read kind (net.isCancelled source) with
    | .value content => some (net.publish kind content targets, none)
    | .waiting => none
    | _ => some (net, none)
  | .stage stage =>
    if stage.complete then
      if (net.slots stage.input).allSet || net.isCancelled stage.input then
        some (net.conclude stage, none) else none
    else
      match (net.queue stage.input).pop (.patient (net.fuse stage.input)) with
      | (.value v, left) =>
        some (net.setQueue stage.input left,
          some (.stage { stage with received := stage.received ++ [v], complete := v.isException }))
      | (.waiting, _) => none
      | (_, left) =>
        some (net.setQueue stage.input left, some (.stage { stage with complete := true }))

def advance (net : Network) (index : Nat) : Network :=
  match net.workers[index]? with
  | none => net
  | some worker =>
    match net.step worker with
    | none => net
    | some (next, none) => { next with workers := net.workers.eraseIdx index }
    | some (next, some left) => { next with workers := net.workers.set index left }

def work : Nat → Worker → Network → Network
  | 0, worker, net => net.employ [worker]
  | limit + 1, worker, net =>
    match net.step worker with
    | none => net.employ [worker]
    | some (next, none) => next
    | some (next, some worker) => work limit worker next

/-- Every worker goes on as far as it can. A worker takes a step for each entry, one for the end of
them, and one to conclude. -/
def settle (net : Network) : Network :=
  net.workers.foldl
    (fun net worker => work ((net.queue worker.source).unread.length + 2) worker net)
    { net with workers := [] }

/-- Copies of a channel, which get all that comes after what it holds now. -/
def split (net : Network) (id count : Nat) : Network :=
  let source := net.channel id
  let targets := (List.range count).map (net.channels.length + ·)
  let copies := List.replicate count ⟨source.queue.replica, .empty, source.token⟩
  let forwards := if source.queue.isFinished then [] else [Worker.forward id targets]
  ((net.setQueue id source.queue.detached).append copies).employ
    (forwards ++ SlotKind.all.map fun kind => .relay kind id targets)

def start (net : Network) (evaluate : Evaluator) (input : Nat) : Network :=
  (net.append [.empty (some net.runtime)]).employ
    [.stage ⟨evaluate, input, net.channels.length, [], 0, false⟩]

end Network
end QueryShell
