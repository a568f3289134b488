import QueryShell.Error

/-! Queues with an end. The writer closes a queue by a terminator behind the last value; the reader
that comes upon it knows that nothing follows. Both ends keep their own record of it. -/

namespace QueryShell

inductive Entry (α : Type) where
  | value (v : α)
  | terminator

structure Queue (α : Type) where
  unread : List (Entry α)
  /-- Whether the terminator was written. -/
  inputClosed : Bool
  /-- Whether the terminator was read. -/
  terminated : Bool

/-- When a token fires during an operation: after so many reads, or not at all. -/
abbrev Fuse := Option Nat

inductive Access where
  /-- Does not wait and heeds no token. -/
  | immediate
  /-- Waits for an entry unless the token has fired. -/
  | patient (fuse : Fuse)
  deriving DecidableEq

inductive Reading (α : Type) where
  | value (v : α)
  | ended
  | waiting
  | failed (e : ChannelError)

inductive Halt where
  | found
  | ended
  | waiting
  | failed (e : ChannelError)
  deriving DecidableEq

/-- Nothing stands for the end. -/
def Reading.ofOption {α : Type} : Option α → Reading α
  | some v => .value v
  | none => .ended

def Access.onEmpty {α : Type} : Access → Reading α
  | .immediate => .failed .wouldBlock
  | .patient _ => .waiting

def Halt.isRegular : Halt → Bool
  | .found => true
  | .ended => true
  | _ => false

namespace Queue

variable {α : Type}

def empty : Queue α := ⟨[], false, false⟩

def valuesOf : List (Entry α) → List α
  | .value v :: rest => v :: valuesOf rest
  | _ => []

def values (q : Queue α) : List α := valuesOf q.unread

def ofValues (vs : List α) : Queue α := ⟨vs.map .value ++ [.terminator], true, false⟩

def put (q : Queue α) (vs : List α) : Queue α := { q with unread := q.unread ++ vs.map .value }

def close (q : Queue α) : Queue α :=
  { q with unread := q.unread ++ [.terminator], inputClosed := true }

def push (q : Queue α) (v : α) : Except ChannelError (Queue α) :=
  if q.inputClosed then .error .closed else .ok (q.put [v])

def terminate (q : Queue α) : Except ChannelError (Queue α) :=
  if q.inputClosed then .error .closed else .ok q.close

/-- A value for a queue that is closed is dropped. -/
def emit (q : Queue α) (v : α) : Queue α := if q.inputClosed then q else q.put [v]

def finish (q : Queue α) : Queue α := if q.inputClosed then q else q.close

/-- An end that was read once is read for ever; apart from that a token that has fired comes before
what is there. -/
def pop (q : Queue α) (access : Access) : Reading α × Queue α :=
  if q.terminated then (.ended, q)
  else if access = .patient (some 0) then (.failed .cancelled, q)
  else
    match q.unread with
    | [] => (access.onEmpty, q)
    | .value v :: rest => (.value v, { q with unread := rest })
    | .terminator :: rest => (.ended, { q with unread := rest, terminated := true })

/-- The values that waiting reads deliver, through the first one that is looked for, with what stops
them and the entries left. -/
def takeThrough (sought : α → Bool) : Fuse → List (Entry α) → List α × Halt × List (Entry α)
  | some 0, entries => ([], .failed .cancelled, entries)
  | _, [] => ([], .waiting, [])
  | _, .terminator :: rest => ([], .ended, rest)
  | fuse, .value v :: rest =>
    if sought v then ([v], .found, rest)
    else
      let (vs, halt, left) := takeThrough sought (fuse.map (· - 1)) rest
      (v :: vs, halt, left)

def readThrough (q : Queue α) (sought : α → Bool) (fuse : Fuse) : List α × Halt × Queue α :=
  if q.terminated then ([], .ended, q)
  else
    let (vs, halt, left) := takeThrough sought fuse q.unread
    (vs, halt, { q with unread := left, terminated := halt = .ended })

def drain (q : Queue α) (fuse : Fuse) : List α × Halt × Queue α :=
  q.readThrough (fun _ => false) fuse

structure Transfer (α : Type) where
  halt : Halt
  source : Queue α
  target : Queue α

/-- Moves values through the first one that is looked for. The target is closed only behind a
transfer that went well. -/
def pullThrough (source target : Queue α) (sought : α → Bool) (fuse : Fuse) (closing : Bool) :
    Transfer α :=
  if target.inputClosed then ⟨.failed .closed, source, target⟩
  else
    let (vs, halt, left) := source.readThrough sought fuse
    let filled := target.put vs
    ⟨halt, left, if closing && halt.isRegular then filled.close else filled⟩

/-- Moves values from the front to the back, at most so many, through the first one that is looked
for. -/
def turnWithin (sought : α → Bool) (spent : Halt) :
    Nat → List (Entry α) → List α × Halt × List (Entry α)
  | 0, entries => ([], spent, entries)
  | _ + 1, [] => ([], .waiting, [])
  | _ + 1, .terminator :: rest => ([], .ended, rest)
  | reads + 1, .value v :: rest =>
    if sought v then ([v], .found, rest ++ [.value v])
    else
      let (vs, halt, left) := turnWithin sought spent reads (rest ++ [.value v])
      (v :: vs, halt, left)

/-- How a queue that is read into itself halts if nothing is found: not before a token fires. -/
def haltOfFuse : Fuse → Halt
  | some _ => .failed .cancelled
  | none => .waiting

/-- Reads a queue into itself. Without a token one turn shows whether there is what is looked
for. -/
def turnThrough (q : Queue α) (sought : α → Bool) (fuse : Fuse) (closing : Bool) :
    List α × Halt × Queue α :=
  if q.inputClosed then ([], .failed .closed, q)
  else if q.terminated then ([], .ended, if closing then q.close else q)
  else
    let (vs, halt, left) := turnWithin sought (haltOfFuse fuse) (fuse.getD q.unread.length) q.unread
    let turned := { q with unread := left, terminated := halt = .ended }
    (vs, halt, if closing && halt.isRegular then turned.close else turned)

def isFinished (q : Queue α) : Bool := q.terminated || q.unread.any fun
  | .terminator => true
  | .value _ => false

/-- What each copy of a queue starts with. -/
def replica (q : Queue α) : Queue α :=
  let vs := if q.terminated then [] else q.values
  if q.isFinished then .ofValues vs else empty.put vs

/-- What is left of a queue that has been copied: readers see its end, and later entries go to the
copies. -/
def detached (q : Queue α) : Queue α :=
  if q.terminated then q else { q with unread := [], terminated := true }

/-- The next entry for the copies, whatever readers see. -/
def receive? (q : Queue α) : Option (Entry α × Queue α) :=
  match q.unread with
  | [] => none
  | entry :: rest => some (entry, { q with unread := rest })

def accept (q : Queue α) : Entry α → Queue α
  | .value v => q.emit v
  | .terminator => q.finish

end Queue
end QueryShell
