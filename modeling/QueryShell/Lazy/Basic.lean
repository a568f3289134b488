import QueryShell.Channel.Queue

/-! Sequences that arrive while they are read. What has been read from the queue is kept in a store,
so that it can be read again. -/

namespace QueryShell

structure Lazy (α : Type) where
  store : List α
  queue : Queue α

namespace Lazy

variable {α : Type}

/-- Reads so many items more, or what there is before the end. -/
def fetch (lazy : Lazy α) (fuse : Fuse) : Nat → Halt × Lazy α
  | 0 => (.found, lazy)
  | count + 1 =>
    match lazy.queue.pop (.patient fuse) with
    | (.value v, left) => fetch ⟨lazy.store ++ [v], left⟩ (fuse.map (· - 1)) count
    | (.ended, left) => (.ended, { lazy with queue := left })
    | (.waiting, left) => (.waiting, { lazy with queue := left })
    | (.failed e, left) => (.failed e, { lazy with queue := left })

def fetchAll (lazy : Lazy α) (fuse : Fuse) : Halt × Lazy α :=
  let (vs, halt, left) := lazy.queue.drain fuse
  (halt, ⟨lazy.store ++ vs, left⟩)

/-- What an operation on the whole sequence answers, which must have arrived for it. -/
def whole {β : Type} (lazy : Lazy α) (fuse : Fuse) (answer : List α → β) : Reading β × Lazy α :=
  let (halt, next) := lazy.fetchAll fuse
  match halt with
  | .waiting => (.waiting, next)
  | .failed e => (.failed e, next)
  | _ => (.value (answer next.store), next)

/-- Reads no further than the position. -/
def get (lazy : Lazy α) (fuse : Fuse) (index : Nat) : Reading α × Lazy α :=
  let (halt, next) := lazy.fetch fuse (index + 1 - lazy.store.length)
  match next.store[index]?, halt with
  | some v, _ => (.value v, next)
  | none, .waiting => (.waiting, next)
  | none, .failed e => (.failed e, next)
  | none, _ => (.ended, next)

def length (lazy : Lazy α) (fuse : Fuse) : Reading Nat × Lazy α := lazy.whole fuse List.length

def materialize (lazy : Lazy α) (fuse : Fuse) : Reading (List α) × Lazy α := lazy.whole fuse id

/-- All items, or those that can be read before reading fails. -/
def items (lazy : Lazy α) (fuse : Fuse) : List α × Lazy α :=
  let (_, next) := lazy.fetchAll fuse
  (next.store, next)

/-- One item is enough to tell. -/
def isEmpty (lazy : Lazy α) (fuse : Fuse) : Reading Bool × Lazy α :=
  match lazy.get fuse 0 with
  | (.value _, next) => (.value false, next)
  | (.ended, next) => (.value true, next)
  | (.waiting, next) => (.waiting, next)
  | (.failed e, next) => (.failed e, next)

def available (lazy : Lazy α) : Nat := lazy.store.length

def isComplete (lazy : Lazy α) : Bool := lazy.queue.terminated

end Lazy
end QueryShell
