import QueryShell.Lazy.Basic

/-! Readers of one queue. Each reader keeps what it has read in a store, and an item goes to the one
that reads it first. -/

namespace QueryShell

structure Readers (α : Type) where
  queue : Queue α
  /-- Whether the token of the queue has fired. A queue that was made with its end has none. -/
  fired : Option Bool
  stores : List (List α)

namespace Readers

variable {α : Type}

/-- A first reader of an open queue. -/
def opened : Readers α := ⟨.empty, some false, [[]]⟩

/-- A first reader of a queue that holds all its values. -/
def preset (vs : List α) : Readers α := ⟨.ofValues vs, none, [[]]⟩

def isFired (readers : Readers α) : Bool := readers.fired.getD false

def fuse (readers : Readers α) : Fuse := if readers.isFired then some 0 else none

def cancel (readers : Readers α) : Readers α :=
  { readers with fired := readers.fired.map fun _ => true }

def join (readers : Readers α) : Readers α := { readers with stores := readers.stores ++ [[]] }

def reader (readers : Readers α) (index : Nat) : Lazy α :=
  ⟨(readers.stores[index]?).getD [], readers.queue⟩

def leave (readers : Readers α) (index : Nat) (lazy : Lazy α) : Readers α :=
  { readers with queue := lazy.queue, stores := readers.stores.set index lazy.store }

def visit {β : Type} (readers : Readers α) (index : Nat) (use : Lazy α → Fuse → β × Lazy α) :
    β × Readers α :=
  let (answer, lazy) := use (readers.reader index) readers.fuse
  (answer, readers.leave index lazy)

end Readers
end QueryShell
