import QueryShell.Dictionary
import QueryShell.Lazy.Basic

/-! Objects whose entries arrive one by one. The last entry for a key counts, so no key is settled
before the end. -/

namespace QueryShell.Lazy

variable {α : Type}

/-- Goes through the entries from a position on and keeps what the last one with the key holds. Each
step goes past an entry, so as many steps as there are entries, and one more for the end, are
enough. -/
def seek (key : String) :
    Nat → Nat → Option α → Lazy (String × α) → Fuse → Reading α × Lazy (String × α)
  | 0, _, _, lazy, _ => (.waiting, lazy)
  | steps + 1, index, found, lazy, fuse =>
    match lazy.get fuse index with
    | (.value (k, v), next) =>
      let reads := next.store.length - lazy.store.length
      seek key steps (index + 1) (if k = key then some v else found) next (fuse.map (· - reads))
    | (.ended, next) => (.ofOption found, next)
    | (.waiting, next) => (.waiting, next)
    | (.failed e, next) => (.failed e, next)

def getKey (lazy : Lazy (String × α)) (fuse : Fuse) (key : String) :
    Reading α × Lazy (String × α) :=
  seek key (lazy.store.length + lazy.queue.unread.length + 1) 0 none lazy fuse

def countKeys (lazy : Lazy (String × α)) (fuse : Fuse) : Reading Nat × Lazy (String × α) :=
  lazy.whole fuse fun entries => (Dictionary.ofEntries entries).length

def entries (lazy : Lazy (String × α)) (fuse : Fuse) : List (String × α) × Lazy (String × α) :=
  let (es, next) := lazy.items fuse
  (Dictionary.ofEntries es, next)

end QueryShell.Lazy
