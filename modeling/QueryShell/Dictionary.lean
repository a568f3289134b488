/-! Association lists sorted by key. Insertion replaces; look-up needs no order. -/

namespace QueryShell.Dictionary

variable {κ α : Type} [LT κ] [DecidableLT κ] [DecidableEq κ]

/-- A later entry for a key takes the place of the earlier one. -/
def insert (key : κ) (value : α) : List (κ × α) → List (κ × α)
  | [] => [(key, value)]
  | (k, v) :: rest =>
    if key < k then (key, value) :: (k, v) :: rest
    else if key = k then (key, value) :: rest
    else (k, v) :: insert key value rest

/-- An entry for a key already there changes nothing. -/
def insertNew (key : κ) (value : α) : List (κ × α) → List (κ × α)
  | [] => [(key, value)]
  | (k, v) :: rest =>
    if key < k then (key, value) :: (k, v) :: rest
    else if key = k then (k, v) :: rest
    else (k, v) :: insertNew key value rest

def find? (key : κ) : List (κ × α) → Option α
  | [] => none
  | (k, v) :: rest => if key = k then some v else find? key rest

def contains (key : κ) (entries : List (κ × α)) : Bool := (find? key entries).isSome

def keys (entries : List (κ × α)) : List κ := entries.map Prod.fst

/-- Entries in arrival order, of which the last one for a key counts. -/
def ofEntries (entries : List (κ × α)) : List (κ × α) :=
  entries.foldl (fun table e => insert e.1 e.2 table) []

def union (first second : List (κ × α)) : List (κ × α) :=
  second.foldl (fun table e => insert e.1 e.2 table) first

end QueryShell.Dictionary
