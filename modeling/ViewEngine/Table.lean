/-!
# Tables

A table maps texts to things. It is held as a list of entries in increasing order of key, without
repetition, and every operation here keeps it so. The operations do not rely on the order: a look-up
finds the first entry with a key, an insertion leaves exactly one, whatever the list.
-/

namespace ViewEngine

/-- Entries by key. -/
abbrev Table (α : Type) := List (String × α)

namespace Table

variable {α : Type}

/-- The thing stored under `key`. -/
def get? : Table α → String → Option α
  | [], _ => none
  | (k, a) :: rest, key => if k = key then some a else get? rest key

def contains (t : Table α) (key : String) : Bool := (t.get? key).isSome

/-- Stores `a` under `key`, in place of what stood there. -/
def insert (t : Table α) (key : String) (a : α) : Table α :=
  t.filter (·.1 < key) ++ (key, a) :: t.filter (key < ·.1)

/-- Removes what is stored under `key`. -/
def erase (t : Table α) (key : String) : Table α :=
  t.filter (·.1 ≠ key)

/-- The table of a list of entries in any order; of two entries with one key the later counts. -/
def ofList (entries : List (String × α)) : Table α :=
  entries.foldl (fun t e => t.insert e.1 e.2) []

/-- Both tables together; `top` wins where both have a key. -/
def overlay (top base : Table α) : Table α :=
  top.foldr (fun e t => t.insert e.1 e.2) base

def keys (t : Table α) : List String := t.map (·.1)

def values (t : Table α) : List α := t.map (·.2)

/-- Each entry's thing replaced by its image. -/
def mapValues {β : Type} (f : α → β) (t : Table α) : Table β :=
  t.map fun e => (e.1, f e.2)

end Table

end ViewEngine
