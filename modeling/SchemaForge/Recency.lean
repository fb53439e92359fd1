import SchemaForge.Document.Display

/-!
# Recency caches

A cache of bounded size that gives up the entry that was touched longest ago. Setting a key touches
it, and so does finding it; asking whether it is there does not.

Entries are kept in the order in which they were last touched, the oldest first.
-/

namespace SchemaForge

/-- A cache whose entries stand in the order of their last touch, the oldest first. -/
structure Recency (κ ν : Type) where
  capacity : Limit
  entries : List (κ × ν) := []

namespace Recency

variable {κ ν : Type} [BEq κ]

/-- A new cache. -/
def empty (capacity : Limit) : Recency κ ν := { capacity }

/-- The capacity that a value gives; a cache has room for one entry at least. -/
def capacityOf (v : Value) : Except Fault Limit := do
  let q ← v.measure
  if q.less (.ofInt 1) then
    throw (.badValue ("LRUCache capacity must be positive, got " ++ v.display))
  else return .reaching q

def size (c : Recency κ ν) : Nat := c.entries.length

/-- Whether there is an entry for a key; this does not touch it. -/
def has (c : Recency κ ν) (key : κ) : Bool := c.entries.any fun e => e.1 == key

/-- The entries without that of a key. -/
def without (key : κ) (entries : List (κ × ν)) : List (κ × ν) :=
  entries.filter fun e => !(e.1 == key)

/-- The value of a key, and the cache in which the key is touched if it was found. -/
def find (c : Recency κ ν) (key : κ) : Option ν × Recency κ ν :=
  match c.entries.find? fun e => e.1 == key with
  | some (k, v) => (some v, { c with entries := without key c.entries ++ [(k, v)] })
  | none => (none, c)

/-- Sets the value of a key, giving up the oldest entry if there is no room for a new one. -/
def set (c : Recency κ ν) (key : κ) (v : ν) : Recency κ ν :=
  if c.has key then { c with entries := without key c.entries ++ [(key, v)] }
  else if c.capacity.reachedBy c.size then { c with entries := c.entries.tail ++ [(key, v)] }
  else { c with entries := c.entries ++ [(key, v)] }

/-- The cache without its entries. -/
def clear (c : Recency κ ν) : Recency κ ν := { c with entries := [] }

end Recency

end SchemaForge
