/-!
# Caches that forget the least recently used entry

A `Cache` keeps its entries in the order of their last use, the least
recently used first, and counts hits and misses. `Cache.hit?` looks up a
key, which makes it the most recently used one, and `Cache.miss` stores the
value of a key that was not found and drops entries from the front until
the capacity is met. The capacity is any integer and may be changed at any
time: entries are dropped at the next store only, and with a capacity that
is not positive nothing is stored.
-/

namespace IntCalc

/-- A cache from keys to values. -/
structure Cache (κ ν : Type) where
  capacity : Int
  /-- Keys with their values, least recently used first. -/
  entries : List (κ × ν) := []
  hits : Nat := 0
  misses : Nat := 0
  deriving DecidableEq, Repr

namespace Cache

variable {κ ν : Type}

/-- The cached keys, least recently used first. -/
def keys (c : Cache κ ν) : List κ :=
  c.entries.map Prod.fst

/-- The number of entries. -/
def size (c : Cache κ ν) : Nat :=
  c.entries.length

/-- The entries without the one of `k`. -/
def without [DecidableEq κ] (entries : List (κ × ν)) (k : κ) : List (κ × ν) :=
  entries.filter fun e => e.1 ≠ k

/-- The value of a cached key, and the cache after the look-up. -/
def hit? [DecidableEq κ] (c : Cache κ ν) (k : κ) : Option (ν × Cache κ ν) :=
  match c.entries.find? (·.1 = k) with
  | none => none
  | some e => some (e.2, { c with entries := without c.entries k ++ [e], hits := c.hits + 1 })

/-- The entries that are kept when at most `n` may be. -/
def newest (n : Nat) (entries : List (κ × ν)) : List (κ × ν) :=
  entries.drop (entries.length - n)

/-- The cache after the value of a key that was not found is known. -/
def miss (c : Cache κ ν) (k : κ) (v : ν) : Cache κ ν :=
  { c with
    entries := if 0 < c.capacity then newest c.capacity.toNat (c.entries ++ [(k, v)]) else c.entries
    misses := c.misses + 1 }

/-- The empty cache of the same capacity. -/
def clear (c : Cache κ ν) : Cache κ ν :=
  { capacity := c.capacity }

/-- The cache with another capacity. -/
def resize (c : Cache κ ν) (n : Int) : Cache κ ν :=
  { c with capacity := n }

/-- The keys that are left when one is taken out. -/
theorem keys_without [DecidableEq κ] (entries : List (κ × ν)) (k : κ) :
    (without entries k).map Prod.fst = (entries.map Prod.fst).filter (· ≠ k) := by
  simp [without, List.filter_map, Function.comp_def]

end Cache

end IntCalc
