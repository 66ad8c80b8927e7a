import SnapStore.Snapshot.Entry
import SnapStore.Store.Shelf

/-!
# The cache

A `SnapStore.Cache` keeps what has been computed. It has three independent shelves, all keyed
by canonical path: one for the entry of the path itself, one for the tree below it and one for
the aggregate of everything at and below it. Every lookup is counted as a hit or a miss.

The cache drops nothing but what its retention makes it drop. That something on disk has
changed it has to be told: `SnapStore.Cache.invalidate` forgets a path, on all three shelves,
and `SnapStore.Cache.invalidateAll` everything.
-/

namespace SnapStore

/-- How often lookups found something and how often not. -/
structure LookupCounts where
  /-- Lookups that found a value. -/
  hits : Nat
  /-- Lookups that found none. -/
  misses : Nat
  deriving DecidableEq

/-- The counts after one more lookup. -/
def LookupCounts.record (c : LookupCounts) (isHit : Bool) : LookupCounts :=
  if isHit then { c with hits := c.hits + 1 } else { c with misses := c.misses + 1 }

/-- What has been computed. -/
structure Cache where
  /-- How long values are kept. -/
  retention : Retention
  /-- Entries, by their own path. -/
  entries : Shelf Entry
  /-- Trees, by the path of their root. -/
  trees : Shelf TreeSnapshot
  /-- Aggregates, by the path they are of. -/
  aggregates : Shelf Aggregate
  /-- Counts of lookups. -/
  counts : LookupCounts

namespace Cache

/-- A cache that holds nothing yet. -/
def empty (r : Retention) : Cache := ⟨r, .empty, .empty, .empty, ⟨0, 0⟩⟩

/-- The number of values held. -/
def size (c : Cache) : Nat := c.entries.size + c.trees.size + c.aggregates.size

/-- Looks up an entry. -/
def lookUpEntry (c : Cache) (path : String) : Option Entry × Cache :=
  let found := c.entries.find? path
  (found, { c with entries := c.entries.use c.retention path
                   counts := c.counts.record found.isSome })

/-- Looks up a tree. -/
def lookUpTree (c : Cache) (path : String) : Option TreeSnapshot × Cache :=
  let found := c.trees.find? path
  (found, { c with trees := c.trees.use c.retention path
                   counts := c.counts.record found.isSome })

/-- Looks up an aggregate. -/
def lookUpAggregate (c : Cache) (path : String) : Option Aggregate × Cache :=
  let found := c.aggregates.find? path
  (found, { c with aggregates := c.aggregates.use c.retention path
                   counts := c.counts.record found.isSome })

/-- Stores an entry under its path. -/
def putEntry (c : Cache) (e : Entry) : Cache :=
  { c with entries := c.entries.store c.retention e.path e }

/-- Stores a tree under the path of its root; one without is not stored. -/
def putTree (c : Cache) (t : TreeSnapshot) : Cache :=
  match t.base with
  | none => c
  | some base => { c with trees := c.trees.store c.retention base t }

/-- Stores an aggregate. -/
def putAggregate (c : Cache) (path : String) (a : Aggregate) : Cache :=
  { c with aggregates := c.aggregates.store c.retention path a }

/-- Forgets what is stored under a path. -/
def invalidate (c : Cache) (path : String) : Cache :=
  { c with entries := c.entries.erase path
           trees := c.trees.erase path
           aggregates := c.aggregates.erase path }

/-- Forgets everything but the counts. -/
def invalidateAll (c : Cache) : Cache := { Cache.empty c.retention with counts := c.counts }

/-- All paths that occur in the cache: keys, and paths in what is stored. -/
def paths (c : Cache) : List String :=
  c.entries.items.flatMap (fun i => [i.1, i.2.path])
    ++ c.trees.items.flatMap (fun i => i.1 :: i.2.entries.map Entry.path)
    ++ c.aggregates.items.map (·.1)

end Cache

end SnapStore
