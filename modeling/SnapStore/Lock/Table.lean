/-!
# Locks by key

A `SnapStore.LockTable` makes critical sections by key. A lock exists only while somebody has
an interest in it: a thread that wants the section of a key takes a **lease** on the key's
lock, which makes the lock if there is none, and drops the lease when it is done.

One pass through a section takes six steps, and other threads may do theirs between any two
of them:

1. `SnapStore.LockTable.lease` finds or makes the lock and counts one more reference to it;
2. `SnapStore.LockTable.acquire?` takes the lock, if it is free or held by the same thread
   already: locks are reentrant;
3. the section itself;
4. `SnapStore.LockTable.release` gives the lock back;
5. `SnapStore.LockTable.retire` looks at the number of references. Two of them are the
   table's own and that of this lease, so the key leaves the table with that count and stays
   with any other;
6. `SnapStore.LockTable.discard` drops the reference of the lease.

The first and the fifth step are each done under a lock on the table as a whole.
-/

namespace SnapStore

/-- A reentrant lock. -/
structure Lock where
  /-- The thread that holds the lock. -/
  owner : Option Nat
  /-- How often that thread has taken it. -/
  depth : Nat
  /-- The number of references to the lock. -/
  references : Nat
  deriving DecidableEq

/-- The locks of all keys. -/
structure LockTable (κ : Type) where
  /-- The key of every lock that can be found, with the number of the lock. -/
  keys : List (κ × Nat)
  /-- All locks that were ever made, by number. -/
  locks : List Lock

namespace LockTable

variable {κ : Type}

/-- The table without locks. -/
def empty : LockTable κ := ⟨[], []⟩

/-- The number of keys that have a lock. -/
def inFlight (t : LockTable κ) : Nat := t.keys.length

/-- The table with another state of one lock. -/
def modify (t : LockTable κ) (id : Nat) (f : Lock → Lock) : LockTable κ :=
  { t with locks := t.locks.modify id f }

/-- The lock without an owner and with the references of its table and of one lease. -/
def freshLock : Lock := ⟨none, 0, 2⟩

/-- Finds the lock of a key, or makes it, and refers to it. -/
def lease [BEq κ] (t : LockTable κ) (key : κ) : Nat × LockTable κ :=
  match t.keys.lookup key with
  | some id => (id, t.modify id fun l => { l with references := l.references + 1 })
  | none =>
    (t.locks.length, ⟨(key, t.locks.length) :: t.keys, t.locks ++ [freshLock]⟩)

/-- Takes a lock for a thread, unless another one holds it. -/
def acquire? (t : LockTable κ) (thread id : Nat) : Option (LockTable κ) :=
  match t.locks[id]? with
  | none => none
  | some l =>
    if l.owner = none ∨ l.owner = some thread then
      some (t.modify id fun l => { l with owner := some thread, depth := l.depth + 1 })
    else none

/-- Gives a lock back. It is free when it has been given back as often as it was taken. -/
def release (t : LockTable κ) (id : Nat) : LockTable κ :=
  t.modify id fun l =>
    { l with depth := l.depth - 1, owner := if l.depth ≤ 1 then none else l.owner }

/-- Takes the key out of the table if nobody but the table and one lease refers to its
lock; the table's reference goes with it. -/
def retire [BEq κ] (t : LockTable κ) (key : κ) (id : Nat) : LockTable κ :=
  if (t.locks[id]?.map Lock.references) = some 2 then
    { t with keys := t.keys.filter fun e => !(e.1 == key) }.modify id
      fun l => { l with references := l.references - 1 }
  else t

/-- Drops one reference. -/
def discard (t : LockTable κ) (id : Nat) : LockTable κ :=
  t.modify id fun l => { l with references := l.references - 1 }

/-- The steps before a section; there is no result if another thread holds the lock. -/
def enter? [BEq κ] (t : LockTable κ) (thread : Nat) (key : κ) : Option (Nat × LockTable κ) :=
  let (id, t) := t.lease key
  (t.acquire? thread id).map (id, ·)

/-- The steps after a section. -/
def leave [BEq κ] (t : LockTable κ) (key : κ) (id : Nat) : LockTable κ :=
  ((t.release id).retire key id).discard id

end LockTable

end SnapStore
