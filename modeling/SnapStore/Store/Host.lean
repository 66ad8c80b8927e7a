import SnapStore.Path.Canonical
import SnapStore.Snapshot.Strategy
import SnapStore.Tree.Basic

/-!
# What a snapshot store is built on

A `SnapStore.Host` supplies everything that a snapshot store needs from outside, in whatever
monad it runs: system calls, a way to look at a path, a hasher, a place to keep what has been
computed, sharing of keys and mutual exclusion. None of these is fixed, so that a store can
be run on a disk or on a world in memory, with or without a cache, alone or among others.

Every computation that is kept follows one protocol, `SnapStore.Host.cached`: look the key up;
if nothing is found, enter the critical section of the key, look again, compute and store. A
failure is handed to the caller and not stored.
-/

namespace SnapStore

/-- Keeps values of one type by key. -/
structure Keeper (m : Type → Type) (α : Type) where
  /-- Looks a key up. -/
  find? : String → m (Option α)
  /-- Stores a value under a key. -/
  store : String → α → m Unit

/-- The kinds of computation that exclude each other key by key. -/
inductive Production
  /-- Entries. -/
  | entry
  /-- Trees. -/
  | tree
  /-- Aggregates. -/
  | aggregate
  deriving DecidableEq

/-- What a snapshot store is built on. -/
structure Host (m : Type → Type) where
  /-- The system calls that walks make. -/
  calls : Calls m
  /-- Looks at a path, links followed. -/
  stat : Path → m (Except Failure Metadata)
  /-- Computes digests. -/
  hasher : Hasher m
  /-- Keeps entries. -/
  entries : Keeper m Entry
  /-- Keeps trees. -/
  trees : Keeper m TreeSnapshot
  /-- Keeps aggregates. -/
  aggregates : Keeper m Aggregate
  /-- Shares a key, which is held from then on. -/
  intern : String → m Unit
  /-- Gives up the keys that a computation came to hold, other than those in its result. -/
  keeping : {α : Type} → (α → List String) → m α → m α
  /-- Does something in the critical section of a key. -/
  exclusively : {α : Type} → Production → String → m α → m α

namespace Host

variable {m : Type → Type} [Monad m]

/-- Looks at a path by a system call. That nothing is there is no error. -/
def statBy (calls : Calls m) (p : Path) : m (Except Failure Metadata) := do
  match ← calls.stat p with
  | .ok s => return Metadata.ofStatus s
  | .error .notFound => return .ok .missing
  | .error e => return .error (.error (.read ("metadata of " ++ p.display) e.text))

/-- The key of a path: its canonical form, shared. -/
def key (h : Host m) (p : Path) : ExceptT Failure m String := do
  let cwd ← h.calls.workingDirectory
  let key ← Path.canonical cwd p
  h.intern key
  return key

/-- Gives up the keys that a computation came to hold, other than those in the value it
returns. -/
def keepingValue {α : Type} (h : Host m) (keys : α → List String) (act : ExceptT Failure m α) :
    ExceptT Failure m α :=
  ExceptT.mk <| h.keeping (fun r => match r with
    | .ok a => keys a
    | .error _ => []) act.run

/-- What is kept under a key, or else what is computed, which is then kept. -/
def cached {α : Type} (h : Host m) (keeper : Keeper m α) (production : Production)
    (key : String) (compute : ExceptT Failure m α) : ExceptT Failure m α := do
  match ← keeper.find? key with
  | some a => return a
  | none =>
    ExceptT.mk <| h.exclusively production key <| ExceptT.run do
      match ← keeper.find? key with
      | some a => return a
      | none =>
        let a ← compute
        keeper.store key a
        return a

end Host

end SnapStore
