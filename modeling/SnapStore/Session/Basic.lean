import SnapStore.Store.Cache
import SnapStore.Store.Interner
import SnapStore.World.Change

/-!
# Sessions

A `SnapStore.Session` is all that snapshot stores work with when they run on a world in
memory: the world, a cache and an interner that the stores share, and an account of what was
asked of the system.

A session can be told to answer otherwise than the system would. A `SnapStore.StatRule`
applies to looks at one path, an error for one name makes hashing it fail, and a **blind**
session finds nothing in its cache at every other lookup, as if the value came in only just
after. Looks and digests are counted and rules obeyed only in a session that is watched.

Everything that happens in a session is a `SnapStore.Session.Run`: a computation that starts
from one state of the session and leaves another.
-/

namespace SnapStore

/-- What happens, in place of a system call, when a path is looked at. -/
inductive StatRule
  /-- This is seen. -/
  | answer (seen : Metadata)
  /-- The look fails. -/
  | fail (e : Error)
  /-- A snapshot of the same path is taken first, once, and then the path is looked at. -/
  | reenter

/-- How often the system was asked. -/
structure CallCounts where
  /-- Looks at a path. -/
  looks : Nat
  /-- Digests. -/
  digests : Nat
  deriving DecidableEq

/-- Stores at work on a world in memory. -/
structure Session where
  /-- The world. -/
  world : World
  /-- What has been computed. -/
  cache : Cache
  /-- Whether every other lookup finds nothing. -/
  isBlind : Bool
  /-- The number of lookups so far. -/
  lookups : Nat
  /-- The keys that are shared. -/
  interner : Interner
  /-- The keys that a running request holds. -/
  held : List String
  /-- Whether calls are counted and rules obeyed. -/
  isWatched : Bool
  /-- How often the system has been asked so far. -/
  asked : CallCounts
  /-- Rules for looks, by path. -/
  statRules : List (Path × StatRule)
  /-- Errors for digests, by the name of what is hashed. -/
  hashRules : List (String × Error)

namespace Session

/-- Something that happens in a session. -/
abbrev Run := StateM Session

/-- A session on an empty world that has done nothing yet. -/
def start (retention : Retention) (isBlind isWatched : Bool) : Session where
  world := .empty
  cache := .empty retention
  isBlind := isBlind
  lookups := 0
  interner := .empty
  held := []
  isWatched := isWatched
  asked := ⟨0, 0⟩
  statRules := []
  hashRules := []

/-! ### The world -/

/-- The world as it is now. -/
def now : Run World := return (← get).world

/-- Changes the world, and says whether the system went along. -/
def change (c : World.Change) : Run Bool := do
  let outcome := (← now).apply c
  modify fun s => { s with world := outcome.world }
  return outcome.isDone

/-! ### The cache -/

/-- A lookup in the cache, if this is not one that finds nothing. -/
def lookUp {α : Type} (find : Cache → Option α × Cache) : Run (Option α) := do
  let s ← get
  let isHidden := s.isBlind && s.lookups % 2 = 0
  set { s with lookups := s.lookups + 1 }
  if isHidden then return none
  let (found, cache) := find s.cache
  modify fun s => { s with cache := cache }
  return found

/-- A change of the cache. -/
def updateCache (f : Cache → Cache) : Run Unit := modify fun s => { s with cache := f s.cache }

/-! ### Keys -/

/-- Whether some request or some value in the cache holds a key. -/
def holds (s : Session) (key : String) : Bool := key ∈ s.held || key ∈ s.cache.paths

/-- Shares a key and holds it. -/
def intern (key : String) : Run Unit := modify fun s =>
  let (_, interner) := s.interner.intern (fun h => s.holds h.text) key
  { s with interner := interner, held := key :: s.held }

/-- Does something, and afterwards holds what was held before and the keys of the result. -/
def keeping {α : Type} (keys : α → List String) (act : Run α) : Run α := do
  let before := (← get).held
  let a ← act
  modify fun s => { s with held := keys a ++ before }
  return a

/-- Does something, and holds nothing of it afterwards. -/
def lettingGo {α : Type} (act : Run α) : Run α := keeping (fun _ => []) act

/-! ### Rules -/

/-- Sets the rule for a path. -/
def setStatRule (p : Path) (r : StatRule) : Run Unit := modify fun s =>
  { s with statRules := (p, r) :: s.statRules.filter (·.1 ≠ p) }

/-- Drops the rule for a path. -/
def clearStatRule (p : Path) : Run Unit := modify fun s =>
  { s with statRules := s.statRules.filter (·.1 ≠ p) }

/-- Sets the error for a name. -/
def setHashRule (what : String) (e : Error) : Run Unit := modify fun s =>
  { s with hashRules := (what, e) :: s.hashRules.filter (·.1 ≠ what) }

/-- Drops the error for a name. -/
def clearHashRule (what : String) : Run Unit := modify fun s =>
  { s with hashRules := s.hashRules.filter (·.1 ≠ what) }

end Session

end SnapStore
