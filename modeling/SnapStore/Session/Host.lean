import SnapStore.Session.Basic
import SnapStore.Store.Snapshotter

/-!
# Stores in a session

`SnapStore.Session.host` is the `SnapStore.Host` that the stores of a session run on. System
calls are answered from the world, values are kept in the cache and keys shared through the
interner. Looks at paths and digests go through the rules of the session.

A session does one thing at a time, so that critical sections need no locks. A look whose
rule says that a snapshot comes first does that snapshot inside itself, on a host that does
not do so again (`SnapStore.Session.innerHost`).
-/

namespace SnapStore.Session

/-- The system calls, answered from the world as it is now. -/
def systemCalls : Calls Run := .live now

/-! ### Looks and digests -/

/-- Looks at a path in the world. -/
def look (p : Path) : Run (Except Failure Metadata) := Host.statBy systemCalls p

/-- Looks at a path by the rules; `before` is what comes before a look if the rule says so. -/
def watchedLook (before : Path → Run (Except Failure Unit)) (p : Path) :
    Run (Except Failure Metadata) := do
  let s ← get
  if !s.isWatched then return ← look p
  set { s with asked := { s.asked with looks := s.asked.looks + 1 } }
  match s.statRules.lookup p with
  | none => look p
  | some (.answer seen) => return .ok seen
  | some (.fail e) => return .error (.error e)
  | some .reenter =>
    clearStatRule p
    match ← before p with
    | .error e => return .error e
    | .ok () => look p

/-- Computes a digest by the rules. -/
def watchedDigest (what : String) (compute : Run (Except Error Digest)) :
    Run (Except Error Digest) := do
  let s ← get
  if !s.isWatched then return ← compute
  set { s with asked := { s.asked with digests := s.asked.digests + 1 } }
  match s.hashRules.lookup what with
  | none => compute
  | some e => return .error e

/-- The hasher of the stores. -/
def hasher : Hasher Run where
  content what r := watchedDigest what ((Hasher.sha256 systemCalls).content what r)
  file p seen := watchedDigest p.display ((Hasher.sha256 systemCalls).file p seen)

/-! ### Hosts -/

/-- A host that looks at paths in the given way. -/
def hostLooking (stat : Path → Run (Except Failure Metadata)) : Host Run where
  calls := systemCalls
  stat := stat
  hasher := hasher
  entries := ⟨fun key => lookUp (·.lookUpEntry key), fun _ e => updateCache (·.putEntry e)⟩
  trees := ⟨fun key => lookUp (·.lookUpTree key), fun _ t => updateCache (·.putTree t)⟩
  aggregates :=
    ⟨fun key => lookUp (·.lookUpAggregate key), fun key a => updateCache (·.putAggregate key a)⟩
  intern := intern
  keeping := keeping
  exclusively _ _ act := act

/-- The host of a snapshot that is taken inside a look. -/
def innerHost : Host Run := hostLooking (watchedLook fun _ => return .ok ())

/-- The host of the stores. -/
def host : Host Run :=
  hostLooking <| watchedLook fun p => lettingGo (discard (innerHost.snapshotSelf p)).run

end SnapStore.Session
