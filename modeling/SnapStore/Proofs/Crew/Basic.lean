import Mathlib.Logic.Function.Basic
import SnapStore.Proofs.Lock.Standing
import SnapStore.Proofs.Server.Task
import SnapStore.Proofs.Store.Transparency

/-!
# Many threads, each with its own requests

A `SnapStore.Crew` is any number of threads that work through requests on one store, each through
any list of them, collections and filtered trees included. The requests come in the steps of a
`SnapStore.Task`, and at any time any thread may take the next one. What there is to see in the
world and what is kept in the store is left open altogether: every look and every lookup may be
replied to in any way (`SnapStore.Crew.step?`). So whatever the store keeps, however the world
changes and whatever fails is among the runs of a crew.

What is not left open are the locks. A thread that has to wait for one has no step to take
(`SnapStore.Crew.CanGoOn`). The locks that are held for one step only, on the table of locks, on the
mirror and on the interner, do not appear, as nobody waits while holding them.

Looks at paths and digests are made by `SnapStore.Providers`. They are free in what they do with
what they see, but they do not call back into the store.
-/

namespace SnapStore

/-! ### Providers -/

/-- What looks at paths and computes digests, by nothing but looks at the world. -/
structure Providers where
  /-- Looks at a path. -/
  stat : Path → Task (Except Failure Metadata)
  /-- Computes digests. -/
  hasher : Hasher Task
  /-- Looking at a path does not call back. -/
  stat_obeys : ∀ p, (stat p).Obeys (· = .look) fun _ => True
  /-- Nor does hashing a content, -/
  content_obeys : ∀ what r, (hasher.content what r).Obeys (· = .look) fun _ => True
  /-- or a file. -/
  file_obeys : ∀ p seen, (hasher.file p seen).Obeys (· = .look) fun _ => True

namespace Providers

/-- The system itself. -/
def native : Providers where
  stat := Task.host.stat
  hasher := Task.host.hasher
  stat_obeys := Task.alikeHosts_looking.stat
  content_obeys := Task.alikeHosts_looking.hasher.content
  file_obeys := Task.alikeHosts_looking.hasher.file

/-- The host that asks for everything, with these providers. -/
def host (pr : Providers) : Host Task := { Task.host with stat := pr.stat, hasher := pr.hasher }

/-- Works through requests, whatever comes of them. -/
def work (pr : Providers) (st : Strategy) : List Request → Task Unit
  | [] => return ()
  | r :: rs => do
    let _ ← pr.host.answer st r
    pr.work st rs

end Providers

/-! ### Crews -/

/-- Threads at work on one store. -/
structure Crew where
  /-- The threads in sections, for each kind of computation. -/
  crowds : Production → Crowd String
  /-- What each thread has still to do. -/
  tasks : List (Task Unit)

namespace Crew

/-- Each thread has a list of requests to work through, and none has begun. -/
def start (pr : Providers) (st : Strategy) (programs : List (List Request)) : Crew where
  crowds _ := .empty
  tasks := programs.map (pr.work st)

/-- The sections after a step of a thread. There are none as long as the thread has to wait for a
lock. -/
def grant? (c : Crew) (i : Nat) : Ask → Option (Production → Crowd String)
  | .enter kind key => ((c.crowds kind).enter? i key).map (Function.update c.crowds kind)
  | .goOn kind _ => ((c.crowds kind).advance? i).map (Function.update c.crowds kind)
  | _ => some c.crowds

/-- The crew after a thread has taken its next step and was replied to in this way. -/
def step? (c : Crew) (i : Nat) (replies : (q : Ask) → q.Reply) : Option Crew :=
  match c.tasks[i]? with
  | some (.ask q next) =>
    (c.grant? i q).map fun crowds => ⟨crowds, c.tasks.set i (next (replies q))⟩
  | _ => none

/-- Some thread takes a step, with some reply. -/
def Step (c c' : Crew) : Prop := ∃ i replies, c.step? i replies = some c'

/-- **What can come about** in any interleaving, whatever is replied. -/
def Reachable (pr : Providers) (st : Strategy) (programs : List (List Request)) (c : Crew) : Prop :=
  Relation.ReflTransGen Step (start pr st programs) c

/-- Whether a thread has something to do still. -/
def IsUnfinished (c : Crew) (i : Nat) : Prop := ∃ q next, c.tasks[i]? = some (.ask q next)

/-- Whether a thread can take a step, whatever the reply will be. -/
def CanGoOn (c : Crew) (i : Nat) : Prop := ∀ replies, (c.step? i replies).isSome

/-- Whether a thread waits for the lock of a key, which it cannot get. -/
def Awaits (c : Crew) (i : Nat) (kind : Production) (key : String) : Prop :=
  (∃ next, c.tasks[i]? = some (.ask (.goOn kind .waiting) next)) ∧
    ((c.crowds kind).standing i).head? = some (key, .waiting) ∧ (c.crowds kind).advance? i = none

/-- Whether a thread holds the lock of a key. -/
def Holds (c : Crew) (i : Nat) (kind : Production) (key : String) : Prop :=
  (key, .inside) ∈ (c.crowds kind).standing i

/-- Whether a thread waits for a lock that another one holds. -/
def WaitsFor (c : Crew) (i j : Nat) : Prop := ∃ kind key, c.Awaits i kind key ∧ c.Holds j kind key

end Crew

end SnapStore
