import Mathlib.Logic.Function.Basic
import SnapStore.Proofs.Server.Task
import SnapStore.Store.Cache

/-!
# One store and many threads

A `SnapStore.Server` is a snapshot store that serves any number of threads. Each thread has a
request under way, step by step (`SnapStore.Task`), and a step of one thread may come between any
two steps of another. In between the world may become any other world, and somebody may forget
what is kept under a key. Forgetting a key takes three steps, one for each shelf of the cache
(`SnapStore.Cache.invalidate_eq`), and others may come between these as well.

Every step has a time. So that one can say on what an answer rests, a server keeps account of what
has been done:

* a thread knows at what times the world was looked at for what it has found so far, section by
  section (`SnapStore.Thread.levels`);
* the server has a record of all that was ever stored: when, by a request from when, under which
  key, and at what times the world was looked at for it (`SnapStore.Filing`).

A thread that finds something that is kept has found what rests on the times of the latest filing
under that key. Nothing that is done depends on these accounts.
-/

namespace SnapStore

/-! ### The cache, by kinds -/

namespace Cache

/-- What is kept under a key. -/
def found? (c : Cache) : (kind : Production) → String → Option kind.Value
  | .entry, key => c.entries.find? key
  | .tree, key => c.trees.find? key
  | .aggregate, key => c.aggregates.find? key

/-- Looks a key up. -/
def lookUp (c : Cache) : (kind : Production) → String → Option kind.Value × Cache
  | .entry, key => c.lookUpEntry key
  | .tree, key => c.lookUpTree key
  | .aggregate, key => c.lookUpAggregate key

/-- Stores a value. -/
def put (c : Cache) : (kind : Production) → String → kind.Value → Cache
  | .entry, _, e => c.putEntry e
  | .tree, _, t => c.putTree t
  | .aggregate, key, a => c.putAggregate key a

/-- Forgets what is kept under a key on one of the shelves. -/
def forget (c : Cache) (key : String) : Production → Cache
  | .entry => { c with entries := c.entries.erase key }
  | .tree => { c with trees := c.trees.erase key }
  | .aggregate => { c with aggregates := c.aggregates.erase key }

theorem invalidate_eq (c : Cache) (key : String) :
    c.invalidate key = ((c.forget key .entry).forget key .tree).forget key .aggregate := rfl

end Cache

/-! ### Threads -/

/-- A thread with a request under way, or answered. -/
structure Thread where
  /-- The thread. -/
  number : Nat
  /-- What is asked for. -/
  kind : Production
  /-- The key of the request. -/
  key : String
  /-- When the request began. -/
  started : Nat
  /-- When the world was looked at for what was found so far: in the innermost section, then in
  the one around it, and so on; outside of all sections at the end. -/
  levels : List (List Nat)
  /-- What there is still to do. -/
  task : Task (Except Failure kind.Value)

/-- When the world was looked at for what a thread has found so far. -/
def Thread.basis (th : Thread) : List Nat := th.levels.flatten

/-- The record of something that was stored. -/
structure Filing where
  /-- When it was stored. -/
  time : Nat
  /-- When the request that stored it began. -/
  started : Nat
  /-- What kind of thing it is. -/
  kind : Production
  /-- Under which key it was stored. -/
  key : String
  /-- When the world was looked at for it. -/
  basis : List Nat

/-! ### Servers -/

/-- A store that serves many threads. -/
structure Server where
  /-- The strategy for aggregates. -/
  strategy : Strategy
  /-- The world as it is now. -/
  world : World
  /-- What is kept. -/
  cache : Cache
  /-- The threads in sections, for each kind of computation. -/
  crowds : Production → Crowd String
  /-- The time. -/
  clock : Nat
  /-- What was stored, the latest first. -/
  filings : List Filing
  /-- The threads. -/
  threads : List Thread

namespace Server

/-- Nobody has asked for anything yet. -/
def start (st : Strategy) (r : Retention) (w : World) : Server where
  strategy := st
  world := w
  cache := .empty r
  crowds _ := .empty
  clock := 0
  filings := []
  threads := []

/-- The record of what was stored last under a key. -/
def latest? (s : Server) (kind : Production) (key : String) : Option Filing :=
  s.filings.find? fun f => f.kind = kind ∧ f.key = key

/-- When the world was looked at for what is kept under a key. -/
def basisOf (s : Server) (kind : Production) (key : String) : List Nat :=
  ((s.latest? kind key).map Filing.basis).getD []

/-- The record of a value that a thread stores, if it is stored at all. -/
def filing? (s : Server) (th : Thread) (kind : Production) (key : String) (value : kind.Value) :
    Option Filing :=
  (kind.landing key value).map fun key' => ⟨s.clock, th.started, kind, key', th.levels.headD []⟩

/-- The server after a thread has gone on in its sections. -/
def withCrowd (s : Server) (kind : Production) (c : Crowd String) : Server :=
  { s with crowds := Function.update s.crowds kind c }

/-- The reply to the question of a thread, and the server after it. There is none as long as the
thread has to wait for a lock. -/
def reply? (s : Server) (th : Thread) : (q : Ask) → Option (q.Reply × Server)
  | .look => some (s.world, s)
  | .find kind key =>
    some ((s.cache.lookUp kind key).1, { s with cache := (s.cache.lookUp kind key).2 })
  | .store kind key value =>
    some ((), { s with cache := s.cache.put kind key value
                       filings := (s.filing? th kind key value).toList ++ s.filings })
  | .enter kind key =>
    ((s.crowds kind).enter? th.number key).map fun c => ((), s.withCrowd kind c)
  | .goOn kind _ => ((s.crowds kind).advance? th.number).map fun c => ((), s.withCrowd kind c)

end Server

namespace Thread

/-- The levels when the world was looked at these times as well. -/
def noted (times : List Nat) : List (List Nat) → List (List Nat)
  | [] => [times]
  | level :: levels => (times ++ level) :: levels

/-- The levels after a section, which was done for the sake of the one around it. -/
def closed : List (List Nat) → List (List Nat)
  | inner :: outer :: levels => (inner ++ outer) :: levels
  | levels => levels

/-- The levels after a reply. -/
def levelsAfter (th : Thread) (s : Server) : (q : Ask) → q.Reply → List (List Nat)
  | .look, _ => noted [s.clock] th.levels
  | .find kind key, some _ => noted (s.basisOf kind key) th.levels
  | .find _ _, none => th.levels
  | .store _ _ _, _ => th.levels
  | .enter _ _, _ => [] :: th.levels
  | .goOn _ .inside, _ => closed th.levels
  | .goOn _ _, _ => th.levels

end Thread

namespace Server

/-- The server after a thread has taken its next step. -/
def advance? (s : Server) (i : Nat) : Option Server :=
  match s.threads[i]? with
  | none => none
  | some th =>
    match th.task with
    | .done _ => none
    | .ask q next =>
      (s.reply? th q).map fun (r, s') =>
        { s' with clock := s.clock + 1
                  threads := s.threads.set i { th with levels := th.levelsAfter s q r
                                                       task := next r } }

/-- The server after a thread has gone away with its answer. -/
def finish? (s : Server) (i : Nat) : Option Server :=
  match s.threads[i]? with
  | none => none
  | some th =>
    match th.task with
    | .done _ => some { s with clock := s.clock + 1, threads := s.threads.eraseIdx i }
    | .ask _ _ => none

/-- The server after a thread has begun a request. The first step is to look for the current
directory, in order to find the key. A request without a key fails at once, and nothing has
happened. -/
def begin? (s : Server) (number : Nat) (kind : Production) (p : Path) : Option Server :=
  match p.canonical s.world.workingDirectory with
  | .error _ => none
  | .ok key =>
    if s.threads.all (·.number ≠ number) then
      some { s with clock := s.clock + 1
                    threads := ⟨number, kind, key, s.clock, [[s.clock]],
                      (kind.request s.strategy p).run.afterLook s.world⟩ :: s.threads }
    else none

/-- The server after what is kept under a key was forgotten on one of the shelves. -/
def forget (s : Server) (key : String) (kind : Production) : Server :=
  { s with clock := s.clock + 1, cache := s.cache.forget key kind }

/-- Something that happens. -/
inductive Move
  /-- A thread begins a request. -/
  | start (number : Nat) (kind : Production) (p : Path)
  /-- The thread at this index takes a step. -/
  | advance (i : Nat)
  /-- It goes away with its answer. -/
  | finish (i : Nat)
  /-- The world changes. -/
  | change (w : World)
  /-- A key is forgotten on one of the shelves. -/
  | forget (key : String) (kind : Production)

/-- The server after something has happened, if it can happen. -/
def step? (s : Server) : Move → Option Server
  | .start number kind p => s.begin? number kind p
  | .advance i => s.advance? i
  | .finish i => s.finish? i
  | .change w => some { s with clock := s.clock + 1, world := w }
  | .forget key kind => some (s.forget key kind)

end Server

end SnapStore
