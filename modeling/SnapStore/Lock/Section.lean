import SnapStore.Lock.Table

/-!
# Sections on one thread

A `SnapStore.Section` is something that is done under the lock of a key. It may do other
sections inside, under the same key or others; and it ends by returning a value, by
failing, or by a panic, which ends it before it can leave in an orderly way but is caught
around it.

`SnapStore.Section.perform` does a section on a table of locks by the steps of
`SnapStore.LockTable`. It gives the `SnapStore.Section.Return` that the caller sees and writes a
trace: the number of keys in flight when a section is entered, when it is left, and after
the lock has been given back.

A section can also be done by other threads: by one, while this thread goes on afterwards,
or by several that all want the same key while this thread holds it.
-/

namespace SnapStore

/-- How a section ends. -/
inductive Ending (α : Type)
  /-- It returns a value, or nothing. -/
  | value (a : Option α)
  /-- It fails. -/
  | failure (e : α)
  /-- It panics. -/
  | panic

/-- Something that is done under the lock of a key. -/
inductive Section (α : Type)
  /-- This thread does it, with other sections inside. -/
  | run (key : String) (inner : List (Section α)) (ending : Ending α)
  /-- Another thread does it. -/
  | spawn (key : String)
  /-- So many threads ask for the key while this one holds it. -/
  | contend (key : String) (threads : Nat)

namespace Section

variable {α : Type}

/-- What the caller of a section sees. -/
inductive Return (α : Type)
  /-- A value, or nothing, and what the sections inside returned. -/
  | value (a : Option α) (inner : List (Return α))
  /-- A failure, and what the sections inside returned. -/
  | failed (e : α) (inner : List (Return α))
  /-- A panic in the section of this key. -/
  | panicked (key : String)
  /-- Another thread went through the section and saw so many keys in flight. -/
  | spawned (key : String) (inFlight : Nat)
  /-- Other threads went through the section: so many while this thread held the key, so
  many in all, so many of them at once, and so many keys were in flight in the end. -/
  | contended (whileHeld all atOnce inFlight : Nat)

/-- Moments of a section at which the keys in flight are counted. -/
inductive Moment
  /-- The lock has been taken. -/
  | enter
  /-- The section is about to return. -/
  | leave
  /-- The lock has been given back. -/
  | after
  deriving DecidableEq

/-- One line of a trace. -/
structure Mark where
  /-- The moment. -/
  moment : Moment
  /-- The key of the section. -/
  key : String
  /-- The number of keys in flight. -/
  inFlight : Nat
  deriving DecidableEq

/-- What sections leave behind. -/
structure Log where
  /-- The locks. -/
  table : LockTable String
  /-- The trace, the latest mark first. -/
  marks : List Mark

namespace Log

/-- Marks a moment. -/
def mark (l : Log) (moment : Moment) (key : String) : Log :=
  { l with marks := ⟨moment, key, l.table.inFlight⟩ :: l.marks }

end Log

/-- The number of the thread that sections are run on. -/
def thisThread : Nat := 0

/-- Threads that go through the section of a key one after the other: how many did, and what
they left. -/
def passThrough (key : String) (t : LockTable String) : Nat → Nat × LockTable String
  | 0 => (0, t)
  | count + 1 =>
    match t.enter? (count + 1) key with
    | none => passThrough key t count
    | some (id, t) =>
      let (others, t) := passThrough key (t.leave key id) count
      (others + 1, t)

/-- Does what a thread is asked to do for other threads. -/
def performContended (key : String) (threads : Nat) (l : Log) : Return α × Log :=
  match l.table.enter? thisThread key with
  | none => (.contended 0 0 0 l.table.inFlight, l)
  | some (id, held) =>
    let (early, held) := passThrough key held threads
    let (late, t) := passThrough key (held.leave key id) threads
    (.contended early late (min 1 late) t.inFlight, { l with table := t })

mutual

/-- Does a section. -/
def perform (l : Log) : Section α → Return α × Log
  | .run key inner ending =>
    match l.table.enter? thisThread key with
    | none => (.panicked key, l)
    | some (id, t) =>
      let (returns, l) := performAll (Log.mark { l with table := t } .enter key) inner
      let (result, l) : Return α × Log :=
        match ending with
        | .panic => (.panicked key, l)
        | .failure e => (.failed e returns, l.mark .leave key)
        | .value a => (.value a returns, l.mark .leave key)
      (result, Log.mark { l with table := l.table.leave key id } .after key)
  | .spawn key =>
    match l.table.enter? (thisThread + 1) key with
    | none => (.panicked key, l)
    | some (id, t) => (.spawned key t.inFlight, { l with table := t.leave key id })
  | .contend key threads => performContended key threads l

/-- Does sections one after the other. -/
def performAll (l : Log) : List (Section α) → List (Return α) × Log
  | [] => ([], l)
  | s :: rest =>
    let (r, l) := perform l s
    let (returns, l) := performAll l rest
    (r :: returns, l)

end

/-- What sections on a fresh table return, what they leave, and the trace in order. -/
def start (sections : List (Section α)) : List (Return α) × List Mark × Nat :=
  let (returns, l) := performAll ⟨.empty, []⟩ sections
  (returns, l.marks.reverse, l.table.inFlight)

end Section

end SnapStore
