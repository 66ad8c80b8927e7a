import Mathlib.Logic.Relation
import SnapStore.Lock.Table

/-!
# Sections of many threads

The steps of `SnapStore.LockTable` are atomic, and other threads may do theirs between any two of
them. A `SnapStore.Crowd` is a table of locks together with an account of the sections that
threads are in: who has a lease on which lock, and how far it has come (`SnapStore.Stage`). A
thread may be in several sections, one inside the other, under the same key or others; only the
innermost of them goes on. Which thread takes the next step, and whether a thread inside a
section begins another one or ends, is left open: a crowd can do whatever any programs could make
it do, in any interleaving.

Returning, failing and panicking are not told apart. The lock is given back and the lease dropped
in the same way, section by section from the inside outwards.

What a step can do is said once, by the five cases of `SnapStore.Crowd.Moves`
(`SnapStore.Crowd.moves_of_step?`).
-/

namespace SnapStore

/-- Moves that can be made one after the other are steps one after the other. -/
theorem reflTransGen_of_foldlM {σ μ : Type} {step? : σ → μ → Option σ} {s s' : σ} {moves : List μ}
    (h : moves.foldlM step? s = some s') :
    Relation.ReflTransGen (fun a b => ∃ m, step? a m = some b) s s' := by
  induction moves generalizing s with
  | nil =>
    cases h
    exact .refl
  | cons m moves ih =>
    obtain ⟨next, hnext, hrest⟩ := Option.bind_eq_some_iff.1 h
    exact (ih hrest).head ⟨m, hnext⟩

/-- How far a thread has come in a section. -/
inductive Stage
  /-- It has a lease on the lock of the key, and waits for the lock. -/
  | waiting
  /-- It holds the lock and does what there is to do. -/
  | inside
  /-- It has given the lock back. -/
  | leaving
  /-- It has looked whether the key can leave the table, and has its reference still. -/
  | retired
  deriving DecidableEq

/-- A thread's reference to a lock, for a section that it is in. -/
structure Lease (κ : Type) where
  /-- The thread. -/
  thread : Nat
  /-- The key of the section. -/
  key : κ
  /-- The number of the lock. -/
  lock : Nat
  /-- How far the thread has come. -/
  stage : Stage
  deriving DecidableEq

/-- Threads in sections. -/
structure Crowd (κ : Type) where
  /-- The locks. -/
  table : LockTable κ
  /-- The leases that have not been dropped, the latest first. -/
  leases : List (Lease κ)

variable {κ : Type} [DecidableEq κ]

/-- The next step of a section: the table after it and what becomes of the lease. There is none as
long as the lock is held by another thread. -/
def Lease.next? (l : Lease κ) (t : LockTable κ) : Option (LockTable κ × Option (Lease κ)) :=
  match l.stage with
  | .waiting => (t.acquire? l.thread l.lock).map (·, some { l with stage := .inside })
  | .inside => some (t.release l.lock, some { l with stage := .leaving })
  | .leaving => some (t.retire l.key l.lock, some { l with stage := .retired })
  | .retired => some (t.discard l.lock, none)

namespace Crowd

/-- Nobody is in a section, and nobody was. -/
def empty : Crowd κ := ⟨.empty, []⟩

/-- Whether a thread can begin a section: it is in none, or inside the innermost one. -/
def isReady (c : Crowd κ) (thread : Nat) : Bool :=
  (c.leases.find? (·.thread = thread)).all (·.stage = .inside)

/-- A thread begins a section. -/
def enter? (c : Crowd κ) (thread : Nat) (key : κ) : Option (Crowd κ) :=
  if c.isReady thread then
    some ⟨(c.table.lease key).2, ⟨thread, key, (c.table.lease key).1, .waiting⟩ :: c.leases⟩
  else none

/-- Lets the first of these leases that is the thread's take its next step. -/
def advanceIn? (t : LockTable κ) (thread : Nat) : List (Lease κ) → Option (Crowd κ)
  | [] => none
  | l :: ls =>
    if l.thread = thread then (l.next? t).map fun r => ⟨r.1, r.2.toList ++ ls⟩
    else (advanceIn? t thread ls).map fun c => ⟨c.table, l :: c.leases⟩

/-- A thread goes on in the innermost of its sections. -/
def advance? (c : Crowd κ) (thread : Nat) : Option (Crowd κ) :=
  advanceIn? c.table thread c.leases

/-- Something that a thread does. -/
inductive Move (κ : Type)
  /-- It begins a section. -/
  | enter (thread : Nat) (key : κ)
  /-- It takes the next step of the section that it is in. -/
  | advance (thread : Nat)

/-- The crowd after a move, if the move can be made. -/
def step? (c : Crowd κ) : Move κ → Option (Crowd κ)
  | .enter thread key => c.enter? thread key
  | .advance thread => c.advance? thread

/-- Some thread does something. -/
def Step (c c' : Crowd κ) : Prop := ∃ m, c.step? m = some c'

/-- **What can come about**, from a table without locks, in any interleaving of any threads. -/
def Reachable (c : Crowd κ) : Prop := Relation.ReflTransGen Step .empty c

/-- The crowd after moves that are made one after the other, if they can be made. -/
def run? (c : Crowd κ) (moves : List (Move κ)) : Option (Crowd κ) := moves.foldlM step? c

theorem reachable_of_run? {c c' : Crowd κ} (hc : c.Reachable) {moves : List (Move κ)}
    (h : c.run? moves = some c') : c'.Reachable :=
  hc.trans (reflTransGen_of_foldlM h)

/-! ### What a move does -/

/-- **The ways in which a crowd moves.** -/
inductive Moves (c : Crowd κ) : Crowd κ → Prop
  /-- A thread takes a lease. -/
  | lease (thread : Nat) (key : κ) :
    Moves c ⟨(c.table.lease key).2, ⟨thread, key, (c.table.lease key).1, .waiting⟩ :: c.leases⟩
  /-- A thread takes a lock. -/
  | acquire {front rest : List (Lease κ)} {l : Lease κ} {t : LockTable κ}
    (hleases : c.leases = front ++ l :: rest) (hstage : l.stage = .waiting)
    (ht : c.table.acquire? l.thread l.lock = some t) :
    Moves c ⟨t, front ++ { l with stage := .inside } :: rest⟩
  /-- A thread gives a lock back. -/
  | release {front rest : List (Lease κ)} {l : Lease κ}
    (hleases : c.leases = front ++ l :: rest) (hstage : l.stage = .inside) :
    Moves c ⟨c.table.release l.lock, front ++ { l with stage := .leaving } :: rest⟩
  /-- A thread looks whether a key can leave the table. -/
  | retire {front rest : List (Lease κ)} {l : Lease κ}
    (hleases : c.leases = front ++ l :: rest) (hstage : l.stage = .leaving) :
    Moves c ⟨c.table.retire l.key l.lock, front ++ { l with stage := .retired } :: rest⟩
  /-- A thread drops its reference. -/
  | discard {front rest : List (Lease κ)} {l : Lease κ}
    (hleases : c.leases = front ++ l :: rest) (hstage : l.stage = .retired) :
    Moves c ⟨c.table.discard l.lock, front ++ rest⟩

/-- What goes on is the first of the thread's leases, and the others stay. -/
theorem exists_next?_of_advanceIn? {t : LockTable κ} {thread : Nat} {ls : List (Lease κ)}
    {c : Crowd κ} (h : advanceIn? t thread ls = some c) :
    ∃ front l rest r, ls = front ++ l :: rest ∧ (∀ m ∈ front, m.thread ≠ thread) ∧
      l.thread = thread ∧ l.next? t = some r ∧ c = ⟨r.1, front ++ (r.2.toList ++ rest)⟩ := by
  induction ls generalizing c with
  | nil => cases h
  | cons l ls ih =>
    unfold advanceIn? at h
    by_cases hthread : l.thread = thread
    · rw [if_pos hthread] at h
      obtain ⟨r, hr, rfl⟩ := Option.map_eq_some_iff.1 h
      exact ⟨[], l, ls, r, rfl, by simp, hthread, hr, rfl⟩
    · rw [if_neg hthread] at h
      obtain ⟨d, hd, rfl⟩ := Option.map_eq_some_iff.1 h
      obtain ⟨front, m, rest, r, hls, hfront, hm, hr, rfl⟩ := ih hd
      refine ⟨l :: front, m, rest, r, by rw [hls, List.cons_append], ?_, hm, hr, rfl⟩
      exact List.forall_mem_cons.2 ⟨hthread, hfront⟩

theorem moves_of_step? {c c' : Crowd κ} (h : c.Step c') : c.Moves c' := by
  obtain ⟨m | thread, h⟩ := h
  · rename_i key
    change (if c.isReady m then _ else _) = _ at h
    split at h
    · cases h
      exact .lease m key
    · cases h
  · obtain ⟨front, l, rest, r, hleases, -, -, hr, rfl⟩ := exists_next?_of_advanceIn? h
    unfold Lease.next? at hr
    cases hstage : l.stage with
    | waiting =>
      rw [hstage] at hr
      obtain ⟨t, ht, rfl⟩ := Option.map_eq_some_iff.1 hr
      exact .acquire hleases hstage ht
    | inside =>
      rw [hstage] at hr
      cases hr
      exact .release hleases hstage
    | leaving =>
      rw [hstage] at hr
      cases hr
      exact .retire hleases hstage
    | retired =>
      rw [hstage] at hr
      cases hr
      exact .discard hleases hstage

end Crowd

end SnapStore
