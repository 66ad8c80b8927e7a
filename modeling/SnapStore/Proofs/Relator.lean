import Mathlib.Tactic.SplitIfs
import SnapStore.Tree.Source

/-!
# Programs that run alike in two monads

Every program of the library is written for an arbitrary monad, and learns about the world only
through the `SnapStore.Calls` and the other records of actions that it is given. So it behaves
alike in two monads as soon as these records do. This file says what *alike* means and proves it
of everything that visits trees.

A `SnapStore.Relator` between two monads says which computations are alike. It has to respect
`pure`, `map` and `>>=`, and nothing else is known of it; values that pass from one step to the
next are equal on both sides. What a relator says of a monad it says of the monads built on it
(`SnapStore.Relator.except`, `SnapStore.Relator.state`).

The main statements are that alike system calls and alike visitors give alike visits:

* `SnapStore.Relator.visit_directoryTree` for directories on disk;
* `SnapStore.Relator.visit_memoryTree` and `SnapStore.Relator.visit_scriptedTree` for trees that
  are not on disk.

A `SnapStore.PureSource` is a tree source of which the same is known without looking at its
program.

Relators are used to say very different things: that a computation gives a known value and
preserves an invariant, or that it leaves a state as it is.
-/

namespace SnapStore

/-- **Which computations of two monads are alike.** -/
structure Relator (m n : Type → Type) [Monad m] [Monad n] where
  /-- Two computations are alike. -/
  Rel : {α : Type} → m α → n α → Prop
  /-- A value is alike in both monads. -/
  pure : ∀ {α : Type} (a : α), Rel (Pure.pure a : m α) (Pure.pure a : n α)
  /-- Results can be transformed. -/
  map : ∀ {α β : Type} (f : α → β) {x : m α} {y : n α}, Rel x y → Rel (f <$> x) (f <$> y)
  /-- Computations can be continued. -/
  bind : ∀ {α β : Type} {x : m α} {y : n α} {f : α → m β} {g : α → n β},
    Rel x y → (∀ a, Rel (f a) (g a)) → Rel (x >>= f) (y >>= g)

namespace Relator

variable {m n : Type → Type} [Monad m] [Monad n] (R : Relator m n)

/-! ### Relators for richer monads -/

/-- The same with failures, which are equal on both sides. -/
def except (ε : Type) : Relator (ExceptT ε m) (ExceptT ε n) where
  Rel x y := R.Rel x.run y.run
  pure a := R.pure (Except.ok a)
  map f _ _ h := R.bind h fun r =>
    match r with
    | .ok a => R.pure (Except.ok (f a))
    | .error e => R.pure (Except.error e)
  bind hx hf := R.bind hx fun r =>
    match r with
    | .ok a => hf a
    | .error e => R.pure (Except.error e)

/-- The same with a state, which is equal on both sides at all times. -/
def state (σ : Type) : Relator (StateT σ m) (StateT σ n) where
  Rel x y := ∀ s, R.Rel (x.run s) (y.run s)
  pure a s := R.pure (a, s)
  map f _ _ h s := R.bind (h s) fun r => R.pure (f r.1, r.2)
  bind hx hf s := R.bind (hx s) fun r => hf r.1 r.2

variable {R} {ε σ α β : Type}

theorem lift {x : m α} {y : n α} (h : R.Rel x y) :
    (R.except ε).Rel (liftM x : ExceptT ε m α) (liftM y : ExceptT ε n α) :=
  R.map Except.ok h

theorem liftExcept (x : Except ε α) :
    (R.except ε).Rel (liftM x : ExceptT ε m α) (liftM x : ExceptT ε n α) :=
  R.pure x

theorem liftError (x : Except Error α) :
    (R.except Failure).Rel (liftM x : ExceptT Failure m α) (liftM x : ExceptT Failure n α) :=
  R.pure (x.mapError Failure.error)

theorem throw (e : ε) :
    (R.except ε).Rel (throw e : ExceptT ε m α) (throw e : ExceptT ε n α) :=
  R.pure (Except.error e)

theorem forM {xs : List α} {f : α → m Unit} {g : α → n Unit} (h : ∀ x ∈ xs, R.Rel (f x) (g x)) :
    R.Rel (xs.forM f) (xs.forM g) := by
  induction xs with
  | nil => exact R.pure ()
  | cons x xs ih =>
    exact R.bind (h x (by simp)) fun _ => ih fun y hy => h y (List.mem_cons_of_mem _ hy)

theorem liftState {x : m α} {y : n α} (h : R.Rel x y) :
    (R.state σ).Rel (StateT.lift x) (StateT.lift y) :=
  fun s => R.bind h fun a => R.pure (a, s)

/-! ### Alike records of actions -/

variable (R)

/-- System calls that are alike. -/
structure AlikeCalls (c : Calls m) (d : Calls n) : Prop where
  /-- The current directory. -/
  workingDirectory : R.Rel c.workingDirectory d.workingDirectory
  /-- What a path leads to. -/
  stat : ∀ p, R.Rel (c.stat p) (d.stat p)
  /-- What a path leads to, a link at its end not followed. -/
  linkStat : ∀ p, R.Rel (c.linkStat p) (d.linkStat p)
  /-- What is in a directory. -/
  list : ∀ p, R.Rel (c.list p) (d.list p)
  /-- The spot a path leads to. -/
  identify : ∀ p, R.Rel (c.identify p) (d.identify p)
  /-- The content of what a path leads to. -/
  openReader : ∀ p, R.Rel (c.openReader p) (d.openReader p)

/-- Hashers that are alike. -/
structure AlikeHashers (h : Hasher m) (k : Hasher n) : Prop where
  /-- Digests of what is read. -/
  content : ∀ what r, R.Rel (h.content what r) (k.content what r)
  /-- Digests of files. -/
  file : ∀ p seen, R.Rel (h.file p seen) (k.file p seen)

/-- Details of entries that are alike. -/
structure AlikeDetails (d : Details m) (e : Details n) : Prop where
  /-- The path is the same. -/
  path : d.path = e.path
  /-- The relative path is the same. -/
  relative : d.relative = e.relative
  /-- The modification time is the same. -/
  modified : d.modified = e.modified
  /-- Opening the content is alike. -/
  openContent : (R.except Error).Rel d.openContent e.openContent
  /-- Hashing the content is alike, by hashers that are. -/
  digest : ∀ h k, R.AlikeHashers h k → (R.except Error).Rel (d.digest h) (e.digest k)

/-- Visitors that are alike. -/
structure AlikeVisitors (v : Visitor m) (w : Visitor n) : Prop where
  /-- They are told of directories alike. -/
  directory : ∀ d e, R.AlikeDetails d e → (R.except Failure).Rel (v.directory d) (w.directory e)
  /-- They are told of files alike. -/
  file : ∀ d e, R.AlikeDetails d e → (R.except Failure).Rel (v.file d) (w.file e)

/-- Tree sources that are alike. -/
def AlikeSources (s : TreeSource m) (t : TreeSource n) : Prop :=
  ∀ v w, R.AlikeVisitors v w → (R.except Failure).Rel (s v) (t w)

variable {R}

/-! ### Reading and hashing -/

section Reading

variable {c : Calls m} {d : Calls n}

theorem openFile (hc : R.AlikeCalls c d) (p : Path) :
    (R.except Error).Rel (SnapStore.openFile c p) (SnapStore.openFile d p) := by
  refine (R.except Error).bind (lift (hc.openReader p)) fun r => ?_
  cases r with
  | ok reader => exact (R.except Error).pure reader
  | error e => exact throw _

theorem digestByReading (p : Path) {x : ExceptT Error m Reader} {y : ExceptT Error n Reader}
    (hx : (R.except Error).Rel x y) {h : Hasher m} {k : Hasher n} (hh : R.AlikeHashers h k) :
    (R.except Error).Rel (SnapStore.digestByReading p x h) (SnapStore.digestByReading p y k) :=
  (R.except Error).bind hx fun r => hh.content p.display r

theorem sha256 (hc : R.AlikeCalls c d) : R.AlikeHashers (.sha256 c) (.sha256 d) where
  content what r := R.pure (r.digest what)
  file p _ := (R.except Error).bind (openFile hc p) fun r => R.pure (r.digest p.display)

end Reading

/-! ### Walking through a directory -/

section Walking

open DirectoryTree

variable {c : Calls m} {d : Calls n} (hc : R.AlikeCalls c d) (t : DirectoryTree)
  {v : Visitor m} {w : Visitor n} (hv : R.AlikeVisitors v w)

include hc

theorem details (path : Path) (relative : RelativePath) (seen : Metadata) :
    R.AlikeDetails (DirectoryTree.details c path relative seen)
      (DirectoryTree.details d path relative seen) where
  path := rfl
  relative := rfl
  modified := rfl
  openContent := openFile hc path
  digest _ _ hh := hh.file path seen

theorem findLoop (child : Path) (spot : Spot) (inside : List Path) :
    (R.except WalkFault).Rel (DirectoryTree.findLoop c child spot inside)
      (DirectoryTree.findLoop d child spot inside) := by
  induction inside with
  | nil => exact (R.except WalkFault).pure ()
  | cons ancestor outer ih =>
    refine (R.except WalkFault).bind (lift (hc.identify ancestor)) fun r => ?_
    cases r with
    | error e => exact throw _
    | ok other =>
      dsimp only
      split_ifs
      · exact throw _
      · exact ih

theorem arrive (inside : List Path) (path : Path) (listed : Kind) :
    R.Rel (DirectoryTree.arrive c inside path listed).run
      (DirectoryTree.arrive d inside path listed).run := by
  change (R.except WalkFault).Rel _ _
  unfold DirectoryTree.arrive
  split_ifs
  · exact (R.except WalkFault).pure (listed, false)
  · refine (R.except WalkFault).bind (lift (hc.stat path)) fun r => ?_
    cases r with
    | error e => exact throw _
    | ok s =>
      dsimp only
      split_ifs
      · refine (R.except WalkFault).bind (lift (hc.identify path)) fun r => ?_
        cases r with
        | error e => exact (R.except WalkFault).bind (throw _) fun _ => (R.except WalkFault).pure _
        | ok spot =>
          exact (R.except WalkFault).bind (findLoop hc path spot inside) fun _ =>
            (R.except WalkFault).pure _
      · exact (R.except WalkFault).pure _

omit hc in
theorem raise (fault : WalkFault) :
    (R.except Failure).Rel (t.raise fault : ExceptT Failure m Unit)
      (t.raise fault : ExceptT Failure n Unit) := by
  unfold DirectoryTree.raise
  split_ifs
  · exact (R.except Failure).pure ()
  · exact throw _

include hv

theorem reportAllowed (e : Reached) :
    (R.except Failure).Rel (DirectoryTree.reportAllowed c v e)
      (DirectoryTree.reportAllowed d w e) := by
  have hstat : (R.except Failure).Rel
      (if e.isFollowed then liftM (c.stat e.path) else liftM (c.linkStat e.path))
      (if e.isFollowed then liftM (d.stat e.path) else liftM (d.linkStat e.path)) := by
    split_ifs
    · exact lift (hc.stat e.path)
    · exact lift (hc.linkStat e.path)
  refine (R.except Failure).bind hstat fun r => ?_
  rcases r with cause | s
  · cases cause <;> first | exact (R.except Failure).pure () | exact throw _
  · refine (R.except Failure).bind (liftExcept _) fun seen => ?_
    refine (R.except Failure).bind (liftError _) fun relative => ?_
    have hd := details hc e.path relative seen
    dsimp only
    cases e.kind with
    | directory => exact hv.directory _ _ hd
    | file => exact hv.file _ _ hd
    | link => exact throw _
    | special => exact throw _

theorem report (e : Reached) :
    (R.except Failure).Rel (DirectoryTree.report c t v e) (DirectoryTree.report d t w e) := by
  unfold DirectoryTree.report
  split_ifs
  · exact (R.except Failure).pure false
  · cases t.filter.level (.ofNames e.names) (e.kind = .directory) with
    | deny => exact (R.except Failure).pure false
    | traverse => exact (R.except Failure).pure true
    | allow =>
      exact (R.except Failure).bind (reportAllowed hc hv e) fun _ => (R.except Failure).pure true

theorem visitBelow (levels : Nat) (inside : List Path) (here : Path) (names : List Bytes)
    (listing : Listing) :
    (R.except Failure).Rel (DirectoryTree.visitBelow c t v levels inside here names listing)
      (DirectoryTree.visitBelow d t w levels inside here names listing) := by
  induction levels generalizing inside here names listing with
  | zero => exact (R.except Failure).pure ()
  | succ levels ih =>
    cases listing with
    | error e => exact raise t _
    | ok listed =>
      refine forM fun entry _ => ?_
      refine (R.except Failure).bind (lift (arrive hc inside _ entry.2)) fun r => ?_
      rcases r with fault | ⟨kind, isFollowed⟩
      · exact raise t fault
      · have hlater : ∀ listing : Listing, (R.except Failure).Rel
            (do
              let goOn ← DirectoryTree.report c t v
                ⟨here.child entry.1, names ++ [entry.1], kind, isFollowed⟩
              if kind = .directory && goOn then
                DirectoryTree.visitBelow c t v levels (here.child entry.1 :: inside)
                  (here.child entry.1) (names ++ [entry.1]) listing)
            (do
              let goOn ← DirectoryTree.report d t w
                ⟨here.child entry.1, names ++ [entry.1], kind, isFollowed⟩
              if kind = .directory && goOn then
                DirectoryTree.visitBelow d t w levels (here.child entry.1 :: inside)
                  (here.child entry.1) (names ++ [entry.1]) listing) := by
          intro listing
          refine (R.except Failure).bind (report hc t hv _) fun goOn => ?_
          split_ifs
          · exact ih _ _ _ _
          · exact (R.except Failure).pure ()
        dsimp only
        split_ifs
        · exact (R.except Failure).bind (lift (hc.list _)) hlater
        · exact (R.except Failure).bind ((R.except Failure).pure _) hlater

theorem visitFile (s : Status) :
    (R.except Failure).Rel (DirectoryTree.visitFile c t v s) (DirectoryTree.visitFile d t w s) := by
  unfold DirectoryTree.visitFile
  cases t.root.fileName? with
  | none => exact (R.except Failure).pure ()
  | some name =>
    dsimp only
    split_ifs
    · exact (R.except Failure).pure ()
    · cases Utf8.decode? name with
      | none => exact (R.except Failure).pure ()
      | some text =>
        refine (R.except Failure).bind (liftError _) fun relative => ?_
        exact (R.except Failure).bind (liftExcept _) fun seen =>
          hv.file _ _ (details hc t.root relative seen)

theorem visitDirectory :
    (R.except Failure).Rel (DirectoryTree.visitDirectory c t v)
      (DirectoryTree.visitDirectory d t w) := by
  refine (R.except Failure).bind (lift (hc.linkStat t.root)) fun r => ?_
  rcases r with e | s
  · exact raise t _
  · refine (R.except Failure).bind (lift (arrive hc [] t.root s.kind)) fun r => ?_
    rcases r with fault | ⟨kind, isFollowed⟩
    · exact raise t fault
    · dsimp only
      split_ifs
      · exact (R.except Failure).bind (lift (hc.list t.root)) fun listing =>
          visitBelow hc t hv _ _ _ _ _
      · exact (R.except Failure).pure ()

omit hv in
/-- **Walks are alike** if the system calls are. -/
theorem visit_directoryTree : R.AlikeSources (t.visit c) (t.visit d) := by
  intro v w hv
  refine (R.except Failure).bind (lift (hc.stat t.root)) fun r => ?_
  rcases r with e | s
  · exact visitDirectory hc t hv
  · dsimp only
    split_ifs
    · exact visitFile hc t hv s
    · exact visitDirectory hc t hv

end Walking

/-! ### Trees that are not on disk -/

theorem visit_scriptedTree (t : ScriptedTree) :
    R.AlikeSources (t.visit : TreeSource m) (t.visit : TreeSource n) := by
  intro v w hv
  refine (R.except Failure).bind (forM fun item _ => ?_) fun _ => ?_
  · have hopen : (R.except Error).Rel
        (ExceptT.mk (Pure.pure (item.content.map Reader.ofBytes)))
        (ExceptT.mk (Pure.pure (item.content.map Reader.ofBytes))) := R.pure _
    have hd : R.AlikeDetails (ScriptedTree.details item) (ScriptedTree.details item) :=
      ⟨rfl, rfl, rfl, hopen, fun _ _ hh => digestByReading item.path hopen hh⟩
    split_ifs
    · exact hv.directory _ _ hd
    · exact hv.file _ _ hd
  · cases t.ending with
    | none => exact (R.except Failure).pure ()
    | some e => exact throw _

theorem visit_memoryTree (t : MemoryTree) :
    R.AlikeSources (t.visit : TreeSource m) (t.visit : TreeSource n) := by
  intro v w hv
  have hd : ∀ relative content,
      R.AlikeDetails (t.details relative content) (t.details relative content) := by
    intro relative content
    have hopen : (R.except Error).Rel (Pure.pure (Reader.ofBytes content))
        (Pure.pure (Reader.ofBytes content)) := (R.except Error).pure _
    exact ⟨rfl, rfl, rfl, hopen, fun _ _ hh => digestByReading _ hopen hh⟩
  suffices h : ∀ files seen,
      (R.except Failure).Rel (t.visitFiles v seen files) (t.visitFiles w seen files) from h _ _
  intro files
  induction files with
  | nil => exact fun _ => (R.except Failure).pure ()
  | cons file files ih =>
    intro seen
    refine (R.except Failure).bind (forM fun above _ => ?_) fun _ => ?_
    · exact (R.except Failure).bind (liftError _) fun relative => hv.directory _ _ (hd relative [])
    · refine (R.except Failure).bind (liftError _) fun relative => ?_
      exact (R.except Failure).bind (hv.file _ _ (hd relative file.2)) fun _ => ih _

theorem visit_source {c : Calls m} {d : Calls n} (hc : R.AlikeCalls c d) (s : Source) :
    R.AlikeSources (s.visit c) (s.visit d) := by
  cases s with
  | directory t => exact visit_directoryTree hc t
  | memory t => exact visit_memoryTree t
  | scripted t => exact visit_scriptedTree t

/-! ### Calls that are answered from a world -/

theorem calls_live {now : m World} {now' : n World} (h : R.Rel now now') :
    R.AlikeCalls (.live now) (.live now') where
  workingDirectory := R.bind h fun _ => R.pure _
  stat _ := R.bind h fun _ => R.pure _
  linkStat _ := R.bind h fun _ => R.pure _
  list _ := R.bind h fun _ => R.pure _
  identify _ := R.bind h fun _ => R.pure _
  openReader _ := R.bind h fun _ => R.pure _

end Relator

/-! ### Pure sources -/

/-- **A tree source that deals with nobody but its visitor.** It may answer to what the visitor
says in any way, but it can be run in every monad and is alike in all of them. -/
structure PureSource where
  /-- What is reported, in any monad. -/
  visit : {m : Type → Type} → [Monad m] → TreeSource m
  /-- The reports are the same in all monads. -/
  alike : ∀ {m n : Type → Type} [Monad m] [Monad n] (R : Relator m n),
    R.AlikeSources (visit : TreeSource m) (visit : TreeSource n)

namespace PureSource

/-- Files in memory. -/
def ofMemory (t : MemoryTree) : PureSource := ⟨t.visit, fun _ => Relator.visit_memoryTree t⟩

/-- A script. -/
def ofScript (t : ScriptedTree) : PureSource := ⟨t.visit, fun _ => Relator.visit_scriptedTree t⟩

/-- What is below a directory of a world that stands still. -/
def ofDirectory (w : World) (t : DirectoryTree) : PureSource :=
  ⟨t.visit (.live (pure w)), fun R => R.visit_directoryTree (Relator.calls_live (R.pure w)) t⟩

end PureSource

end SnapStore
