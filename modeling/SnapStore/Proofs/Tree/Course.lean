import SnapStore.Proofs.Relator

/-!
# The course of a walk

On a world that stands still, what a walk reports is settled before any visitor is told of it.
`SnapStore.World.course` writes it down: the reports in their order, and the failure that ends them
if there is one. It goes through the directory as `SnapStore.DirectoryTree.visit` does, but it
calls nobody and has no monad to run in.

The main statement is `SnapStore.DirectoryTree.visit_eq_replay`: in every lawful monad, visiting a
tree is telling the visitor of the reports of its course, one after the other. All that is said of
walks elsewhere is said of courses.

Where a walk resolves links it is run as it is, in the monad without effects; only where it talks
to the visitor there is something to be written down instead.
-/

namespace SnapStore

/-! ### Courses -/

/-- One thing that a visitor is told by a walk. -/
structure Report where
  /-- Whether it is told of a directory. -/
  isDirectory : Bool
  /-- The path of the entry. -/
  path : Path
  /-- Where the entry lies below the root. -/
  relative : RelativePath
  /-- What was seen of the entry. -/
  seen : Metadata

/-- What a visitor is told by a walk. -/
@[ext]
structure Course where
  /-- The reports, in order. -/
  reports : List Report
  /-- The failure that ends them. -/
  ending : Option Failure

namespace Course

/-- Nothing is reported. -/
def nothing : Course := ⟨[], none⟩

/-- Nothing is reported but a failure. -/
def fail (e : Failure) : Course := ⟨[], some e⟩

/-- One thing is reported. -/
def one (r : Report) : Course := ⟨[r], none⟩

/-- One course and then another, unless the first ends in a failure. -/
def andThen (c d : Course) : Course :=
  match c.ending with
  | none => ⟨c.reports ++ d.reports, d.ending⟩
  | some _ => c

/-- Courses one after the other, up to the first failure. -/
def all : List Course → Course
  | [] => nothing
  | c :: cs => c.andThen (all cs)

end Course

/-! ### Replaying -/

section Replay

variable {m : Type → Type} [Monad m] (calls : Calls m) (v : Visitor m)

/-- Tells a visitor of one thing. -/
def Report.tell (r : Report) : ExceptT Failure m Unit :=
  if r.isDirectory then v.directory (DirectoryTree.details calls r.path r.relative r.seen)
  else v.file (DirectoryTree.details calls r.path r.relative r.seen)

/-- Tells a visitor of everything, and fails in the end if the course does. -/
def Course.replay (c : Course) : ExceptT Failure m Unit := do
  c.reports.forM (·.tell calls v)
  match c.ending with
  | none => return
  | some e => throw e

namespace Course

variable [LawfulMonad m]

theorem replay_nothing : nothing.replay calls v = pure () := by
  simp [replay, nothing]

theorem replay_fail (e : Failure) : (fail e).replay calls v = throw e := by
  simp [replay, fail]

theorem replay_one (r : Report) : (one r).replay calls v = r.tell calls v := by
  simp [replay, one]

theorem replay_andThen (c d : Course) :
    (c.andThen d).replay calls v = (do c.replay calls v; d.replay calls v) := by
  obtain ⟨reports, ending⟩ := c
  cases ending with
  | none => simp [replay, andThen]
  | some e => simp [replay, andThen]

theorem replay_all {α : Type} (f : α → Course) (xs : List α) :
    (all (xs.map f)).replay calls v = xs.forM fun x => (f x).replay calls v := by
  induction xs with
  | nil => exact replay_nothing calls v
  | cons x xs ih =>
    rw [List.map_cons, all, replay_andThen, ih]
    rfl

end Course

end Replay

/-! ### Dates -/

namespace World

variable {w : World} {p : Path}

/-- What a path leads to, if it leads to anything, was changed last at a time that has a date. -/
def IsDated (w : World) (p : Path) : Prop :=
  ∀ node, w.find true p = .ok node → node.status.modified.Representable

theorem isDated_iff_of_find {node : Node} (h : w.find true p = .ok node) :
    w.IsDated p ↔ node.status.modified.Representable :=
  ⟨fun hdated => hdated node h, fun hdated _ h' => Except.ok.inj (h.symm.trans h') ▸ hdated⟩

theorem isDated_of_refused {e : OsError} (h : w.find true p = .error e) : w.IsDated p :=
  fun _ h' => nomatch h.symm.trans h'

instance (w : World) (p : Path) : Decidable (w.IsDated p) :=
  match h : w.find true p with
  | .error _ => .isTrue (isDated_of_refused h)
  | .ok _ => decidable_of_iff' _ (isDated_iff_of_find h)

end World

/-! ### The course of a walk -/

namespace DirectoryTree

/-- Whether an entry belongs to the tree. -/
def shows (t : DirectoryTree) (e : Reached) : Bool :=
  e.path.toString?.isSome && t.filter.level (.ofNames e.names) (e.kind = .directory) = .allow

/-- Whether what is below an entry may belong to the tree. -/
def enters (t : DirectoryTree) (e : Reached) : Bool :=
  e.path.toString?.isSome && t.filter.level (.ofNames e.names) (e.kind = .directory) ≠ .deny

/-- A fault in a walk. -/
def faultCourse (t : DirectoryTree) (fault : WalkFault) : Course :=
  if fault.isVanished then .nothing else .fail (.error (.walk t.root.display fault.text))

end DirectoryTree

namespace World

open DirectoryTree

variable (w : World) (t : DirectoryTree)

/-- What is known of an entry that belongs to the tree. -/
def look (e : Reached) : Except OsError Status :=
  if e.isFollowed then w.stat e.path else w.linkStat e.path

/-- What is reported of an entry that belongs to the tree. -/
def entryCourse (e : Reached) : Course :=
  match w.look e with
  | .error .notFound => .nothing
  | .error cause =>
    .fail (.error (.read e.path.display (WalkFault.refused (some e.path) cause).text))
  | .ok s =>
    match Metadata.ofStatus s with
    | .error failure => .fail failure
    | .ok seen =>
      match RelativePath.ofPath (e.kind ≠ .directory) (.ofNames e.names) with
      | .error err => .fail (.error err)
      | .ok relative =>
        match e.kind with
        | .directory => .one ⟨true, e.path, relative, seen⟩
        | .file => .one ⟨false, e.path, relative, seen⟩
        | _ => .fail (.error (.unrecognizedFileType e.path.display specialKind))

/-- What a walk comes upon under a name that it has read in a directory at `here`. -/
def reach (inside : List Path) (here : Path) (names : List Bytes) (entry : Bytes × Kind) :
    Except WalkFault Reached :=
  match (arrive (.still w) inside (here.child entry.1) entry.2).run with
  | .error fault => .error fault
  | .ok (kind, isFollowed) => .ok ⟨here.child entry.1, names ++ [entry.1], kind, isFollowed⟩

/-- What is reported of something a walk comes upon, given what is reported below it. -/
def reachedCourse (further : Reached → Course) : Except WalkFault Reached → Course
  | .error fault => t.faultCourse fault
  | .ok e =>
    (if t.shows e then w.entryCourse e else .nothing).andThen
      (if e.kind = .directory && t.enters e then further e else .nothing)

/-- What is reported below a directory. -/
def belowCourse : Nat → List Path → Path → List Bytes → Listing → Course
  | 0, _, _, _, _ => .nothing
  | _ + 1, _, here, _, .error e => t.faultCourse (.refused (some here) e)
  | levels + 1, inside, here, names, .ok listed =>
    .all <| (inOrder listed).map fun entry =>
      w.reachedCourse t
        (fun e => belowCourse levels (e.path :: inside) e.path e.names (w.list e.path))
        (w.reach inside here names entry)

/-- What is reported if the root is a single file. -/
def fileCourse (s : Status) : Course :=
  match t.root.fileName? with
  | none => .nothing
  | some name =>
    if t.filter.level ⟨name⟩ false ≠ .allow then .nothing
    else
      match Utf8.decode? name with
      | none => .nothing
      | some text =>
        match RelativePath.ofSegments true [text] with
        | .error e => .fail (.error e)
        | .ok relative =>
          match Metadata.ofStatus s with
          | .error failure => .fail failure
          | .ok seen => .one ⟨false, t.root, relative, seen⟩

/-- What is reported if the root is to be a directory. -/
def directoryCourse : Course :=
  match w.linkStat t.root with
  | .error e => t.faultCourse (.refused (some t.root) e)
  | .ok s =>
    match (arrive (.still w) [] t.root s.kind).run with
    | .error fault => t.faultCourse fault
    | .ok (kind, _) =>
      if kind = .directory then
        w.belowCourse t maxPath [t.root] t.root [] (w.list t.root)
      else .nothing

/-- **The course of a walk** through a world that stands still. -/
def course : Course :=
  match w.stat t.root with
  | .ok s => if s.kind = .file then fileCourse t s else w.directoryCourse t
  | .error _ => w.directoryCourse t

end World

/-! ### Visits replay courses -/

/-- Computations that do nothing but return a value. -/
def steady (m : Type → Type) [Monad m] [LawfulMonad m] : Relator m Id where
  Rel x y := x = pure y
  pure _ := rfl
  map f x y h := by
    subst h
    exact map_pure f y
  bind {_ _ x y f g} hx hf := by
    subst hx
    rw [pure_bind]
    exact hf y

namespace DirectoryTree

section Raising

variable {m : Type → Type} [Monad m]

theorem liftM_ok {ε α : Type} (a : α) :
    (liftM (Except.ok a : Except ε α) : ExceptT ε m α) = pure a := rfl

theorem liftM_error {ε α : Type} (e : ε) :
    (liftM (Except.error e : Except ε α) : ExceptT ε m α) = throw e := rfl

theorem liftError_ok {α : Type} (a : α) :
    (liftM (Except.ok a : Except Error α) : ExceptT Failure m α) = pure a := rfl

theorem liftError_error {α : Type} (e : Error) :
    (liftM (Except.error e : Except Error α) : ExceptT Failure m α) = throw (.error e) := rfl

theorem throw_bind [LawfulMonad m] {ε α β : Type} (e : ε) (f : α → ExceptT ε m β) :
    (throw e : ExceptT ε m α) >>= f = throw e := by
  simp

end Raising

variable {m : Type → Type} [Monad m] [LawfulMonad m] {calls : Calls m} {w : World}
  (hc : (steady m).AlikeCalls calls (.still w)) (t : DirectoryTree) (v : Visitor m)

theorem raise_eq_replay (fault : WalkFault) :
    t.raise fault = (t.faultCourse fault).replay calls v := by
  unfold raise faultCourse
  split_ifs
  · exact (Course.replay_nothing calls v).symm
  · exact (Course.replay_fail calls v _).symm

include hc

/-- An entry is looked at. -/
theorem look_eq (e : Reached) :
    (if e.isFollowed then liftM (calls.stat e.path) else liftM (calls.linkStat e.path) :
      ExceptT Failure m (Except OsError Status)) = pure (w.look e) := by
  have hstat : calls.stat e.path = pure (w.stat e.path) := hc.stat e.path
  have hlink : calls.linkStat e.path = pure (w.linkStat e.path) := hc.linkStat e.path
  unfold World.look
  split_ifs
  · rw [hstat, liftM_pure]
  · rw [hlink, liftM_pure]

theorem reportAllowed_eq_replay (e : Reached) :
    reportAllowed calls v e = (w.entryCourse e).replay calls v := by
  unfold reportAllowed World.entryCourse
  rw [look_eq hc, pure_bind]
  rcases w.look e with cause | s
  · cases cause with
    | notFound => exact (Course.replay_nothing calls v).symm
    | _ => exact (Course.replay_fail calls v _).symm
  · dsimp only
    rcases Metadata.ofStatus s with failure | seen
    · rw [liftM_error, throw_bind, Course.replay_fail]
    rw [liftM_ok, pure_bind]
    rcases RelativePath.ofPath (e.kind ≠ .directory) (.ofNames e.names) with err | relative
    · rw [liftError_error, throw_bind, Course.replay_fail]
    · rw [liftError_ok, pure_bind]
      cases e.kind with
      | file => exact (Course.replay_one calls v ⟨false, _, _, _⟩).symm
      | directory => exact (Course.replay_one calls v ⟨true, _, _, _⟩).symm
      | link => exact (Course.replay_fail calls v _).symm
      | special => exact (Course.replay_fail calls v _).symm

theorem report_eq_replay (e : Reached) :
    report calls t v e = (do
      (if t.shows e then w.entryCourse e else .nothing).replay calls v
      return t.enters e) := by
  unfold report shows enters
  rcases e.path.toString? with _ | text
  · simp [Course.replay_nothing]
  · cases t.filter.level (.ofNames e.names) (e.kind = .directory) with
    | deny => simp [Course.replay_nothing]
    | traverse => simp [Course.replay_nothing]
    | allow => simp [reportAllowed_eq_replay hc v e]

theorem arrive_eq (inside : List Path) (path : Path) (listed : Kind) :
    (arrive calls inside path listed).run
      = pure (arrive (.still w) inside path listed).run :=
  Relator.arrive hc inside path listed

theorem visitBelow_eq_replay (levels : Nat) (inside : List Path) (here : Path)
    (names : List Bytes) (listing : Listing) :
    visitBelow calls t v levels inside here names listing =
      (w.belowCourse t levels inside here names listing).replay calls v := by
  induction levels generalizing inside here names listing with
  | zero => exact (Course.replay_nothing calls v).symm
  | succ levels ih =>
    cases listing with
    | error e => exact raise_eq_replay t v _
    | ok listed =>
      rw [World.belowCourse, Course.replay_all]
      refine congrArg _ (funext fun entry => ?_)
      have hlist : calls.list (here.child entry.1) = pure (w.list (here.child entry.1)) :=
        hc.list _
      dsimp only
      rw [arrive_eq hc, liftM_pure, pure_bind]
      unfold World.reach
      rcases (arrive (.still w) inside (here.child entry.1) entry.2).run with
        fault | ⟨kind, isFollowed⟩
      · exact raise_eq_replay t v fault
      · dsimp only
        -- A directory is listed before it is reported; here that makes no difference.
        rw [World.reachedCourse, Course.replay_andThen]
        by_cases hkind : kind = .directory
        · simp only [if_pos hkind, hlist, liftM_pure, pure_bind, report_eq_replay hc t v,
            bind_assoc, decide_eq_true hkind, Bool.true_and]
          refine congrArg _ (funext fun _ => ?_)
          split_ifs
          · exact ih _ _ _ _
          · exact (Course.replay_nothing calls v).symm
        · simp only [if_neg hkind, pure_bind, report_eq_replay hc t v, bind_assoc,
            decide_eq_false hkind, Bool.false_and, Bool.false_eq_true, if_false,
            Course.replay_nothing]

omit hc in
theorem visitFile_eq_replay (s : Status) :
    visitFile calls t v s = (World.fileCourse t s).replay calls v := by
  unfold visitFile World.fileCourse
  rcases t.root.fileName? with _ | name
  · exact (Course.replay_nothing calls v).symm
  · dsimp only
    split_ifs
    · exact (Course.replay_nothing calls v).symm
    · rcases Utf8.decode? name with _ | text
      · exact (Course.replay_nothing calls v).symm
      · dsimp only
        rcases RelativePath.ofSegments true [text] with e | relative
        · rw [liftError_error, throw_bind, Course.replay_fail]
        rw [liftError_ok, pure_bind]
        rcases Metadata.ofStatus s with failure | seen
        · rw [liftM_error, throw_bind, Course.replay_fail]
        · rw [liftM_ok, pure_bind]
          exact (Course.replay_one calls v ⟨false, _, _, _⟩).symm

theorem visitDirectory_eq_replay :
    visitDirectory calls t v = (w.directoryCourse t).replay calls v := by
  have hlink : calls.linkStat t.root = pure (w.linkStat t.root) := hc.linkStat _
  have hlist : calls.list t.root = pure (w.list t.root) := hc.list _
  unfold visitDirectory World.directoryCourse
  rw [hlink, liftM_pure, pure_bind]
  rcases w.linkStat t.root with e | s
  · exact raise_eq_replay t v _
  · dsimp only
    rw [arrive_eq hc, liftM_pure, pure_bind]
    rcases (arrive (.still w) [] t.root s.kind).run with fault | ⟨kind, isFollowed⟩
    · exact raise_eq_replay t v fault
    · dsimp only
      split_ifs
      · rw [hlist, liftM_pure, pure_bind]
        exact visitBelow_eq_replay hc t v _ _ _ _ _
      · exact (Course.replay_nothing calls v).symm

/-- **Visiting a tree is replaying its course.** -/
theorem visit_eq_replay : t.visit calls v = (w.course t).replay calls v := by
  have hstat : calls.stat t.root = pure (w.stat t.root) := hc.stat _
  unfold visit World.course
  rw [hstat, liftM_pure, pure_bind]
  rcases w.stat t.root with e | s
  · exact visitDirectory_eq_replay hc t v
  · dsimp only
    split_ifs
    · exact visitFile_eq_replay t v s
    · exact visitDirectory_eq_replay hc t v

end DirectoryTree

end SnapStore
