import SnapStore.Proofs.Path.Relative
import SnapStore.Proofs.Tree.Course

/-!
# What a tree source tells of

The relative paths that a source tells its visitor of are not made up by the visitor. A source
**tells only of** relative paths with some property (`SnapStore.TellsOnly`) if it cannot tell apart
two visitors that do the same with all of these: it never has anything else to show them. Nothing is
supposed of the world, which may change while it is walked through.

The relative paths that are made from names or from checked segments have neither `.` nor `..` among
their segments (`SnapStore.RelativePath.IsUndotted`), and a directory and files in memory tell of no
others (`SnapStore.DirectoryTree.tellsOnly`, `SnapStore.MemoryTree.tellsOnly`). A script tells of
those that it holds.
-/

namespace SnapStore

/-! ### Relative paths that are made -/

namespace RelativePath

/-- No segment is a `.` or a `..`. -/
def IsUndotted (p : RelativePath) : Prop := "." ∉ p.segments ∧ ".." ∉ p.segments

instance (p : RelativePath) : Decidable p.IsUndotted := by
  unfold IsUndotted; infer_instance

theorem isUndotted_of_ofSegments {isFile : Bool} {segments : List String} {p : RelativePath}
    (h : ofSegments isFile segments = .ok p) : p.IsUndotted := by
  obtain ⟨rfl, hplain⟩ := isPlain_of_ofSegments h
  exact ⟨fun hdot => (hplain _ hdot).2.1 rfl, fun hdots => (hplain _ hdots).2.2.1 rfl⟩

theorem isUndotted_of_ofPath {isFile : Bool} {path : Path} {p : RelativePath}
    (h : ofPath isFile path = .ok p) : p.IsUndotted := by
  have hname : ∀ s ∈ p.segments, (Utf8.encode s).IsName :=
    List.forall_mem_map.1 (isName_of_ofPath h)
  refine ⟨fun hdot => (hname _ hdot).2.2.1 ?_, fun hdots => (hname _ hdots).2.2.2 ?_⟩ <;> decide

end RelativePath

/-- No segment of the relative path is a `.` or a `..`. -/
def Entry.IsUndotted (e : Entry) : Prop := ∀ r ∈ e.relative?, r.IsUndotted

/-- No segment of a relative path is a `.` or a `..`. -/
def TreeSnapshot.IsUndotted (t : TreeSnapshot) : Prop := ∀ e ∈ t.entries, e.IsUndotted

/-! ### Sources -/

section Tells

variable {m : Type → Type} [Monad m]

/-- Visitors that do the same with entries whose relative paths have a property. -/
def Visitor.AgreeOn (P : RelativePath → Prop) (v w : Visitor m) : Prop :=
  ∀ d, P d.relative → v.directory d = w.directory d ∧ v.file d = w.file d

/-- **A source that tells only of relative paths with a property.** -/
def TellsOnly (P : RelativePath → Prop) (s : TreeSource m) : Prop :=
  ∀ v w, Visitor.AgreeOn P v w → s v = s w

variable [LawfulMonad m]

/-- What is computed aside goes on only if it gives a value. -/
theorem liftM_bind_congr {α β : Type} {x : Except Error α} {f g : α → ExceptT Failure m β}
    (h : ∀ a, x = .ok a → f a = g a) : (liftM x >>= f) = (liftM x >>= g) := by
  rcases x with e | a
  · rw [DirectoryTree.liftError_error, DirectoryTree.throw_bind, DirectoryTree.throw_bind]
  · rw [DirectoryTree.liftError_ok, pure_bind, pure_bind, h a rfl]

namespace DirectoryTree

variable (calls : Calls m) (t : DirectoryTree) {v w : Visitor m}
  (h : Visitor.AgreeOn RelativePath.IsUndotted v w)

include h

theorem reportAllowed_congr (e : Reached) : reportAllowed calls v e = reportAllowed calls w e := by
  refine bind_congr fun r => ?_
  rcases r with cause | s
  · cases cause <;> rfl
  · refine bind_congr fun seen => liftM_bind_congr fun relative hrelative => ?_
    have hd := h (details calls e.path relative seen)
      (RelativePath.isUndotted_of_ofPath hrelative)
    dsimp only
    cases e.kind with
    | directory => exact hd.1
    | file => exact hd.2
    | link => rfl
    | special => rfl

theorem report_congr (e : Reached) : report calls t v e = report calls t w e := by
  unfold report
  rw [reportAllowed_congr calls h]

theorem visitBelow_congr (levels : Nat) (inside : List Path) (here : Path) (names : List Bytes)
    (listing : Listing) :
    visitBelow calls t v levels inside here names listing =
      visitBelow calls t w levels inside here names listing := by
  induction levels generalizing inside here names listing with
  | zero => rfl
  | succ levels ih =>
    cases listing with
    | error e => rfl
    | ok listed =>
      rw [visitBelow, visitBelow]
      simp only [report_congr calls t h, ih]

omit h in
/-- **A directory tells only of names.** -/
theorem tellsOnly : TellsOnly RelativePath.IsUndotted (t.visit calls) := by
  intro v w h
  have hdirectory : visitDirectory calls t v = visitDirectory calls t w := by
    unfold visitDirectory
    simp only [visitBelow_congr calls t h]
  refine bind_congr fun r => ?_
  rcases r with e | s
  · exact hdirectory
  · dsimp only
    split_ifs
    · -- A single file has the relative path of its name.
      unfold visitFile
      rcases t.root.fileName? with _ | name
      · rfl
      · dsimp only
        split_ifs
        · rfl
        · rcases Utf8.decode? name with _ | text
          · rfl
          · refine liftM_bind_congr fun relative hrelative => bind_congr fun seen => ?_
            exact (h (details calls t.root relative seen)
              (RelativePath.isUndotted_of_ofSegments hrelative)).2
    · exact hdirectory

end DirectoryTree

/-- **Files in memory** are told of with segments that have been checked. -/
theorem MemoryTree.tellsOnly (t : MemoryTree) :
    TellsOnly RelativePath.IsUndotted (t.visit : TreeSource m) := by
  intro v w h
  suffices hfiles : ∀ files seen, t.visitFiles v seen files = t.visitFiles w seen files
    from hfiles _ _
  intro files
  induction files with
  | nil => exact fun _ => rfl
  | cons file files ih =>
    intro seen
    have habove : ∀ d : List String, (do
        let relative ← RelativePath.ofSegments false d
        v.directory (t.details relative [])) = (do
        let relative ← RelativePath.ofSegments false d
        w.directory (t.details relative []) : ExceptT Failure m Unit) := fun d =>
      liftM_bind_congr fun relative hrelative =>
        (h (t.details relative []) (RelativePath.isUndotted_of_ofSegments hrelative)).1
    rw [visitFiles, visitFiles]
    simp only [habove, ih]
    refine bind_congr fun _ => liftM_bind_congr fun relative hrelative => ?_
    rw [(h (t.details relative file.2) (RelativePath.isUndotted_of_ofSegments hrelative)).2]

omit [LawfulMonad m] in
/-- A script tells of what it holds. -/
theorem ScriptedTree.tellsOnly {P : RelativePath → Prop} {t : ScriptedTree}
    (ht : ∀ item ∈ t.items, P item.relative) : TellsOnly P (t.visit : TreeSource m) := by
  intro v w h
  have hitems : ∀ items : List ScriptedItem, (∀ item ∈ items, P item.relative) →
      (items.forM fun item =>
        if item.isDirectory then v.directory (details item) else v.file (details item)) =
      (items.forM fun item =>
        if item.isDirectory then w.directory (details item) else w.file (details item)) := by
    intro items
    induction items with
    | nil => exact fun _ => rfl
    | cons item items ih =>
      intro hP
      obtain ⟨hitem, hrest⟩ := List.forall_mem_cons.1 hP
      have hd := h (details item) hitem
      rw [List.forM, List.forM, hd.1, hd.2, ih hrest]
  unfold visit
  rw [hitems t.items ht]

/-- All sources tell of undotted relative paths, if scripts do. -/
theorem Source.tellsOnly (calls : Calls m) {s : Source}
    (hs : ∀ t, s = .scripted t → ∀ item ∈ t.items, item.relative.IsUndotted) :
    TellsOnly RelativePath.IsUndotted (s.visit calls) := by
  cases s with
  | directory t => exact t.tellsOnly calls
  | memory t => exact t.tellsOnly
  | scripted t => exact ScriptedTree.tellsOnly (hs t rfl)

end Tells

end SnapStore
