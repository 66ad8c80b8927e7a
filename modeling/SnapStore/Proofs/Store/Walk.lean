import Mathlib.Data.List.Forall2
import SnapStore.Proofs.Store.Reading
import SnapStore.Proofs.Store.Still

/-!
# The tree of a walk

A store makes an entry of everything that a walk reports. On a world that stands still the entry is
a function of the report (`SnapStore.World.entryOf`), and so the whole tree is one of the course of
the walk: `SnapStore.World.bareHost_snapshotTree` says which.
-/

namespace SnapStore.World

variable (w : World)

/-- The entry that is made of a report. -/
def entryOf (r : Report) : Except Failure Entry := do
  let path ← w.keyOf r.path
  if r.isDirectory then
    return .directory path r.relative false
  else
    match w.hashed r.path with
    | .ok digest => return .file path r.relative false ⟨digest, r.seen.modified⟩
    | .error (.notFound _) => return .missing path r.relative.name
    | .error e => throw (.error e)

/-- The tree that is made of the course of a walk. -/
def treeOf (base : Option String) (c : Course) : Except Failure TreeSnapshot := do
  let entries ← c.reports.mapM w.entryOf
  match c.ending with
  | none => return ⟨base, entries⟩
  | some e => throw e

/-! ### Collecting entries -/

/-- A value that is computed aside is there to go on with. -/
theorem run_lift_bind {α β : Type} (x : Except Failure α)
    (f : α → ExceptT Failure (Collecting Id) β) (seen : List Entry) :
    ((ExceptT.mk (StateT.lift (x : Id (Except Failure α))) >>= f).run seen : Id _) =
      match x with
      | .ok a => (f a).run seen
      | .error e => (.error e, seen) := by
  rcases x with e | a <;> rfl

/-- The entry that is made of a report is collected. -/
theorem run_tell (r : Report) (seen : List Entry) :
    ((r.tell w.bareHost.calls.lift w.bareHost.collector).run seen : Id _) =
      match w.entryOf r with
      | .ok e => (.ok (), e :: seen)
      | .error err => (.error err, seen) := by
  have hkey : (w.bareHost.key r.path).run = w.keyOf r.path :=
    Host.bareHost_key w r.path
  have hdigest : w.bareHost.hasher.file r.path r.seen = w.hashed r.path :=
    sha256_file (m := Id) w r.path r.seen
  unfold Report.tell entryOf
  by_cases hkind : r.isDirectory = true
  · rw [if_pos hkind]
    refine (run_lift_bind (w.bareHost.key r.path).run _ seen).trans ?_
    rw [hkey]
    dsimp only [DirectoryTree.details]
    rcases w.keyOf r.path with e | path
    · rfl
    · simp only [if_pos hkind]
      rfl
  · rw [if_neg hkind]
    refine (run_lift_bind (w.bareHost.key r.path).run _ seen).trans ?_
    rw [hkey]
    dsimp only [DirectoryTree.details]
    rcases w.keyOf r.path with e | path
    · rfl
    · -- The digest is computed aside, and whatever comes of it the collection goes on.
      have hbind : ∀ f : Except Error Digest → ExceptT Failure (Collecting Id) Unit,
          (ExceptT.lift (StateT.lift (w.bareHost.hasher.file r.path r.seen)) >>= f).run seen =
            (f (w.hashed r.path)).run seen := by
        intro f
        rw [← hdigest]
        rfl
      refine (hbind _).trans ?_
      simp only [if_neg hkind]
      rcases w.hashed r.path with e | digest
      · cases e <;> rfl
      · rfl

/-- The entries that are made of the reports are collected, one after the other. -/
theorem run_forM_tell (reports : List Report) (seen : List Entry) :
    ∃ seen', ((reports.forM (·.tell w.bareHost.calls.lift w.bareHost.collector)).run seen : Id _) =
        ((reports.mapM w.entryOf).map fun _ => (), seen') ∧
      ∀ es, reports.mapM w.entryOf = .ok es → seen' = es.reverse ++ seen := by
  induction reports generalizing seen with
  | nil => exact ⟨seen, rfl, fun es hes => by cases hes; rfl⟩
  | cons r reports ih =>
    have htell := run_tell w r seen
    have hcons : (r :: reports).forM (·.tell w.bareHost.calls.lift w.bareHost.collector) =
        r.tell w.bareHost.calls.lift w.bareHost.collector >>= fun _ =>
          reports.forM (·.tell w.bareHost.calls.lift w.bareHost.collector) := rfl
    rw [hcons, List.mapM_cons]
    -- Entries are collected the latest first, up to the first report that makes none.
    rcases hr : w.entryOf r with err | e
    · rw [hr] at htell
      refine ⟨seen, ?_, nofun⟩
      exact run_bind_of_error htell
    · rw [hr] at htell
      obtain ⟨seen', hrest, hseen⟩ := ih (e :: seen)
      refine ⟨seen', ?_, fun es hes => ?_⟩
      · rw [run_bind_of_ok htell]
        refine hrest.trans ?_
        rcases reports.mapM w.entryOf with err | es <;> rfl
      · rcases hes' : reports.mapM w.entryOf with err | es'
        · rw [hes'] at hes
          cases hes
        · rw [hes'] at hes
          cases hes
          rw [hseen es' hes', List.reverse_cons, List.append_assoc]
          rfl

/-- What is collected makes a tree, if the visit comes to its end. -/
theorem run_walk (base : Option String) (source : TreeSource (Collecting Id)) :
    (w.bareHost.walk base source).run =
      match (source w.bareHost.collector).run.run [] with
      | (.ok (), entries) => .ok ⟨base, entries.reverse⟩
      | (.error e, _) => .error e := by
  have hlift : ∀ {α β : Type} (x : Id α) (f : α → ExceptT Failure Id β),
      (ExceptT.lift x >>= f).run = (f x).run := fun _ _ => rfl
  refine (hlift _ _).trans ?_
  rcases (source w.bareHost.collector).run.run [] with ⟨_ | _, entries⟩ <;> rfl

/-- **A walk yields the tree of its course.** -/
theorem bareHost_walk (base : Option String) (t : DirectoryTree) :
    (w.bareHost.walk base (t.visit w.bareHost.calls.lift)).run = w.treeOf base (w.course t) := by
  have hsteady : (steady (Collecting Id)).AlikeCalls w.bareHost.calls.lift (.still w) := by
    rw [show w.bareHost.calls.lift = (Calls.live (pure w) : Calls (Collecting Id)) from
      lift_live (m := Id) w]
    exact Relator.calls_live rfl
  obtain ⟨seen, hrun, hseen⟩ := run_forM_tell w (w.course t).reports []
  have hwalk : (w.bareHost.walk base (t.visit w.bareHost.calls.lift)).run =
      match ((w.course t).replay w.bareHost.calls.lift w.bareHost.collector).run.run [] with
      | (.ok (), entries) => .ok ⟨base, entries.reverse⟩
      | (.error e, _) => .error e := by
    rw [← DirectoryTree.visit_eq_replay hsteady]
    exact run_walk w base _
  rw [hwalk, treeOf, StateT.run]
  unfold Course.replay
  rcases hentries : (w.course t).reports.mapM w.entryOf with err | es
  · rw [hentries] at hrun
    rw [run_bind_of_error hrun]
    rfl
  · rw [hentries] at hrun
    rw [run_bind_of_ok hrun, hseen es hentries]
    rcases (w.course t).ending with _ | e
    · exact congrArg (fun entries => Except.ok (TreeSnapshot.mk base entries)) (by simp)
    · rfl

/-- **The entry of a path** is computed from its key. -/
theorem bareHost_snapshotSelf (p : Path) :
    (w.bareHost.snapshotSelf p).run = (w.keyOf p).bind (Host.rightEntry w) := by
  unfold Host.snapshotSelf
  rw [Host.bareHost_key, ExceptT.run_bind]
  rcases w.keyOf p with e | key
  · rfl
  · refine congrArg ExceptT.run ?_
    rw [show w.bareHost.entries = .nothing from rfl]
    exact Host.bareHost_cached w .entry key _

/-- **The aggregate of a path** is computed from its key. -/
theorem bareHost_snapshotAll (st : Strategy) (p : Path) :
    (w.bareHost.snapshotAll st p).run = (w.keyOf p).bind (Host.rightAggregate w st) := by
  unfold Host.snapshotAll
  rw [Host.bareHost_key, ExceptT.run_bind]
  rcases w.keyOf p with e | key
  · rfl
  · refine congrArg ExceptT.run ?_
    rw [show w.bareHost.aggregates = .nothing from rfl]
    exact Host.bareHost_cached w .aggregate key _

/-- **The tree of a directory**, for whatever spelling of its path. -/
theorem bareHost_snapshotTree (t : DirectoryTree) :
    (w.bareHost.snapshotTree t).run =
      (w.keyOf t.root).bind fun key => w.treeOf (some key) (w.course t) := by
  have hcompute : ∀ key, (if t.isFiltered then
      w.bareHost.walk (some key) (t.visit w.bareHost.calls.lift)
      else w.bareHost.cached w.bareHost.trees .tree key
        (w.bareHost.walk (some key) (t.visit w.bareHost.calls.lift))).run =
      w.treeOf (some key) (w.course t) := by
    intro key
    rw [show w.bareHost.trees = .nothing from rfl, Host.bareHost_cached, ite_self]
    exact bareHost_walk w (some key) t
  unfold Host.snapshotTree
  rw [Host.bareHost_key, ExceptT.run_bind]
  rcases hkey : w.keyOf t.root with e | key
  · rfl
  · exact hcompute key

/-- A canonical path is its own key, and its entry is the right one. -/
theorem bareHost_snapshotSelf_of_canonical {c : String}
    (hc : (Path.ofString c).canonical w.workingDirectory = .ok c) :
    (w.bareHost.snapshotSelf (.ofString c)).run = Host.rightEntry w c := by
  rw [bareHost_snapshotSelf, keyOf_eq_ok_iff.2 hc]
  rfl

/-- Its tree is that of a walk that begins there. -/
theorem bareHost_snapshotTree_of_canonical {c : String}
    (hc : (Path.ofString c).canonical w.workingDirectory = .ok c) :
    (w.bareHost.snapshotTree (.all (.ofString c))).run =
      w.treeOf (some c) (w.course (.all (.ofString c))) := by
  rw [bareHost_snapshotTree, show (DirectoryTree.all (.ofString c)).root = .ofString c from rfl,
    keyOf_eq_ok_iff.2 hc]
  rfl

/-! ### Trees that are made -/

theorem forall₂_of_mapM {α β : Type} {f : α → Except Failure β} {xs : List α} {ys : List β}
    (h : xs.mapM f = .ok ys) : List.Forall₂ (fun x y => x ∈ xs ∧ f x = .ok y) xs ys := by
  induction xs generalizing ys with
  | nil =>
    cases h
    exact .nil
  | cons x xs ih =>
    rw [List.mapM_cons] at h
    rcases hx : f x with e | y
    · rw [hx] at h
      cases h
    · rw [hx] at h
      rcases hxs : xs.mapM f with e | ys'
      · rw [hxs] at h
        cases h
      · rw [hxs] at h
        cases h
        refine .cons ⟨by simp, hx⟩ ((ih hxs).imp fun x' y' hmem => ?_)
        exact ⟨List.mem_cons_of_mem _ hmem.1, hmem.2⟩

theorem exists_of_mem_mapM {α β : Type} {f : α → Except Failure β} {xs : List α} {ys : List β}
    (h : xs.mapM f = .ok ys) {y : β} (hy : y ∈ ys) : ∃ x ∈ xs, f x = .ok y := by
  obtain ⟨hlength, hget⟩ := List.forall₂_iff_get.1 (forall₂_of_mapM h)
  obtain ⟨⟨i, hi⟩, rfl⟩ := List.mem_iff_get.1 hy
  obtain ⟨hmem, hx⟩ := hget i (hlength ▸ hi) hi
  exact ⟨_, hmem, hx⟩

theorem exists_mapM {α β : Type} {f : α → Except Failure β} {xs : List α} {P : α → β → Prop}
    (h : ∀ x ∈ xs, ∃ y, f x = .ok y ∧ P x y) :
    ∃ ys, xs.mapM f = .ok ys ∧ List.Forall₂ P xs ys := by
  induction xs with
  | nil => exact ⟨[], rfl, .nil⟩
  | cons x xs ih =>
    obtain ⟨y, hy, hxy⟩ := h x (by simp)
    obtain ⟨ys, hys, hxs⟩ := ih fun x' hx' => h x' (List.mem_cons_of_mem _ hx')
    refine ⟨y :: ys, ?_, .cons hxy hxs⟩
    rw [List.mapM_cons, hy, hys]
    rfl

/-- A tree is made of a course that comes to its end. -/
theorem of_treeOf {base : Option String} {c : Course} {t : TreeSnapshot}
    (h : w.treeOf base c = .ok t) :
    c.ending = none ∧ t.base = base ∧ c.reports.mapM w.entryOf = .ok t.entries := by
  unfold treeOf at h
  rcases hentries : c.reports.mapM w.entryOf with e | es
  · rw [hentries] at h
    cases h
  · rw [hentries] at h
    rcases hending : c.ending with _ | e
    · rw [hending] at h
      cases h
      exact ⟨rfl, rfl, rfl⟩
    · rw [hending] at h
      cases h

end SnapStore.World
