import SnapStore.Proofs.Store.Alike
import SnapStore.Proofs.Store.Reading
import SnapStore.Proofs.Tree.Filtered
import SnapStore.Session.Recorder

/-!
# Recorded visits

A recorder that only looks on does not disturb the world that it is shown
(`SnapStore.Recorder.LooksOn`). What it writes down is then settled by the course of the walk,
report by report (`SnapStore.Session.visit_eq`), and what is true of courses is true of what is
written down. `SnapStore.Session.visit_filtered` says so of filters.
-/

namespace SnapStore

/-- A recorder that never stops the visit and does nothing to the world. -/
structure Recorder.LooksOn (r : Recorder) : Prop where
  /-- The visit goes on to its end. -/
  stopAt : r.stopAt = none
  /-- The world is left alone. -/
  actions : r.actions = []

namespace World

variable (w : World)

/-- What opening and reading a path gives. -/
def reading (p : Path) : Reading :=
  match w.openReader p with
  | .error e => .refused (.ofOs p.display e)
  | .ok reader =>
    match reader.drain with
    | ⟨content, none⟩ => .content content
    | ⟨_, some _⟩ => .unreadable

/-- What a recorder that looks on writes down of a report. -/
def sighting (r : Recorder) (report : Report) : Sighting where
  isDirectory := report.isDirectory
  path := report.path
  relative := report.relative
  modified := report.seen.modified
  inspected :=
    if report.isDirectory && !r.opensDirectories then none
    else some (w.reading report.path, w.hashed report.path)

end World

/-! ### Computations that leave a state as it is -/

/-- Computations that do the same in a certain state and leave it as it is. -/
def leaving {σ : Type} (s : σ) : Relator (StateM σ) (StateM σ) where
  Rel x y := x s = y s ∧ (x s).2 = s
  pure _ := ⟨rfl, rfl⟩
  map f x y h := by
    refine ⟨?_, h.2⟩
    change (f (x s).1, (x s).2) = (f (y s).1, (y s).2)
    rw [h.1]
  bind {_ _ x y f g} hx hf := by
    change f (x s).1 (x s).2 = g (y s).1 (y s).2 ∧ (f (x s).1 (x s).2).2 = s
    rw [← hx.1, hx.2]
    exact hf _

namespace Session

variable {s : Session} {r : Recorder} (hr : r.LooksOn)

theorem leaving_calls (s : Session) :
    (leaving s).AlikeCalls systemCalls (.live (pure s.world)) :=
  Relator.calls_live ⟨rfl, rfl⟩

/-- Reading the world leaves a session as it is. -/
theorem leaving_hasher (s : Session) :
    ((leaving s).state (List Sighting)).AlikeHashers (Hasher.sha256 systemCalls).lift
      (Hasher.sha256 systemCalls).lift :=
  Relator.hasher_lift (Relator.sha256 (Relator.calls_live ⟨rfl, rfl⟩))

theorem leaving_inspect {d e : Details Recorder.Visit}
    (hd : ((leaving s).state (List Sighting)).AlikeDetails d e) :
    ((leaving s).state (List Sighting)).Rel (Recorder.inspect d) (Recorder.inspect e) := by
  refine ((leaving s).state _).bind ?_ fun reading => ?_
  · refine ((leaving s).state _).bind hd.openContent fun opened => ?_
    rcases opened with e | reader
    · exact ((leaving s).state _).pure _
    · dsimp only
      rcases reader.drain with ⟨content, _ | _⟩
      · exact ((leaving s).state _).pure _
      · exact ((leaving s).state _).pure _
  · exact ((leaving s).state _).bind (hd.digest _ _ (leaving_hasher s)) fun digest =>
      ((leaving s).state _).pure _

include hr

/-- What is left of a note that only writes something down. -/
theorem note_eq (isDirectory : Bool) (d : Details Recorder.Visit) :
    r.note isDirectory d =
      (if isDirectory && !r.opensDirectories then pure none
        else some <$> ExceptT.lift (Recorder.inspect d)) >>= fun inspected =>
      modify (⟨isDirectory, d.path, d.relative, d.modified, inspected⟩ :: ·) := by
  unfold Recorder.note Recorder.act
  rw [hr.stopAt, hr.actions]
  by_cases h : (isDirectory && !r.opensDirectories) = true
  · rw [if_pos h, if_pos h]
    rfl
  · rw [if_neg h, if_neg h]
    rfl

/-- A recorder that looks on leaves a session as it is. -/
theorem leaving_note (isDirectory : Bool) {d e : Details Recorder.Visit}
    (hd : ((leaving s).state (List Sighting)).AlikeDetails d e) :
    (((leaving s).state (List Sighting)).except Failure).Rel (r.note isDirectory d)
      (r.note isDirectory e) := by
  rw [note_eq hr, note_eq hr, hd.path, hd.relative, hd.modified]
  refine (((leaving s).state _).except Failure).bind ?_ fun inspected => ?_
  · split_ifs
    · exact (((leaving s).state _).except Failure).pure none
    · exact (((leaving s).state _).except Failure).map _ (Relator.lift (leaving_inspect hd))
  · exact Relator.lift fun seen => (leaving s).pure _

theorem leaving_visitor :
    ((leaving s).state (List Sighting)).AlikeVisitors r.visitor r.visitor where
  directory _ _ hd := leaving_note hr true hd
  file _ _ hd := leaving_note hr false hd

omit hr in
/-- What is inspected of an entry is what is there. -/
theorem inspect_details (s : Session) (p : Path) (relative : RelativePath) (m : Metadata)
    (seen : List Sighting) :
    Recorder.inspect (DirectoryTree.details (Calls.live (pure s.world)) p relative m) seen s
      = (((s.world.reading p, s.world.hashed p), seen), s) := by
  have hdigest : (Hasher.sha256 systemCalls).file p m s = (s.world.hashed p, s) := by
    rw [((Relator.sha256 (leaving_calls s)).file p m).1, World.sha256_file]
    rfl
  have hreading :
      Recorder.readContent (DirectoryTree.details (Calls.live (pure s.world)) p relative m)
        = pure (s.world.reading p) := by
    unfold Recorder.readContent World.reading DirectoryTree.details
    dsimp only
    rw [World.run_openFile, pure_bind]
    rcases s.world.openReader p with e | reader
    · rfl
    · dsimp only
      rcases reader.drain with ⟨content, _ | _⟩ <;> rfl
  unfold Recorder.inspect
  rw [hreading, pure_bind]
  change (((s.world.reading p, ((Hasher.sha256 systemCalls).file p m s).1), seen),
    ((Hasher.sha256 systemCalls).file p m s).2) = _
  rw [hdigest]

omit hr in
/-- A visit goes on from what has been written down. -/
theorem run_bind_of_ok {α β : Type} {x : ExceptT Failure Recorder.Visit α}
    {f : α → ExceptT Failure Recorder.Visit β} {seen seen' : List Sighting} {s s' : Session} {a : α}
    (h : x.run seen s = ((.ok a, seen'), s')) : (x >>= f).run seen s = (f a).run seen' s' := by
  change (ExceptT.bindCont f (x.run seen s).1.1 : Recorder.Visit _) (x.run seen s).1.2
    (x.run seen s).2 = _
  rw [h]
  rfl

omit hr in
theorem run_map_lift {α β : Type} {f : α → β} {x : Recorder.Visit α} {seen seen' : List Sighting}
    {s s' : Session} {a : α} (h : x seen s = ((a, seen'), s')) :
    (f <$> ExceptT.lift x : ExceptT Failure Recorder.Visit β).run seen s
      = ((.ok (f a), seen'), s') := by
  change ((Except.ok (f (x seen s).1.1), (x seen s).1.2), (x seen s).2) = _
  rw [h]

/-- A report is written down. -/
theorem tell_visitor (s : Session) (report : Report) (seen : List Sighting) :
    (report.tell (Calls.live (pure s.world)) r.visitor).run seen s
      = ((.ok (), s.world.sighting r report :: seen), s) := by
  have hnote : ∀ isDirectory, report.isDirectory = isDirectory →
      (r.note isDirectory (DirectoryTree.details (Calls.live (pure s.world)) report.path
        report.relative report.seen)).run seen s
        = ((.ok (), s.world.sighting r report :: seen), s) := by
    intro isDirectory h
    rw [note_eq hr]
    unfold World.sighting
    rw [h]
    split_ifs with hopens
    · rfl
    · have hinspect := inspect_details s report.path report.relative report.seen seen
      rw [run_bind_of_ok (run_map_lift hinspect)]
      rfl
  unfold Report.tell
  split_ifs with hkind
  · exact hnote true hkind
  · exact hnote false (by simpa using hkind)

/-- So are all of them, one after the other. -/
theorem forM_tell_visitor (s : Session) (reports : List Report) (seen : List Sighting) :
    (reports.forM (·.tell (Calls.live (pure s.world)) r.visitor)).run seen s
      = ((.ok (), (reports.map (s.world.sighting r)).reverse ++ seen), s) := by
  induction reports generalizing seen with
  | nil => rfl
  | cons report reports ih =>
    change ((report.tell _ _ >>= fun _ => _) : ExceptT Failure Recorder.Visit Unit).run seen s = _
    rw [run_bind_of_ok (tell_visitor hr s report seen)]
    refine (ih _).trans ?_
    rw [List.map_cons, List.reverse_cons, List.append_assoc]
    rfl

/-- **What a recorder writes down** of a walk through a directory is the course of the walk. -/
theorem visit_eq (t : DirectoryTree) (s : Session) :
    visit (.directory t) r s =
      (((s.world.course t).reports.map (s.world.sighting r), (s.world.course t).ending), s) := by
  have hsteady : (steady Recorder.Visit).AlikeCalls (.live (pure s.world)) (.still s.world) :=
    Relator.calls_live rfl
  -- A session that is left as it is answers from the world that it has now.
  have hleaving := Relator.visit_directoryTree (Relator.calls_lift (leaving_calls s)) t
    r.visitor r.visitor (leaving_visitor hr) []
  have hvisit : (t.visit systemCalls.lift r.visitor).run.run [] s =
      ((s.world.course t).replay (Calls.live (pure s.world)) r.visitor).run [] s := by
    rw [← DirectoryTree.visit_eq_replay hsteady t r.visitor, ← World.lift_live]
    exact hleaving.1
  have hreports := forM_tell_visitor hr s (s.world.course t).reports []
  rw [List.append_nil] at hreports
  unfold Course.replay at hvisit
  rw [run_bind_of_ok hreports] at hvisit
  -- What has been seen is turned round again, whatever the ending is.
  have hseen : ∀ {a : Except Failure Unit × List Sighting}
      {f : Except Failure Unit × List Sighting → Run (List Sighting × Option Failure)}
      {x : Run (Except Failure Unit × List Sighting)},
      x s = (a, s) → (x >>= f) s = f a s := by
    intro a f x hx
    change f (x s).1 (x s).2 = _
    rw [hx]
  rcases hending : (s.world.course t).ending with _ | e
  · rw [hending] at hvisit
    refine (hseen (show _ = ((Except.ok (), _), s) from hvisit)).trans ?_
    dsimp only
    rw [List.reverse_reverse]
    rfl
  · rw [hending] at hvisit
    refine (hseen (show _ = ((Except.error e, _), s) from hvisit)).trans ?_
    dsimp only
    rw [List.reverse_reverse]
    rfl

/-- **A filter loses nothing that it allows.** -/
theorem visit_filtered (s : Session) (hw : s.world.IsWellNamed) (d : Path) (f : Filter)
    {seen : List Sighting} (h : (visit (.directory (.all d)) r s).1 = (seen, none)) :
    (visit (.directory ⟨d, f⟩) r s).1 =
      (seen.filter fun e => f.level (.ofString e.relative.display) e.isDirectory = .allow,
        none) := by
  rw [visit_eq hr] at h ⊢
  obtain ⟨hseen, hending⟩ := Prod.mk.inj h
  rw [World.course_filtered hw hending, ← hseen, List.filter_map]
  exact congrArg₂ Prod.mk rfl hending

omit hr in
/-- A walk through directories above an included root and down to a file that the rules for files
let through. -/
theorem visit_filtered_of_included_root :
    let w := (World.empty.apply (.write (.ofString "/d/a/b/x.rs") [1] .epoch)).world
    let s : Session := { start .none false false with world := w }
    let r : Recorder := ⟨none, false, []⟩
    let d : Path := .ofString "/d"
    let f := Filter.ofRules [.ofString "a/b"] [.ofString "a/b/c"] [] ["rs"]
    let full := (visit (.directory (.all d)) r s).1
    r.LooksOn ∧ s.world.IsWellNamed ∧ full = (full.1, none) ∧
      (visit (.directory ⟨d, f⟩) r s).1 =
        (full.1.filter fun e => f.level (.ofString e.relative.display) e.isDirectory = .allow,
          none) := by
  intro w s r d f full
  have hr : r.LooksOn := ⟨rfl, rfl⟩
  have hw : s.world.IsWellNamed := World.isWellNamed_empty.apply _
  have hfull : full = (full.1, none) :=
    Prod.ext rfl (Option.isNone_iff_eq_none.1 (by decide +kernel))
  exact ⟨hr, hw, hfull, visit_filtered hr s hw d f hfull⟩

end Session

end SnapStore
