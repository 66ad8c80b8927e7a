import SnapStore.Proofs.Timeline.Basic
import SnapStore.Proofs.Tree.Course

/-!
# What a walk in a timeline comes to

A walk in a timeline adds entries to those that have been collected, while time goes on.
`SnapStore.Timeline.Comes` says of a step of the walk what it comes to: something that is true of
its result, of the entries that it adds, the oldest first, and of the stage that the store has come
to. There is one rule for each way in which steps are put together, and one for each thing that a
step does.

What a walk does with an entry that it has reached falls into two parts. Looking at the entry takes
one call, and what is reported then is settled by the world of that moment
(`SnapStore.Timeline.comes_reportAllowed`). Making an entry of the report takes more calls, to
worlds of later moments (`SnapStore.Timeline.Makes`).

From the steps of a walk to the tree that is answered it is `SnapStore.Timeline.snapshotTree_cases`:
a tree is kept already, or it is made of what the walk has collected.
-/

namespace SnapStore

/-- The entry that is made of a report of a file, given what hashing has come to. -/
def Report.fileEntry (r : Report) (key : String) : Except Error Digest → Except Failure Entry
  | .ok digest => .ok (.file key r.relative false ⟨digest, r.seen.modified⟩)
  | .error (.notFound _) => .ok (.missing key r.relative.name)
  | .error e => .error (.error e)

namespace Timeline

variable {σ : Type} {tl : Timeline} {M : Mirror σ} {s : Stage σ} {ε α β : Type}

/-- The system calls of a walk that collects entries. -/
abbrev walkCalls (tl : Timeline) (σ : Type) : Calls (Collecting (StateM (Stage σ))) := tl.calls.lift

/-- **What a computation that collects entries comes to**: its result, the entries that it adds to
whatever has been collected, and the stage after it. -/
def Comes (x : ExceptT ε (Collecting (StateM (Stage σ))) α) (s : Stage σ)
    (Q : Except ε α → List Entry → Stage σ → Prop) : Prop :=
  ∀ seen, ∃ r new s', x.run.run seen s = ((r, new.reverse ++ seen), s') ∧ Q r new s'

namespace Comes

variable {x : ExceptT ε (Collecting (StateM (Stage σ))) α}
  {f : α → ExceptT ε (Collecting (StateM (Stage σ))) β}
  {P : Except ε α → List Entry → Stage σ → Prop}
  {Q : Except ε β → List Entry → Stage σ → Prop}

theorem pure {b : β} (h : Q (.ok b) [] s) :
    Comes (Pure.pure b : ExceptT ε (Collecting (StateM (Stage σ))) β) s Q :=
  fun _ => ⟨.ok b, [], s, rfl, h⟩

theorem throw {e : ε} (h : Q (.error e) [] s) :
    Comes (throw e : ExceptT ε (Collecting (StateM (Stage σ))) β) s Q :=
  fun _ => ⟨.error e, [], s, rfl, h⟩

theorem imp {P' : Except ε α → List Entry → Stage σ → Prop} (hx : Comes x s P)
    (h : ∀ r new s', P r new s' → P' r new s') : Comes x s P' := by
  intro seen
  obtain ⟨r, new, s', hrun, hP⟩ := hx seen
  exact ⟨r, new, s', hrun, h r new s' hP⟩

/-- Entries are collected by the first step and then by the next. -/
theorem bind (hx : Comes x s P)
    (hok : ∀ a new s', P (.ok a) new s' → Comes (f a) s' fun r more s'' => Q r (new ++ more) s'')
    (herror : ∀ e new s', P (.error e) new s' → Q (.error e) new s') : Comes (x >>= f) s Q := by
  intro seen
  obtain ⟨r, new, s', hrun, hP⟩ := hx seen
  have hbind : (x >>= f).run.run seen s =
      (ExceptT.bindCont f (x.run.run seen s).1.1 : Collecting (StateM (Stage σ)) _)
        (x.run.run seen s).1.2 (x.run.run seen s).2 := rfl
  rw [hrun] at hbind
  rcases r with e | a
  · exact ⟨.error e, new, s', hbind, herror e new s' hP⟩
  · obtain ⟨r, more, s'', hrest, hQ⟩ := hok a new s' hP (new.reverse ++ seen)
    refine ⟨r, new ++ more, s'', hbind.trans ?_, hQ⟩
    rw [List.reverse_append, List.append_assoc]
    exact hrest

/-- A step that neither fails nor collects anything. -/
theorem bind_quiet (hx : Comes x s fun r new s' => new = [] ∧ ∃ a, r = .ok a ∧ Comes (f a) s' Q) :
    Comes (x >>= f) s Q := by
  refine hx.bind ?_ ?_
  · rintro a new s' ⟨rfl, _, ha, hf⟩
    cases ha
    exact hf
  · rintro e new s' ⟨-, _, ha, -⟩
    cases ha

/-! ### What a step does -/

/-- Something is done that collects nothing. -/
theorem lift {y : StateM (Stage σ) α} (h : P (.ok (y s).1) [] (y s).2) :
    Comes (liftM (StateT.lift y : Collecting (StateM (Stage σ)) α)) s P :=
  fun _ => ⟨.ok (y s).1, [], (y s).2, rfl, h⟩

/-- It may fail. -/
theorem liftExcept {y : StateM (Stage σ) (Except ε α)} (h : P (y s).1 [] (y s).2) :
    Comes (ExceptT.mk (StateT.lift y)) s P :=
  fun _ => ⟨(y s).1, [], (y s).2, rfl, h⟩

/-- Whatever a step comes to is taken as a value. -/
theorem run {ε' : Type} {y : ExceptT ε' (Collecting (StateM (Stage σ))) α}
    {P : Except ε (Except ε' α) → List Entry → Stage σ → Prop}
    (h : Comes y s fun r new s' => P (.ok r) new s') :
    Comes (liftM y.run : ExceptT ε (Collecting (StateM (Stage σ))) (Except ε' α)) s P := by
  intro seen
  obtain ⟨r, new, s', hrun, hP⟩ := h seen
  refine ⟨.ok r, new, s', ?_, hP⟩
  have hlift :
      (liftM y.run : ExceptT ε (Collecting (StateM (Stage σ))) (Except ε' α)).run.run seen s =
      ((.ok (y.run.run seen s).1.1, (y.run.run seen s).1.2), (y.run.run seen s).2) := rfl
  rw [hlift, hrun]

theorem collect {e : Entry} {P : Except Failure Unit → List Entry → Stage σ → Prop}
    (h : P (.ok ()) [e] s) : Comes (Host.collect e : ExceptT Failure _ Unit) s P :=
  fun _ => ⟨.ok (), [e], s, rfl, h⟩

end Comes

/-! ### Making an entry of a report -/

/-- **What is made of a report** that is told at some stage. -/
inductive Makes (tl : Timeline) (r : Report) (s : Stage σ) : Except Failure Entry → Stage σ → Prop
  /-- Its path has no key. -/
  | unkeyed {e : Error} (hkey : r.path.canonical (tl.world s.now).workingDirectory = .error e) :
    Makes tl r s (.error (.error e)) s.next
  /-- It is of a directory. -/
  | directory {key : String} (hkind : r.isDirectory = true)
    (hkey : r.path.canonical (tl.world s.now).workingDirectory = .ok key) :
    Makes tl r s (.ok (.directory key r.relative false)) s.next
  /-- It is of a file, which is hashed. -/
  | file {key : String} {hashed : Except Error Digest} {s' : Stage σ}
    (hkind : r.isDirectory = false)
    (hkey : r.path.canonical (tl.world s.now).workingDirectory = .ok key)
    (hhash : tl.Hashes r.path s.next (hashed, s')) :
    Makes tl r s (r.fileEntry key hashed) s'

theorem Makes.le {r : Report} {made : Except Failure Entry} {s' : Stage σ}
    (h : tl.Makes r s made s') : s.now ≤ s'.now := by
  cases h with
  | unkeyed => exact Nat.le_succ _
  | directory => exact Nat.le_succ _
  | file _ _ hhash => exact Nat.le_of_succ_le hhash.le

/-- Telling the store of a report makes one entry or fails. -/
theorem comes_tell {r : Report} {Q : Except Failure Unit → List Entry → Stage σ → Prop}
    (hok : ∀ e s', tl.Makes r s (.ok e) s' → Q (.ok ()) [e] s')
    (herror : ∀ err s', tl.Makes r s (.error err) s' → Q (.error err) [] s') :
    Comes (r.tell (tl.walkCalls σ) (tl.host M).collector) s Q := by
  have hkey : ∀ {f : String → ExceptT Failure (Collecting (StateM (Stage σ))) Unit},
      (∀ key, r.path.canonical (tl.world s.now).workingDirectory = .ok key →
        Comes (f key) s.next Q) →
      Comes (ExceptT.mk (StateT.lift ((tl.host M).key r.path).run) >>= f) s Q := by
    intro f hf
    refine Comes.bind (P := fun x new s' =>
      x = (tl.world s.now).keyOf r.path ∧ new = [] ∧ s' = s.next) (.liftExcept ?_) ?_ ?_
    · rw [show ((tl.host M).key r.path).run s = _ from run_key tl M r.path s]
      exact ⟨rfl, rfl, rfl⟩
    · rintro key new s' ⟨hkey, rfl, rfl⟩
      exact hf key (World.keyOf_eq_ok_iff.1 hkey.symm)
    · rintro e new s' ⟨hkey, rfl, rfl⟩
      obtain ⟨cause, hcause, rfl⟩ := Failure.mapError_eq_error_iff.1 hkey.symm
      exact herror _ _ (.unkeyed hcause)
  unfold Report.tell
  by_cases hkind : r.isDirectory = true
  · rw [if_pos hkind]
    exact hkey fun key hcanonical => .collect (hok _ _ (.directory hkind hcanonical))
  · have hfile : r.isDirectory = false := by simpa using hkind
    rw [if_neg hkind]
    refine hkey fun key hcanonical => ?_
    have hhash : tl.Hashes r.path s.next _ := hash_cases r.seen s.next
    rcases hrun : (Hasher.sha256 tl.calls).file r.path r.seen s.next with
      ⟨hashed, s'⟩
    rw [hrun] at hhash
    have hmakes : tl.Makes r s (r.fileEntry key hashed) s' := .file hfile hcanonical hhash
    -- The digest is computed aside, and whatever comes of it the walk goes on.
    refine Comes.bind_quiet (.lift ⟨rfl, hashed, congrArg (fun x => Except.ok x.1) hrun, ?_⟩)
    rw [show ((tl.host M).hasher.file r.path r.seen s.next).2 = s' from
      congrArg Prod.snd hrun]
    rcases hashed with e | digest
    · cases e with
      | notFound what => exact .collect (hok _ _ hmakes)
      | _ => exact .throw (herror _ _ hmakes)
    · exact .collect (hok _ _ hmakes)

/-! ### Looking at an entry -/

section Reporting

open DirectoryTree

variable {v : Visitor (Collecting (StateM (Stage σ)))} {t : DirectoryTree} {e : Reached}

/-- **What is reported of an entry is settled by the world at which it is looked at.** -/
theorem comes_reportAllowed {Q : Except Failure Unit → List Entry → Stage σ → Prop}
    (h : Comes (((tl.world s.now).entryCourse e).replay (tl.walkCalls σ) v) s.next Q) :
    Comes (reportAllowed (tl.walkCalls σ) v e) s Q := by
  unfold reportAllowed
  refine Comes.bind_quiet ?_
  have hlook : Comes (if e.isFollowed then liftM ((tl.walkCalls σ).stat e.path)
      else liftM ((tl.walkCalls σ).linkStat e.path) :
        ExceptT Failure (Collecting (StateM (Stage σ))) (Except OsError Status)) s
      fun r new s' => new = [] ∧ r = .ok ((tl.world s.now).look e) ∧ s' = s.next := by
    unfold World.look
    split_ifs
    · exact .lift ⟨rfl, rfl, rfl⟩
    · exact .lift ⟨rfl, rfl, rfl⟩
  refine hlook.imp ?_
  rintro r new s' ⟨rfl, rfl, rfl⟩
  refine ⟨rfl, _, rfl, ?_⟩
  unfold World.entryCourse at h
  rcases hlooked : (tl.world s.now).look e with cause | status
  · rw [hlooked] at h
    cases cause with
    | notFound =>
      rw [Course.replay_nothing] at h
      exact h
    | _ =>
      rw [Course.replay_fail] at h
      exact h
  · rw [hlooked] at h
    dsimp only at h ⊢
    rcases hseen : Metadata.ofStatus status with failure | seen
    · rw [hseen, Course.replay_fail] at h
      rw [liftM_error, throw_bind]
      exact h
    rw [hseen] at h
    rw [liftM_ok, pure_bind]
    dsimp only at h ⊢
    rcases hrelative : RelativePath.ofPath (e.kind ≠ .directory) (.ofNames e.names)
      with err | relative
    · rw [hrelative, Course.replay_fail] at h
      rw [liftError_error, throw_bind]
      exact h
    · rw [hrelative] at h
      rw [liftError_ok, pure_bind]
      dsimp only at h ⊢
      cases hkind : e.kind with
      | file =>
        rw [hkind, Course.replay_one] at h
        exact h
      | directory =>
        rw [hkind, Course.replay_one] at h
        exact h
      | link =>
        rw [hkind, Course.replay_fail] at h
        exact h
      | special =>
        rw [hkind, Course.replay_fail] at h
        exact h

/-- An entry is looked at if it belongs to the tree. -/
theorem comes_report {Q : Except Failure Bool → List Entry → Stage σ → Prop}
    (hshown : t.shows e = true →
      Comes (((tl.world s.now).entryCourse e).replay (tl.walkCalls σ) v) s.next
        fun r new s' => Q (r.map fun _ => true) new s')
    (hhidden : t.shows e = false → Q (.ok (t.enters e)) [] s) :
    Comes (report (tl.walkCalls σ) t v e) s Q := by
  unfold shows at hshown hhidden
  unfold enters at hhidden
  unfold report
  rcases htext : e.path.toString? with _ | text
  · rw [htext] at hhidden
    exact .pure (hhidden rfl)
  · rw [htext] at hshown hhidden
    cases hlevel : t.filter.level (.ofNames e.names) (e.kind = .directory) with
    | deny =>
      rw [hlevel] at hhidden
      exact .pure (hhidden rfl)
    | traverse =>
      rw [hlevel] at hhidden
      exact .pure (hhidden rfl)
    | allow =>
      rw [hlevel] at hshown
      refine (comes_reportAllowed (hshown rfl)).bind (fun _ new s' hQ => .pure ?_)
        fun _ _ _ hQ => hQ
      rw [List.append_nil]
      exact hQ

end Reporting

/-! ### Trees that are answered -/

/-- **A walk gives the tree of what it has collected**, or the failure that ended it. -/
theorem run_walk (base : Option String) {source : TreeSource (Collecting (StateM (Stage σ)))}
    {Q : Except Failure Unit → List Entry → Stage σ → Prop}
    (h : Comes (source (tl.host M).collector) s Q) :
    ∃ r new s', Q r new s' ∧
      ((tl.host M).walk base source).run s = (r.map fun _ => ⟨base, new⟩, s') := by
  obtain ⟨r, new, s', hrun, hQ⟩ := h []
  rw [List.append_nil] at hrun
  refine ⟨r, new, s', hQ, ?_⟩
  have hwalk : (ExceptT.lift ((source (tl.host M).collector).run.run []) :
      ExceptT Failure (StateM (Stage σ)) (Except Failure Unit × List Entry)).run s =
      (.ok (r, new.reverse), s') := by
    change (Except.ok ((source (tl.host M).collector).run.run [] s).1,
      ((source (tl.host M).collector).run.run [] s).2) = _
    rw [hrun]
  unfold Host.walk
  rw [run_bind_of_ok hwalk]
  rcases r with e | _
  · rfl
  · exact congrArg (fun entries => (Except.ok (TreeSnapshot.mk base entries), s'))
      (List.reverse_reverse new)

/-- **A tree is kept already or walked now**, after the moment that it takes to find its key. -/
theorem snapshotTree_cases {t : DirectoryTree}
    {Q : Except Failure Unit → List Entry → Stage σ → Prop}
    (h : ∀ s₁ : Stage σ, s₁.now = s.now + 1 →
      Comes (t.visit (tl.walkCalls σ) (tl.host M).collector) s₁ Q) :
    (∃ e s', t.root.canonical (tl.world s.now).workingDirectory = .error e ∧
      ((tl.host M).snapshotTree t).run s = (.error (.error e), s')) ∨
    ∃ key, t.root.canonical (tl.world s.now).workingDirectory = .ok key ∧
      ((∃ kept s', t.isFiltered = false ∧ Offered (M.lookUpTree key) s.kept kept ∧
        ((tl.host M).snapshotTree t).run s = (.ok kept, s')) ∨
      ∃ r new s' s'', Q r new s' ∧ s''.now = s'.now ∧
        ((tl.host M).snapshotTree t).run s = (r.map fun _ => ⟨some key, new⟩, s'')) := by
  have hkey := run_key tl M t.root s
  unfold Host.snapshotTree
  rcases hroot : t.root.canonical (tl.world s.now).workingDirectory with e | key
  · rw [World.keyOf_of_error hroot] at hkey
    exact Or.inl ⟨e, _, rfl, run_bind_of_error hkey⟩
  · rw [World.keyOf_eq_ok_iff.2 hroot] at hkey
    refine Or.inr ⟨key, rfl, ?_⟩
    rw [run_bind_of_ok hkey]
    by_cases hfiltered : t.isFiltered = true
    · obtain ⟨r, new, s', hQ, hrun⟩ := run_walk (some key) (h s.next rfl)
      refine Or.inr ⟨r, new, s', s', hQ, rfl, ?_⟩
      dsimp only
      rw [if_pos hfiltered]
      exact hrun
    · have hcompute := run_cached_cases tl M M.lookUpTree (now_keeping M.putTree) .tree key
        ((tl.host M).walk (some key) (t.visit (tl.walkCalls σ))) s.next
      dsimp only
      rw [if_neg hfiltered]
      rcases hcompute with ⟨kept, s', hoffered, -, hrun⟩ |
        ⟨s₁, r, s₂, s', hnow, hnow', hcompute, hrun⟩
      · exact Or.inl ⟨kept, s', by simpa using hfiltered, hoffered, hrun⟩
      · obtain ⟨r', new, s₂', hQ, hwalk⟩ := run_walk (some key) (h s₁ hnow)
        rw [hcompute, Prod.mk.injEq] at hwalk
        obtain ⟨rfl, rfl⟩ := hwalk
        exact Or.inr ⟨r', new, s₂, s', hQ, hnow', hrun⟩

end Timeline

end SnapStore
