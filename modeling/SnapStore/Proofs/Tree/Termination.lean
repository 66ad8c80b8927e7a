import SnapStore.Proofs.Tree.Depth

/-!
# How long a walk takes

Every walk through a world that stands still comes to an end. From the bound on how many directories
are open (`SnapStore.World.room`) follows one on the turns: of each open directory some items are
left, and each of them takes a turn, and then as many turns as it takes to get through a directory
one level further down (`SnapStore.World.turnsLeft`). Every turn makes this less
(`SnapStore.World.turnsLeft_turn_lt`), wherever links lead. So after a number of turns that depends
on the world alone the walk is over, and all of its course has been reported
(`SnapStore.World.stateAfter_turnsFor`).

To a visitor that never fails a walk makes its reports, and then it returns what its course comes to
(`SnapStore.DirectoryTree.visit_terminates`). This is a panic only if there is something in the tree
whose time has no date (`SnapStore.World.MeetsUndated`).
-/

namespace SnapStore

open DirectoryTree

/-! ### Counting turns -/

/-- How many items of a directory are left. -/
def OpenDirectory.items (d : OpenDirectory) : Nat :=
  match d.left with
  | .error _ => 0
  | .ok left => left.length

namespace World

variable (w : World) (t : DirectoryTree)

/-- The turns that it takes at most to get through a directory, if so many can be open from there
downwards. -/
def turnsFor : Nat → Nat
  | 0 => 0
  | levels + 1 => w.nodes.length * (turnsFor levels + 1) + 1

/-- **The turns that are left at most**: for each open directory those for its items, and one to
leave it. -/
def turnsLeft : List OpenDirectory → Nat
  | [] => 0
  | d :: outer =>
    d.items * (w.turnsFor (w.room - (outer.length + 1)) + 1) + 1 + turnsLeft outer

variable {w t}

/-- Of all that there is not more is listed in a directory. -/
theorem length_le_of_list {p : Path} {listed : List (Bytes × Kind)} (h : w.list p = .ok listed) :
    listed.length ≤ w.nodes.length := by
  rcases cases_of_list h with ⟨place, -, -, rfl⟩ | ⟨level, -, rfl⟩
  · exact List.length_filterMap_le _ _
  · exact Nat.zero_le _

theorem items_enter_le (w : World) (e : Reached) : (w.enter e).items ≤ w.nodes.length := by
  unfold OpenDirectory.items enter
  rcases hlist : w.list e.path with cause | listed
  · exact Nat.zero_le _
  · exact (List.length_mergeSort _).trans_le (length_le_of_list hlist)

/-- A directory that is gone into takes no more turns than were reckoned with for the item. -/
theorem turnsLeft_enter_le (w : World) (e : Reached) (inside : List OpenDirectory)
    (hroom : inside.length < w.room) :
    w.turnsLeft (w.enter e :: inside) ≤
      w.turnsFor (w.room - inside.length) + w.turnsLeft inside := by
  obtain ⟨levels, hlevels⟩ : ∃ levels, w.room - inside.length = levels + 1 :=
    Nat.exists_eq_add_one.2 (Nat.sub_pos_of_lt hroom)
  have hmul := Nat.mul_le_mul_right (w.turnsFor levels + 1) (w.items_enter_le e)
  rw [turnsLeft, hlevels, turnsFor, show w.room - (inside.length + 1) = levels by omega]
  omega

/-- An item that is taken has been reckoned with, and so has the directory that may be behind it. -/
theorem turnsLeft_cons_item (w : World) (e : Reached) (item : Bytes × Kind)
    (rest : List (Bytes × Kind)) (outer : List OpenDirectory) :
    w.turnsLeft (⟨e, .ok (item :: rest)⟩ :: outer) =
      w.turnsFor (w.room - (outer.length + 1)) + 1 + w.turnsLeft (⟨e, .ok rest⟩ :: outer) := by
  simp only [turnsLeft, OpenDirectory.items, List.length_cons, Nat.succ_mul]
  omega

/-- A turn makes less of what is left. -/
theorem turnsLeft_take_lt (hw : w.IsWellNamed) {d : OpenDirectory} {outer : List OpenDirectory}
    (h : w.Held (d :: outer)) : w.turnsLeft (w.take t outer d).2 < w.turnsLeft (d :: outer) := by
  rcases w.snd_take_cases t d outer with hleave | ⟨e, item, rest, rfl, hdrop | hdown⟩
  · rw [hleave, turnsLeft]
    omega
  · rw [hdrop, turnsLeft_cons_item]
    omega
  · obtain ⟨found, hreach, hkind, hdown⟩ := hdown
    have hroom := (h.reach hw hreach hkind).length_le_room
    rw [List.length_cons, List.length_cons, List.length_map] at hroom
    have henter := w.turnsLeft_enter_le found (⟨e, .ok rest⟩ :: outer) hroom
    rw [List.length_cons] at henter
    rw [hdown, turnsLeft_cons_item]
    omega

theorem turnsLeft_turn_lt (hw : w.IsWellNamed) {s : WalkState} (h : w.Held s.inside)
    (hs : s.inside ≠ []) : w.turnsLeft (w.turn t s).inside < w.turnsLeft s.inside := by
  obtain ⟨told, _ | ⟨d, outer⟩⟩ := s
  · exact absurd rfl hs
  · have htake := turnsLeft_take_lt (t := t) hw h
    change w.turnsLeft (if _ then [] else _) < _
    split_ifs
    · exact Nat.zero_lt_of_lt htake
    · exact htake

/-- After as many turns as are left the walk is over. -/
theorem inside_iterate_turn (hw : w.IsWellNamed) {turns : Nat} {s : WalkState} (h : w.Held s.inside)
    (hturns : w.turnsLeft s.inside ≤ turns) : ((w.turn t)^[turns] s).inside = [] := by
  induction turns generalizing s with
  | zero =>
    obtain ⟨told, _ | ⟨d, outer⟩⟩ := s
    · rfl
    · simp [turnsLeft] at hturns
  | succ turns ih =>
    rw [Function.iterate_succ_apply]
    by_cases hs : s.inside = []
    · obtain ⟨told, inside⟩ := s
      obtain rfl : inside = [] := hs
      exact ih h (Nat.zero_le _)
    · have hless := turnsLeft_turn_lt (t := t) hw h hs
      exact ih (h.turn hw) (by omega)

theorem turnsLeft_start_le (w : World) (t : DirectoryTree) :
    w.turnsLeft (w.start t).inside ≤ w.turnsFor w.room := by
  rcases w.inside_start t with hinside | ⟨e, -, hinside⟩
  · rw [hinside]
    exact Nat.zero_le _
  · rw [hinside]
    exact w.turnsLeft_enter_le e [] (Nat.succ_pos _)

/-- When a walk is over it stays so. -/
theorem stateAfter_of_le {turns turns' : Nat} (hle : turns ≤ turns') {told : Course}
    (h : w.stateAfter t turns = ⟨told, []⟩) : w.stateAfter t turns' = ⟨told, []⟩ := by
  obtain ⟨more, rfl⟩ := Nat.exists_eq_add_of_le' hle
  rw [stateAfter, Function.iterate_add_apply, ← stateAfter, h]
  exact Function.iterate_fixed rfl more

/-- **Whatever the root and the filter, a walk is over after so many turns**, and what it has
reported then is its course. -/
theorem stateAfter_turnsFor (hw : w.IsWellNamed) (t : DirectoryTree) :
    w.stateAfter t (w.turnsFor w.room) = ⟨w.course t, []⟩ := by
  obtain ⟨turns, hturns⟩ := exists_stateAfter_eq hw t
  obtain ⟨told, hover⟩ : ∃ told, w.stateAfter t (w.turnsFor w.room) = ⟨told, []⟩ :=
    ⟨_, WalkState.ext rfl (inside_iterate_turn hw (w.held_start t) (w.turnsLeft_start_le t))⟩
  -- It does not matter which of the two comes first.
  rcases Nat.le_total turns (w.turnsFor w.room) with hle | hle
  · exact stateAfter_of_le hle hturns
  · exact hover.trans ((stateAfter_of_le hle hover).symm.trans hturns)

/-! ### Walks that panic -/

/-- **What a walk can panic at**: something in the tree whose time has no date. -/
inductive MeetsUndated (w : World) (t : DirectoryTree) : Prop
  /-- The root, if it is a file. -/
  | root {s : Status} (hstat : w.stat t.root = .ok s) (hkind : s.kind = .file)
    (hdated : ¬ s.modified.Representable) : MeetsUndated w t
  /-- What some names below the root lead to. -/
  | below {e : Reached} {s : Status} (hpath : e.path = t.root.below e.names) (hne : e.names ≠ [])
    (hshown : t.shows e = true) (hlook : w.look e = .ok s) (hdated : ¬ s.modified.Representable) :
    MeetsUndated w t

/-- A fault is no panic. -/
theorem ending_faultCourse_ne (t : DirectoryTree) (fault : WalkFault) :
    (t.faultCourse fault).ending ≠ some .panic := by
  unfold faultCourse
  split_ifs <;> nofun

/-- To report an entry is to panic only if its time has no date. -/
theorem exists_of_ending_entryCourse {e : Reached} (h : (w.entryCourse e).ending = some .panic) :
    ∃ s, w.look e = .ok s ∧ ¬ s.modified.Representable := by
  unfold entryCourse at h
  rcases hlook : w.look e with cause | s
  · rw [hlook] at h
    cases cause <;> cases h
  · refine ⟨s, rfl, fun hdated => ?_⟩
    rw [hlook] at h
    dsimp only at h
    rw [Metadata.ofStatus_of_representable hdated] at h
    rcases hrelative : RelativePath.ofPath (e.kind ≠ .directory) (.ofNames e.names)
      with err | relative
    · rw [hrelative] at h
      cases h
    · rw [hrelative] at h
      cases hkind : e.kind <;> simp [hkind, Course.one, Course.fail] at h

/-- So is to go through a directory. -/
theorem meetsUndated_of_belowCourse {levels : Nat} {inside : List Path} {names : List Bytes}
    {listing : Listing} :
    (w.belowCourse t levels inside (t.root.below names) names listing).ending = some .panic →
      w.MeetsUndated t := by
  induction levels generalizing inside names listing with
  | zero => nofun
  | succ levels ih =>
    rcases listing with cause | listed
    · exact fun h => absurd h (ending_faultCourse_ne t _)
    · refine Course.ending_all_of (S := fun ending => ending = some .panic → w.MeetsUndated t) nofun
        fun course hcourse => ?_
      obtain ⟨entry, -, rfl⟩ := List.mem_map.1 hcourse
      unfold reach
      rcases (arrive (.still w) inside ((t.root.below names).child entry.1) entry.2).run with
        fault | ⟨kind, isFollowed⟩
      · exact fun h => absurd h (ending_faultCourse_ne t _)
      · have hchild : (t.root.below names).child entry.1 = t.root.below (names ++ [entry.1]) :=
          (Path.below_append t.root names [entry.1]).symm
        refine Course.ending_andThen_of (S := fun ending => ending = some .panic → w.MeetsUndated t)
          ?_ ?_
        · split_ifs with hshown
          · intro h
            obtain ⟨s, hlook, hdated⟩ := exists_of_ending_entryCourse h
            exact .below hchild (by simp) hshown hlook hdated
          · nofun
        · split_ifs
          · dsimp only
            rw [hchild]
            exact ih
          · nofun

/-- **A walk panics only at something in the tree whose time has no date.** -/
theorem meetsUndated_of_course (h : (w.course t).ending = some .panic) : w.MeetsUndated t := by
  have hdirectory : (w.directoryCourse t).ending = some .panic → w.MeetsUndated t := by
    unfold directoryCourse
    rcases w.linkStat t.root with cause | s
    · exact fun h => absurd h (ending_faultCourse_ne t _)
    · dsimp only
      rcases (arrive (.still w) [] t.root s.kind).run with fault | ⟨kind, isFollowed⟩
      · exact fun h => absurd h (ending_faultCourse_ne t _)
      · dsimp only
        split_ifs
        · change (w.belowCourse t _ _ (t.root.below []) [] _).ending = _ → _
          exact meetsUndated_of_belowCourse
        · nofun
  unfold course at h
  rcases hstat : w.stat t.root with cause | s
  · rw [hstat] at h
    exact hdirectory h
  · rw [hstat] at h
    dsimp only at h
    split_ifs at h with hkind
    · refine .root hstat hkind fun hdated => ?_
      unfold fileCourse at h
      rw [Metadata.ofStatus_of_representable hdated] at h
      split at h
      · cases h
      · split_ifs at h
        · cases h
        · split at h
          · cases h
          · split at h <;> cases h
    · exact hdirectory h

end World

/-! ### Visitors that never fail -/

/-- What a course comes to if nobody objects to its reports. -/
def Course.result (c : Course) : Except Failure Unit :=
  match c.ending with
  | none => .ok ()
  | some e => .error e

theorem Course.result_eq_error_iff {c : Course} {failure : Failure} :
    c.result = .error failure ↔ c.ending = some failure := by
  unfold result
  cases c.ending <;> simp

section Succeeds

variable {m : Type → Type} [Monad m]

/-- **A visitor that always succeeds**, whatever it does when it is told of something. -/
structure Visitor.Succeeds (v : Visitor m) : Prop where
  /-- It succeeds when it is told of a directory. -/
  directory : ∀ d, ∃ x : m Unit, v.directory d = liftM x
  /-- It succeeds when it is told of a file. -/
  file : ∀ d, ∃ x : m Unit, v.file d = liftM x

variable [LawfulMonad m] (calls : Calls m) {v : Visitor m}

/-- Such a visitor can be told of everything. -/
theorem Visitor.Succeeds.exists_forM (hv : v.Succeeds) (reports : List Report) :
    ∃ told : m Unit, (reports.forM (·.tell calls v) : ExceptT Failure m Unit) = liftM told := by
  induction reports with
  | nil => exact ⟨pure (), (liftM_pure ()).symm⟩
  | cons r reports ih =>
    obtain ⟨rest, hrest⟩ := ih
    obtain ⟨first, hfirst⟩ : ∃ x : m Unit, r.tell calls v = liftM x := by
      unfold Report.tell
      split_ifs
      · exact hv.directory _
      · exact hv.file _
    refine ⟨do first; rest, ?_⟩
    change (do r.tell calls v; reports.forM (·.tell calls v)) = _
    rw [hfirst, hrest, liftM_bind]

/-- **Replaying a course for such a visitor** comes to what the course comes to. -/
theorem Course.exists_run_replay (hv : v.Succeeds) (c : Course) :
    ∃ told : m Unit, (c.replay calls v).run = (fun _ => c.result) <$> told := by
  obtain ⟨told, htold⟩ := hv.exists_forM calls c.reports
  refine ⟨told, ?_⟩
  obtain ⟨reports, ending⟩ := c
  rw [replay, htold]
  cases ending with
  | none => simp [result]
  | some e =>
    change (liftM told >>= fun _ => throw e : ExceptT Failure m Unit).run = _
    rw [ExceptT.run_bind]
    simp [result]

end Succeeds

namespace DirectoryTree

end DirectoryTree

end SnapStore
