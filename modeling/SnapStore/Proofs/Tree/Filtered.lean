import SnapStore.Proofs.Filter.Pruning
import SnapStore.Proofs.Path.Relative
import SnapStore.Proofs.Tree.Course
import SnapStore.Proofs.World.Names

/-!
# Filtered walks

A walk with a filter does not go down into directories that the filter denies, and it passes over
in silence those that it has to go through. Still nothing is lost: where the walk through the whole
directory comes to its end, what the filtered one reports is what the filter allows of that
(`SnapStore.World.course_filtered`).

The point is `SnapStore.Filter.level_eq_deny_of_startsWith`: below a denied directory nothing is
allowed, so that what a walk does not go down into would not have been kept anyway.
-/

namespace SnapStore

/-! ### Leaving out reports -/

namespace Course

/-- A course without the reports that are not wanted. -/
def keep (isWanted : Report → Bool) (c : Course) : Course := ⟨c.reports.filter isWanted, c.ending⟩

variable {isWanted : Report → Bool} {c d : Course}

theorem andThen_of_ending (h : c.ending = none) :
    c.andThen d = ⟨c.reports ++ d.reports, d.ending⟩ := by
  rw [andThen, h]

theorem ending_andThen : (c.andThen d).ending = none ↔ c.ending = none ∧ d.ending = none := by
  rcases hc : c.ending with _ | e
  · simp [andThen_of_ending hc]
  · simp [andThen, hc]

theorem keep_andThen :
    (c.andThen d).keep isWanted = (c.keep isWanted).andThen (d.keep isWanted) := by
  rcases hc : c.ending with _ | e
  · have hkeep : (c.keep isWanted).ending = none := hc
    rw [andThen_of_ending hc, andThen_of_ending hkeep]
    simp [keep]
  · simp [keep, andThen, hc]

theorem ending_all {cs : List Course} : (all cs).ending = none ↔ ∀ c ∈ cs, c.ending = none := by
  induction cs with
  | nil => simp [all, nothing]
  | cons c cs ih => rw [all, ending_andThen, ih, List.forall_mem_cons]

section Endings

variable {S : Option Failure → Prop}

/-- A course ends as one of its parts does. -/
theorem ending_andThen_of (hc : S c.ending) (hd : S d.ending) : S (c.andThen d).ending := by
  rcases hending : c.ending with _ | failure
  · rw [andThen_of_ending hending]
    exact hd
  · rw [andThen, hending]
    exact hc

theorem ending_all_of {cs : List Course} (hnone : S none) (h : ∀ c ∈ cs, S c.ending) :
    S (all cs).ending := by
  induction cs with
  | nil => exact hnone
  | cons c cs ih =>
    obtain ⟨hc, hcs⟩ := List.forall_mem_cons.1 h
    exact ending_andThen_of hc (ih hcs)

end Endings

/-- A course can be kept part by part. -/
theorem all_keep {α : Type} {f g : α → Course} {xs : List α}
    (h : ∀ x ∈ xs, g x = (f x).keep isWanted) :
    all (xs.map g) = (all (xs.map f)).keep isWanted := by
  induction xs with
  | nil => rfl
  | cons x xs ih =>
    rw [List.map_cons, List.map_cons, all, all, keep_andThen, h x (by simp),
      ih fun y hy => h y (List.mem_cons_of_mem _ hy)]

theorem keep_eq_self (h : ∀ r ∈ c.reports, isWanted r = true) : c.keep isWanted = c := by
  rw [keep, List.filter_eq_self.2 h]

theorem keep_eq_nothing (hending : c.ending = none) (h : ∀ r ∈ c.reports, isWanted r = false) :
    c.keep isWanted = nothing := by
  rw [keep, List.filter_eq_nil_iff.2 fun r hr => by simp [h r hr], hending]
  rfl

theorem mem_reports_andThen {r : Report} (h : r ∈ (c.andThen d).reports) :
    r ∈ c.reports ∨ r ∈ d.reports := by
  rcases hc : c.ending with _ | e
  · rw [andThen_of_ending hc] at h
    exact List.mem_append.1 h
  · rw [andThen, hc] at h
    exact Or.inl h

theorem exists_of_mem_all {r : Report} {cs : List Course} (h : r ∈ (all cs).reports) :
    ∃ c ∈ cs, r ∈ c.reports := by
  induction cs with
  | nil => cases h
  | cons c cs ih =>
    rcases mem_reports_andThen h with h | h
    · exact ⟨c, by simp, h⟩
    · obtain ⟨c', hc', hr⟩ := ih h
      exact ⟨c', List.mem_cons_of_mem _ hc', hr⟩

end Course

/-- Whether a filter allows what is reported. -/
def Report.isAllowedBy (f : Filter) (r : Report) : Bool :=
  f.level (.ofString r.relative.display) r.isDirectory = .allow

namespace DirectoryTree

/-- Without a filter everything that is text belongs to the tree. -/
theorem shows_all (d : Path) (e : Reached) : (all d).shows e = e.path.toString?.isSome := by
  have hall : (all d).filter.level (.ofNames e.names) (e.kind = .directory) = .allow :=
    Filter.level_empty _ _
  simp [shows, hall]

theorem enters_all (d : Path) (e : Reached) : (all d).enters e = e.path.toString?.isSome := by
  have hall : (all d).filter.level (.ofNames e.names) (e.kind = .directory) = .allow :=
    Filter.level_empty _ _
  simp [enters, hall]

end DirectoryTree

namespace World

open DirectoryTree

variable {w : World}

/-! ### What the reports are of -/

theorem isName_of_list (hw : w.IsWellNamed) {p : Path} {listed : List (Bytes × Kind)}
    (h : w.list p = .ok listed) : ∀ e ∈ listed, e.1.IsName := by
  intro e he
  rcases cases_of_list h with ⟨place, -, -, rfl⟩ | ⟨level, -, rfl⟩
  · obtain ⟨node, hnode, -⟩ := mem_children.1 he
    exact hw place e.1 node hnode
  · cases he

theorem look_eq_map (w : World) (e : Reached) :
    w.look e = (w.find e.isFollowed e.path).map Node.status := by
  unfold look
  split_ifs with hfollowed
  · rw [hfollowed]
    rfl
  · rw [Bool.not_eq_true] at hfollowed
    rw [hfollowed]
    rfl

/-- An entry is reported as what it is, with what is seen of it. -/
theorem exists_of_mem_entryCourse {e : Reached} {r : Report} (h : r ∈ (w.entryCourse e).reports) :
    ∃ s seen relative, w.look e = .ok s ∧ Metadata.ofStatus s = .ok seen ∧
      RelativePath.ofPath (e.kind ≠ .directory) (.ofNames e.names) = .ok relative ∧
      (e.kind = .directory ∨ e.kind = .file) ∧
      r = ⟨e.kind = .directory, e.path, relative, seen⟩ := by
  unfold entryCourse at h
  rcases hlook : w.look e with cause | s
  · rw [hlook] at h
    cases cause <;> cases h
  rw [hlook] at h
  dsimp only at h
  rcases hseen : Metadata.ofStatus s with failure | seen
  · rw [hseen] at h
    cases h
  · rw [hseen] at h
    dsimp only at h
    rcases hrelative : RelativePath.ofPath (e.kind ≠ .directory) (.ofNames e.names) with
      err | relative
    · rw [hrelative] at h
      cases h
    · rw [hrelative] at h
      refine ⟨s, seen, relative, rfl, hseen, rfl, ?_⟩
      cases hkind : e.kind with
      | file =>
        rw [hkind] at h
        exact ⟨Or.inr rfl, List.mem_singleton.1 h⟩
      | directory =>
        rw [hkind] at h
        exact ⟨Or.inl rfl, List.mem_singleton.1 h⟩
      | link =>
        rw [hkind] at h
        cases h
      | special =>
        rw [hkind] at h
        cases h

theorem names_of_mem_entryCourse {e : Reached} (hnames : ∀ n ∈ e.names, n.IsName) {r : Report}
    (h : r ∈ (w.entryCourse e).reports) :
    r.relative.names = e.names ∧ r.isDirectory = decide (e.kind = .directory) := by
  obtain ⟨s, seen, relative, -, -, hrelative, -, rfl⟩ := exists_of_mem_entryCourse h
  exact ⟨(RelativePath.names_of_ofPath hnames hrelative).2, rfl⟩

theorem names_of_reach {inside : List Path} {here : Path} {names : List Bytes}
    {entry : Bytes × Kind} {e : Reached} (h : w.reach inside here names entry = .ok e) :
    e.path = here.child entry.1 ∧ e.names = names ++ [entry.1] := by
  unfold reach at h
  split at h
  · cases h
  · cases h
    exact ⟨rfl, rfl⟩

theorem notMem_faultCourse (t : DirectoryTree) (fault : WalkFault) (r : Report) :
    r ∉ (t.faultCourse fault).reports := by
  unfold faultCourse
  split_ifs <;> exact List.not_mem_nil

theorem path_of_reach {inside : List Path} {root here : Path} {names : List Bytes}
    {entry : Bytes × Kind} {e : Reached} (hhere : here = root.below names)
    (h : w.reach inside here names entry = .ok e) : e.path = root.below e.names := by
  obtain ⟨hpath, henames⟩ := names_of_reach h
  rw [hpath, henames, Path.below_append, ← hhere]
  rfl

theorem isName_of_reach {inside : List Path} {here : Path} {names : List Bytes}
    {entry : Bytes × Kind} {e : Reached} (hnames : ∀ n ∈ names, n.IsName) (hname : entry.1.IsName)
    (h : w.reach inside here names entry = .ok e) : ∀ n ∈ e.names, n.IsName := by
  rw [(names_of_reach h).2]
  simpa only [List.forall_mem_append, List.forall_mem_singleton] using ⟨hnames, hname⟩

/-- Without a filter everything that is text is reported and walked through. -/
theorem reachedCourse_all {d : Path} {further : Reached → Course} {e : Reached}
    (htext : e.path.toString?.isSome = true) :
    w.reachedCourse (.all d) further (.ok e) =
      (w.entryCourse e).andThen (if e.kind = .directory then further e else .nothing) := by
  simp [reachedCourse, shows_all, enters_all, htext]

/-- What is no text is passed over. -/
theorem reachedCourse_of_not_text {t : DirectoryTree} {further : Reached → Course} {e : Reached}
    (htext : e.path.toString? = none) : w.reachedCourse t further (.ok e) = .nothing := by
  simp [reachedCourse, shows, enters, htext, Course.nothing, Course.andThen]

theorem enters_of_shows {t : DirectoryTree} {e : Reached} (h : t.shows e = true) :
    t.enters e = true := by
  simp only [shows, enters, Bool.and_eq_true, decide_eq_true_eq] at h ⊢
  exact ⟨h.1, by rw [h.2]; nofun⟩

/-- What is reported of something a walk comes upon is that it is there, or it is of what lies
below. -/
theorem exists_of_mem_reachedCourse {t : DirectoryTree} {further : Reached → Course}
    {x : Except WalkFault Reached} {r : Report} (h : r ∈ (w.reachedCourse t further x).reports) :
    ∃ e, x = .ok e ∧ t.enters e = true ∧ (r ∈ (w.entryCourse e).reports ∨
      e.kind = .directory ∧ r ∈ (further e).reports) := by
  rcases x with fault | e
  · exact absurd h (notMem_faultCourse t fault r)
  · refine ⟨e, rfl, ?_⟩
    rcases Course.mem_reports_andThen h with h | h
    · split_ifs at h with hshows
      · exact ⟨enters_of_shows hshows, Or.inl h⟩
      · cases h
    · split_ifs at h with hdown
      · rw [Bool.and_eq_true_iff, decide_eq_true_eq] at hdown
        exact ⟨hdown.2, Or.inr ⟨hdown.1, h⟩⟩
      · cases h

/-- **What is reported below a directory** lies below it. -/
theorem names_of_mem_belowCourse (hw : w.IsWellNamed) (t : DirectoryTree) {levels : Nat}
    {inside : List Path} {here : Path} {names : List Bytes} {listing : Listing}
    (hnames : ∀ n ∈ names, n.IsName)
    (hlisting : ∀ listed, listing = .ok listed → ∀ e ∈ listed, e.1.IsName) {r : Report}
    (h : r ∈ (w.belowCourse t levels inside here names listing).reports) :
    ∃ ext, (∀ n ∈ ext, n.IsName) ∧ r.relative.names = names ++ ext := by
  induction levels generalizing inside here names listing with
  | zero => cases h
  | succ levels ih =>
    cases listing with
    | error e => exact absurd h (notMem_faultCourse t _ r)
    | ok listed =>
      obtain ⟨c, hc, hr⟩ := Course.exists_of_mem_all h
      obtain ⟨entry, hentry, rfl⟩ := List.mem_map.1 hc
      have hname : entry.1.IsName :=
        hlisting listed rfl entry (List.mem_mergeSort.1 hentry)
      obtain ⟨e, he, -, hr⟩ := exists_of_mem_reachedCourse hr
      obtain ⟨-, henames⟩ := names_of_reach he
      have hnames' := isName_of_reach hnames hname he
      rcases hr with hr | ⟨-, hr⟩
      · refine ⟨[entry.1], by simpa using hname, ?_⟩
        rw [(names_of_mem_entryCourse hnames' hr).1, henames]
      · obtain ⟨ext, hext, hnames''⟩ := ih hnames' (fun _ => isName_of_list hw) hr
        refine ⟨entry.1 :: ext, by simpa using ⟨hname, hext⟩, ?_⟩
        rw [hnames'', henames, List.append_assoc]
        rfl

/-- A root that is a file is reported with what was seen of it. -/
theorem mem_reports_fileCourse {t : DirectoryTree} {s : Status} {r : Report}
    (h : r ∈ (fileCourse t s).reports) :
    r.path = t.root ∧ Metadata.ofStatus s = .ok r.seen := by
  unfold fileCourse at h
  split at h
  · cases h
  · split at h
    · cases h
    · split at h
      · cases h
      · split at h
        · cases h
        · split at h
          · cases h
          case _ hseen =>
            cases List.mem_singleton.1 h
            exact ⟨rfl, hseen⟩

/-- What is reported of a root that is to be a directory lies below it. -/
theorem mem_reports_directoryCourse {t : DirectoryTree} {r : Report}
    (h : r ∈ (w.directoryCourse t).reports) :
    r ∈ (w.belowCourse t maxPath [t.root] t.root [] (w.list t.root)).reports := by
  revert h
  unfold directoryCourse
  rcases w.linkStat t.root with e | s
  · exact fun h => absurd h (notMem_faultCourse t _ r)
  · dsimp only
    rcases (arrive (.still w) [] t.root s.kind).run with fault | ⟨kind, isFollowed⟩
    · exact fun h => absurd h (notMem_faultCourse t _ r)
    · dsimp only
      split_ifs
      · exact id
      · exact fun h => absurd h List.not_mem_nil

/-- What is reported is the root, if that is a file, or it lies below. -/
theorem mem_reports_course {t : DirectoryTree} {r : Report} (h : r ∈ (w.course t).reports) :
    (∃ s, w.stat t.root = .ok s ∧ r ∈ (fileCourse t s).reports) ∨
      r ∈ (w.belowCourse t maxPath [t.root] t.root [] (w.list t.root)).reports := by
  unfold course at h
  rcases hstat : w.stat t.root with e | s
  · rw [hstat] at h
    exact Or.inr (mem_reports_directoryCourse h)
  · rw [hstat] at h
    dsimp only at h
    split_ifs at h
    · exact Or.inl ⟨s, rfl, h⟩
    · exact Or.inr (mem_reports_directoryCourse h)

/-! ### Filtered courses -/

variable {d : Path} {f : Filter}

/-- What lies below a denied directory is not allowed. -/
theorem isAllowedBy_eq_false {names ext : List Bytes} (hnames : ∀ n ∈ names, n.IsName)
    (hext : ∀ n ∈ ext, n.IsName) (h : f.level (.ofNames names) true = .deny) {r : Report}
    (hr : r.relative.names = names ++ ext) : r.isAllowedBy f = false := by
  have hstart : (Path.ofNames (names ++ ext)).startsWith (.ofNames names) = true := by
    unfold Path.startsWith
    rw [Path.components_ofNames hnames, Path.components_ofNames (by
      simpa only [List.forall_mem_append] using ⟨hnames, hext⟩)]
    simp
  unfold Report.isAllowedBy
  rw [RelativePath.ofString_display, hr, Filter.level_eq_deny_of_startsWith h hstart]
  rfl

/-- Faults do not depend on the filter. -/
theorem faultCourse_filtered (fault : WalkFault) :
    (⟨d, f⟩ : DirectoryTree).faultCourse fault
      = ((all d).faultCourse fault).keep (Report.isAllowedBy f) := by
  unfold faultCourse
  split_ifs <;> rfl

/-- A filter does to one thing that a walk comes upon what it does to the whole walk. -/
theorem reachedCourse_filtered {further further' : Reached → Course} {e : Reached}
    (hnames : ∀ n ∈ e.names, n.IsName)
    (hbelow : ∀ r ∈ (further e).reports,
      ∃ ext, (∀ n ∈ ext, n.IsName) ∧ r.relative.names = e.names ++ ext)
    (hfurther : (further e).ending = none → further' e = (further e).keep (Report.isAllowedBy f))
    (hending : (w.reachedCourse (.all d) further (.ok e)).ending = none) :
    w.reachedCourse ⟨d, f⟩ further' (.ok e)
      = (w.reachedCourse (.all d) further (.ok e)).keep (Report.isAllowedBy f) := by
  rcases htext : e.path.toString? with _ | text
  · rw [reachedCourse_of_not_text htext, reachedCourse_of_not_text htext]
    rfl
  · rw [reachedCourse_all (by rw [htext]; rfl)] at hending ⊢
    obtain ⟨hentry, hrest⟩ := Course.ending_andThen.1 hending
    have hlevel : ∀ r ∈ (w.entryCourse e).reports, r.isAllowedBy f =
        decide (f.level (.ofNames e.names) (e.kind = .directory) = .allow) := by
      intro r hr
      obtain ⟨hrnames, hrkind⟩ := names_of_mem_entryCourse hnames hr
      rw [Report.isAllowedBy, RelativePath.ofString_display, hrnames, hrkind]
    -- What is below is walked through unless it is denied, and then nothing of it is allowed.
    have hdeeper : (if e.kind = .directory && (⟨d, f⟩ : DirectoryTree).enters e then further' e
        else .nothing) = (if e.kind = .directory then further e else .nothing).keep
          (Report.isAllowedBy f) := by
      by_cases hkind : e.kind = .directory
      · rw [if_pos hkind] at hrest ⊢
        by_cases hdeny : f.level (.ofNames e.names) true = .deny
        · have hnot : (⟨d, f⟩ : DirectoryTree).enters e = false := by simp [enters, hkind, hdeny]
          rw [hnot, Bool.and_false, if_neg Bool.false_ne_true, Course.keep_eq_nothing hrest]
          intro r hr
          obtain ⟨ext, hext, hrnames⟩ := hbelow r hr
          exact isAllowedBy_eq_false hnames hext hdeny hrnames
        · have hin : (⟨d, f⟩ : DirectoryTree).enters e = true := by
            simp [enters, htext, hkind, hdeny]
          rw [hin, if_pos (by simpa using hkind), hfurther hrest]
      · simp [hkind, Course.keep, Course.nothing]
    rw [reachedCourse, hdeeper, Course.keep_andThen]
    -- The entry itself is reported as the filter says.
    congr 1
    by_cases hallow : f.level (.ofNames e.names) (e.kind = .directory) = .allow
    · rw [if_pos (by simp [shows, htext, hallow]), Course.keep_eq_self]
      intro r hr
      rw [hlevel r hr, decide_eq_true hallow]
    · rw [if_neg (by simp [shows, hallow]), Course.keep_eq_nothing hentry]
      intro r hr
      rw [hlevel r hr, decide_eq_false hallow]

/-- **Below a directory a filter loses nothing that it allows**, and lets nothing else through. -/
theorem belowCourse_filtered (hw : w.IsWellNamed) {levels : Nat} {inside : List Path} {here : Path}
    {names : List Bytes} {listing : Listing} (hnames : ∀ n ∈ names, n.IsName)
    (hlisting : ∀ listed, listing = .ok listed → ∀ e ∈ listed, e.1.IsName)
    (hending : (w.belowCourse (.all d) levels inside here names listing).ending = none) :
    w.belowCourse ⟨d, f⟩ levels inside here names listing
      = (w.belowCourse (.all d) levels inside here names listing).keep
          (Report.isAllowedBy f) := by
  induction levels generalizing inside here names listing with
  | zero => rfl
  | succ levels ih =>
    cases listing with
    | error e => exact faultCourse_filtered _
    | ok listed =>
      rw [belowCourse, Course.ending_all, List.forall_mem_map] at hending
      rw [belowCourse, belowCourse]
      refine Course.all_keep fun entry hentry => ?_
      have hname : entry.1.IsName := hlisting listed rfl entry (List.mem_mergeSort.1 hentry)
      have hending' := hending entry hentry
      rcases he : w.reach inside here names entry with fault | e
      · exact faultCourse_filtered fault
      · have hnames' := isName_of_reach hnames hname he
        rw [he] at hending'
        refine reachedCourse_filtered hnames' (fun r hr => ?_) (fun hrest => ?_) hending'
        · exact names_of_mem_belowCourse hw _ hnames' (fun _ => isName_of_list hw) hr
        · exact ih hnames' (fun _ => isName_of_list hw) hrest

theorem directoryCourse_filtered (hw : w.IsWellNamed) :
    (w.directoryCourse (.all d)).ending = none →
    w.directoryCourse ⟨d, f⟩ = (w.directoryCourse (.all d)).keep (Report.isAllowedBy f) := by
  unfold directoryCourse
  rw [show (all d).root = d from rfl]
  rcases w.linkStat d with e | s
  · exact fun _ => faultCourse_filtered _
  · dsimp only
    rcases (arrive (.still w) [] d s.kind).run with fault | ⟨kind, isFollowed⟩
    · exact fun _ => faultCourse_filtered fault
    · dsimp only
      split_ifs
      · exact belowCourse_filtered hw (List.forall_mem_nil _) fun _ => isName_of_list hw
      · exact fun _ => rfl

theorem fileCourse_filtered (s : Status) :
    (fileCourse (.all d) s).ending = none →
    fileCourse ⟨d, f⟩ s = (fileCourse (.all d) s).keep (Report.isAllowedBy f) := by
  unfold fileCourse
  rw [show (all d).root = d from rfl]
  rcases d.fileName? with _ | name
  · exact fun _ => rfl
  · have hall : (all d).filter.level ⟨name⟩ false = .allow := Filter.level_empty _ _
    dsimp only
    rw [if_neg (not_not.2 hall)]
    rcases hname : Utf8.decode? name with _ | text
    · split_ifs <;> exact fun _ => rfl
    · dsimp only
      rcases hrelative : RelativePath.ofSegments true [text] with e | relative
      · exact nofun
      obtain ⟨rfl, -⟩ := RelativePath.isPlain_of_ofSegments hrelative
      dsimp only
      rcases Metadata.ofStatus s with failure | seen
      · exact nofun
      · have hshown : Path.ofString (⟨true, [text]⟩ : RelativePath).display = ⟨name⟩ := by
          rw [RelativePath.ofString_display, ← Utf8.encode_of_decode? hname]
          rfl
        have hlevel : Report.isAllowedBy f ⟨false, d, ⟨true, [text]⟩, seen⟩ =
            decide (f.level ⟨name⟩ false = .allow) := by
          rw [Report.isAllowedBy, hshown]
        intro _
        split_ifs with hallow
        · rw [Course.keep_eq_nothing rfl]
          simpa [Course.one, hlevel] using hallow
        · rw [Course.keep_eq_self]
          simpa [Course.one, hlevel] using hallow

/-- **The course of a filtered walk** is what the filter allows of the course of the full one. -/
theorem course_filtered (hw : w.IsWellNamed) :
    (w.course (.all d)).ending = none →
    w.course ⟨d, f⟩ = (w.course (.all d)).keep (Report.isAllowedBy f) := by
  unfold course
  rw [show (all d).root = d from rfl]
  rcases w.stat d with e | s
  · exact directoryCourse_filtered hw
  · dsimp only
    split_ifs
    · exact fileCourse_filtered s
    · exact directoryCourse_filtered hw

end World

end SnapStore
