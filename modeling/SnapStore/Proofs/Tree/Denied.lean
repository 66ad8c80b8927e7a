import SnapStore.Proofs.Tree.Subwalk
import SnapStore.Proofs.World.Avoidance

/-!
# What a walk passes by

The filter is asked about an entry only once the walk has arrived there: a link has been followed by
then, and if it could not be, or closes a loop, the filter is not asked at all. Where the walk
**gets past** an entry (`SnapStore.World.GetsPast`) that its filter denies, nothing is reported of
it. Then what stands there makes no difference to the walk, in worlds that are the same elsewhere
(`SnapStore.World.AgreesOff.course_eq`).

A filter goes by the names that the walk has come by, and links can lead it to one place by
different names. So the place has to be denied under all of them (`SnapStore.DirectoryTree.Denies`).
They are those of the states that the walk goes through (`SnapStore.World.WalkIsIn`): what it is
inside of, and by what names it got there. If the place is denied, none of these paths comes by it
(`SnapStore.World.WalkIsIn.avoids`), and so they are the same in both worlds
(`SnapStore.World.WalkIsIn.agreesOff`).
-/

namespace SnapStore

open DirectoryTree

namespace Course

/-- Courses in which nothing is reported can be left out. -/
theorem all_filter {α : Type} {f : α → Course} (keeps : α → Bool) {xs : List α}
    (h : ∀ x ∈ xs, keeps x = false → f x = nothing) :
    all ((xs.filter keeps).map f) = all (xs.map f) := by
  induction xs with
  | nil => rfl
  | cons x xs ih =>
    have hrest := ih fun y hy => h y (List.mem_cons_of_mem _ hy)
    rcases hx : keeps x with _ | _
    · rw [List.filter_cons_of_neg (by rw [hx]; exact Bool.false_ne_true), List.map_cons, all,
        h x List.mem_cons_self hx, andThen_of_ending rfl]
      exact hrest
    · rw [List.filter_cons_of_pos hx, List.map_cons, List.map_cons, all, all, hrest]

end Course

namespace World

/-! ### The states of a walk -/

/-- **Where a walk gets**: the directories that it is inside of, the path of the innermost, and the
names by which it has come there. -/
inductive WalkIsIn (w : World) (t : DirectoryTree) : List Path → Path → List Bytes → Prop
  /-- The walk begins at the root of the tree. -/
  | root : WalkIsIn w t [t.root] t.root []
  /-- It goes down into the directories that are listed. -/
  | into {inside : List Path} {here : Path} {names : List Bytes} {listed : List (Bytes × Kind)}
      {entry : Bytes × Kind} {e : Reached} (h : WalkIsIn w t inside here names)
      (hlist : w.list here = .ok listed) (hentry : entry ∈ listed)
      (hreach : w.reach inside here names entry = .ok e) (hkind : e.kind = .directory)
      (henters : t.enters e = true) : WalkIsIn w t (e.path :: inside) e.path e.names

/-- **Whether a walk gets past a link**: what it leads to is missing, or else it can be looked at
and is no directory that the walk is inside of. -/
def GetsPast (w : World) (inside : List Path) (p : Path) : Prop :=
  w.stat p = .error .notFound ∨
    ∃ s, w.stat p = .ok s ∧
      (s.kind = .directory → ∀ a ∈ inside, w.locate true a ≠ w.locate true p)

end World

/-- **A tree denies a name in a directory** if its filter does so by whatever names a walk comes
there. -/
def DirectoryTree.Denies (t : DirectoryTree) (w : World) (directory : Place) (n : Bytes) : Prop :=
  ∀ inside here names, w.WalkIsIn t inside here names →
    w.locate true here = .ok (.place directory) →
    ∀ isDirectory, t.filter.level (.ofNames (names ++ [n])) isDirectory = .deny

/-- **A walk gets past a name in a directory** if it does so wherever it finds it to be a link. -/
def DirectoryTree.GetsPast (t : DirectoryTree) (w : World) (directory : Place) (n : Bytes) : Prop :=
  ∀ inside here names, w.WalkIsIn t inside here names →
    w.locate true here = .ok (.place directory) →
    ∀ target, w.node? (directory ++ [n]) = some (.link target) → w.GetsPast inside (here.child n)

namespace World

variable {w w' : World} {t : DirectoryTree} {inside : List Path} {here : Path} {names : List Bytes}

theorem WalkIsIn.mem (hwalk : w.WalkIsIn t inside here names) : here ∈ inside := by
  cases hwalk <;> exact List.mem_cons_self

theorem exists_locate_of_list {p : Path} {listed : List (Bytes × Kind)}
    (h : w.list p = .ok listed) : ∃ spot, w.locate true p = .ok spot := by
  rcases cases_of_list h with ⟨place, hspot, -⟩ | ⟨level, hspot, -⟩
  · exact ⟨_, hspot⟩
  · exact ⟨_, hspot⟩

/-- What a walk is inside of is there, if it can list the innermost directory. -/
theorem WalkIsIn.exists_locate (hwalk : w.WalkIsIn t inside here names)
    {listed : List (Bytes × Kind)} (hlist : w.list here = .ok listed) :
    ∀ a ∈ inside, ∃ spot, w.locate true a = .ok spot := by
  induction hwalk generalizing listed with
  | root => exact List.forall_mem_singleton.2 (exists_locate_of_list hlist)
  | into _ houter _ _ _ _ ih =>
    exact List.forall_mem_cons.2 ⟨exists_locate_of_list hlist, ih houter⟩

/-- Whether the root is among some states of a walk, and with each state all that the walk goes on
to. -/
def isClosed (w : World) (t : DirectoryTree)
    (states : List (List Path × Path × List Bytes)) : Bool :=
  states.contains ([t.root], t.root, []) && states.all fun (inside, here, names) =>
    match w.list here with
    | .error _ => true
    | .ok listed => listed.all fun entry =>
      match w.reach inside here names entry with
      | .error _ => true
      | .ok e => !(e.kind = .directory && t.enters e) ||
          states.contains (e.path :: inside, e.path, e.names)

/-- Then they are all that there are. -/
theorem WalkIsIn.mem_of_isClosed {states : List (List Path × Path × List Bytes)}
    (h : w.isClosed t states = true) (hwalk : w.WalkIsIn t inside here names) :
    (inside, here, names) ∈ states := by
  rw [isClosed, Bool.and_eq_true_iff, List.all_eq_true] at h
  induction hwalk with
  | root => simpa using h.1
  | into hwalk hlist hentry hreach hkind henters ih =>
    have hstep := h.2 _ ih
    dsimp only at hstep
    rw [hlist] at hstep
    have hnext := List.all_eq_true.1 hstep _ hentry
    rw [hreach] at hnext
    simpa [hkind, henters] using hnext

/-! ### Nothing is reported of what is denied -/

/-- What a walk gets past does not end it. -/
theorem isVanished_of_getsPast (hinside : ∀ a ∈ inside, ∃ spot, w.locate true a = .ok spot)
    {entry : Bytes × Kind} (h : entry.2 = .link → w.GetsPast inside (here.child entry.1))
    {fault : WalkFault} (hreach : w.reach inside here names entry = .error fault) :
    fault.isVanished = true := by
  unfold reach at hreach
  rw [run_arrive] at hreach
  by_cases hlisted : entry.2 ≠ .link
  · rw [if_pos hlisted] at hreach
    cases hreach
  · rw [if_neg hlisted] at hreach
    rcases h (not_not.1 hlisted) with hmissing | ⟨s, hstat, hloop⟩
    · rw [hmissing] at hreach
      cases hreach
      rfl
    · rw [hstat] at hreach
      dsimp only at hreach
      split_ifs at hreach with hkind
      obtain ⟨node, hnode, -⟩ := exists_find_of_stat hstat
      obtain ⟨spot, hspot⟩ := exists_locate_of_find hnode
      have hno : (findLoop (.still w) (here.child entry.1) spot inside).run = .ok () := by
        rw [run_findLoop_eq_ok_iff]
        intro a ha
        obtain ⟨other, hother⟩ := hinside a ha
        refine ⟨other, hother, ?_⟩
        rintro rfl
        exact hloop hkind a ha (hother.trans hspot.symm)
      rw [hspot] at hreach
      dsimp only at hreach
      rw [hno] at hreach
      cases hreach

/-- **Nothing is reported of what is denied**, if the walk gets past it. -/
theorem reachedCourse_of_denied {further : Reached → Course} {entry : Bytes × Kind}
    (hinside : ∀ a ∈ inside, ∃ spot, w.locate true a = .ok spot)
    (hdenied : ∀ isDirectory, t.filter.level (.ofNames (names ++ [entry.1])) isDirectory = .deny)
    (hpast : entry.2 = .link → w.GetsPast inside (here.child entry.1)) :
    w.reachedCourse t further (w.reach inside here names entry) = .nothing := by
  rcases hreach : w.reach inside here names entry with fault | e
  · rw [reachedCourse, faultCourse, if_pos (isVanished_of_getsPast hinside hpast hreach)]
  · obtain ⟨-, henames⟩ := names_of_reach hreach
    have hlevel := hdenied (e.kind = .directory)
    rw [← henames] at hlevel
    simp [reachedCourse, shows, enters, hlevel, Course.nothing, Course.andThen]

/-! ### A walk does not come by what is denied -/

section Denied

variable {directory : Place} {n : Bytes}

/-- **Nothing is reported of the denied place** where the walk finds it. -/
theorem reachedCourse_of_place {further : Reached → Course} (hwalk : w.WalkIsIn t inside here names)
    (hlocate : w.locate true here = .ok (.place directory))
    (hplace : w.isDirectory directory = true)
    (hdenied : ∀ isDirectory, t.filter.level (.ofNames (names ++ [n])) isDirectory = .deny)
    (hpast : t.GetsPast w directory n) {kind : Kind} (hentry : (n, kind) ∈ w.children directory) :
    w.reachedCourse t further (w.reach inside here names (n, kind)) = .nothing := by
  refine reachedCourse_of_denied (hwalk.exists_locate (list_of_locate hlocate hplace)) hdenied ?_
  rintro rfl
  obtain ⟨node, hnode, hlink⟩ := mem_children.1 hentry
  cases node with
  | link target => exact hpast inside here names hwalk hlocate target hnode
  | file => cases hlink
  | directory => cases hlink
  | special => cases hlink

/-- **It is left out below its directory.** -/
theorem belowCourse_of_denied (hwalk : w.WalkIsIn t inside here names) {place : Place}
    (hlocate : w.locate true here = .ok (.place place)) (hplace : w.isDirectory place = true)
    (hdenied : place = directory →
      ∀ isDirectory, t.filter.level (.ofNames (names ++ [n])) isDirectory = .deny)
    (hpast : t.GetsPast w directory n) (levels : Nat) :
    w.belowCourse t (levels + 1) inside here names (.ok (w.children place)) =
      .all (((inOrder (w.children place)).filter fun entry =>
        !(place = directory ∧ entry.1 = n)).map fun entry => w.reachedCourse t
          (fun e => w.belowCourse t levels (e.path :: inside) e.path e.names (w.list e.path))
          (w.reach inside here names entry)) := by
  rw [belowCourse]
  refine (Course.all_filter _ ?_).symm
  rintro ⟨m, kind⟩ hentry hleft
  obtain ⟨rfl, rfl⟩ : place = directory ∧ m = n := by simpa using hleft
  exact reachedCourse_of_place hwalk hlocate hplace (hdenied rfl) hpast
    (List.mem_mergeSort.1 hentry)

/-- What is listed off a place and is not the place itself is off it as well. -/
theorem isOff_child {place : Place} (hplace : ¬ directory ++ [n] <+: place) {m : Bytes}
    (hne : ¬ (place = directory ∧ m = n)) : ¬ directory ++ [n] <+: place ++ [m] := by
  rw [List.prefix_concat_iff]
  rintro (hsame | hprefix)
  · obtain ⟨hd, hn⟩ := List.append_inj' hsame rfl
    exact hne ⟨hd.symm, (List.singleton_inj.1 hn).symm⟩
  · exact hplace hprefix

/-- The denied place is not entered. -/
theorem WalkIsIn.ne_of_enters (hwalk : w.WalkIsIn t inside here names)
    (hdenied : t.Denies w directory n) {place : Place}
    (hlocate : w.locate true here = .ok (.place place)) {entry : Bytes × Kind} {e : Reached}
    (hreach : w.reach inside here names entry = .ok e) (henters : t.enters e = true) :
    ¬ (place = directory ∧ entry.1 = n) := by
  rintro ⟨rfl, rfl⟩
  obtain ⟨-, henames⟩ := names_of_reach hreach
  have hlevel := hdenied inside here names hwalk hlocate
  rw [← henames] at hlevel
  simp [enters, hlevel] at henters

/-- What a path that avoids a place leads to is listed in both worlds, if it can be listed. -/
theorem AgreesOff.list_cases {r : Place} (h : w.AgreesOff r w') (hr : r ≠ []) {p : Path}
    (hp : w.Avoids r p) :
    (∃ e, w.list p = .error e ∧ w'.list p = .error e) ∨ (w.list p = .ok [] ∧ w'.list p = .ok []) ∨
      ∃ place, w.locate true p = .ok (.place place) ∧ w.isDirectory place = true ∧ ¬ r <+: place ∧
        w.list p = .ok (w.children place) ∧ w'.list p = .ok (w'.children place) := by
  have hsame := h.locate_eq hr hp true
  rcases hspot : w.locate true p with e | place | level
  · refine Or.inl ⟨e, ?_, ?_⟩
    · rw [World.list, hspot]
    · rw [World.list, hsame, hspot]
  · have hoff := h.isOff_of_locate hr hp hspot
    have hdirectory : w'.isDirectory place = w.isDirectory place := by
      rw [isDirectory, isDirectory, h.node? place (Spot.isOff_place.1 hoff)]
    rcases hplace : w.isDirectory place with _ | _
    · refine Or.inl ⟨.notDirectory, ?_, ?_⟩
      · rw [World.list, hspot]
        exact if_neg (by rw [hplace]; exact Bool.false_ne_true)
      · rw [World.list, hsame, hspot]
        exact if_neg (by rw [hdirectory, hplace]; exact Bool.false_ne_true)
    · exact Or.inr (Or.inr ⟨place, rfl, hplace, Spot.isOff_place.1 hoff,
        list_of_locate hspot hplace, list_of_locate (hsame.trans hspot) (hdirectory.trans hplace)⟩)
  · refine Or.inr (Or.inl ⟨?_, ?_⟩)
    · rw [World.list, hspot]
    · rw [World.list, hsame, hspot]

/-- Where something is listed there is a directory. -/
theorem AgreesOff.exists_place_of_list {r : Place} (h : w.AgreesOff r w') (hr : r ≠ []) {p : Path}
    (hp : w.Avoids r p) {listed : List (Bytes × Kind)} (hlist : w.list p = .ok listed)
    {entry : Bytes × Kind} (hentry : entry ∈ listed) :
    ∃ place, w.locate true p = .ok (.place place) ∧ w.isDirectory place = true ∧ ¬ r <+: place ∧
      entry ∈ w.children place ∧ w'.list p = .ok (w'.children place) := by
  rcases h.list_cases hr hp with
    ⟨e, herror, -⟩ | ⟨hnone, -⟩ | ⟨place, hlocate, hplace, hoff, hplaced, hplaced'⟩
  · rw [herror] at hlist
    cases hlist
  · rw [hnone] at hlist
    cases hlist
    cases hentry
  · rw [hplaced] at hlist
    cases hlist
    exact ⟨place, hlocate, hplace, hoff, hentry, hplaced'⟩

/-! ### The same is come upon in both worlds -/

section Agrees

variable (h : w.AgreesOff (directory ++ [n]) w')

include h

/-- The same is listed in a directory, but for the place itself. -/
theorem AgreesOff.mem_children_iff {place : Place} (hplace : ¬ directory ++ [n] <+: place)
    {entry : Bytes × Kind} (hne : ¬ (place = directory ∧ entry.1 = n)) :
    entry ∈ w'.children place ↔ entry ∈ w.children place := by
  obtain ⟨m, kind⟩ := entry
  rw [mem_children, mem_children, h.node? _ (isOff_child hplace hne)]

/-- It comes in the same order. -/
theorem AgreesOff.inOrder_filter {place : Place} (hplace : ¬ directory ++ [n] <+: place) :
    (inOrder (w'.children place)).filter (fun entry => !(place = directory ∧ entry.1 = n)) =
      (inOrder (w.children place)).filter fun entry => !(place = directory ∧ entry.1 = n) := by
  have hsorted : ∀ v : World, ((inOrder (v.children place)).filter
      fun entry => !(place = directory ∧ entry.1 = n)).Pairwise
        fun a b => compare [a.1] [b.1] = .lt := by
    refine fun v => ((inOrder_sorted (v.children_distinct place)).filter _).imp fun {a b} hab => ?_
    exact Bytes.compare_append_cons [] hab [] []
  refine Bytes.eq_of_mem_iff (fun entry => [entry.1]) (hsorted w') (hsorted w) fun entry => ?_
  rw [List.mem_filter, List.mem_filter, inOrder, inOrder, List.mem_mergeSort, List.mem_mergeSort]
  refine and_congr_left fun hkeeps => h.mem_children_iff hplace ?_
  exact not_and_or.2 (by simpa using hkeeps)

end Agrees

section Agrees

variable {r : Place} (h : w.AgreesOff r w') (hr : r ≠ [])

include h hr

theorem AgreesOff.findLoop_eq {child : Path} {spot : Spot} (hinside : ∀ a ∈ inside, w.Avoids r a) :
    (findLoop (.still w') child spot inside).run = (findLoop (.still w) child spot inside).run := by
  induction inside with
  | nil => rfl
  | cons a inside ih =>
    rw [List.forall_mem_cons] at hinside
    have hidentify : ∀ v : World, (Calls.still v).identify a = (pure (v.locate true a) : Id _) :=
      fun _ => rfl
    rw [findLoop, findLoop, hidentify, hidentify, h.locate_eq hr hinside.1, liftM_pure, pure_bind,
      pure_bind]
    rcases w.locate true a with e | other
    · rfl
    · dsimp only
      split_ifs
      · rfl
      · exact ih hinside.2

/-- An entry is arrived at as before if its path, and those of the directories that the walk is
inside of, avoid the place. -/
theorem AgreesOff.arrive_eq {path : Path} (hinside : ∀ a ∈ inside, w.Avoids r a)
    (hpath : w.Avoids r path) (listed : Kind) :
    (arrive (.still w') inside path listed).run = (arrive (.still w) inside path listed).run := by
  rw [run_arrive, run_arrive, h.stat_eq hr hpath, h.locate_eq hr hpath]
  simp only [h.findLoop_eq hr hinside]

theorem AgreesOff.reach_eq {entry : Bytes × Kind} (hinside : ∀ a ∈ inside, w.Avoids r a)
    (hchild : w.Avoids r (here.child entry.1)) :
    w'.reach inside here names entry = w.reach inside here names entry := by
  rw [reach, reach, h.arrive_eq hr hinside hchild]

/-- The same is reported of an entry if its path avoids the place, and the same is below it. -/
theorem AgreesOff.reachedCourse_eq {further further' : Reached → Course}
    {x : Except WalkFault Reached} (hx : ∀ e, x = .ok e → w.Avoids r e.path)
    (hfurther : ∀ e, x = .ok e → e.kind = .directory → t.enters e = true →
      further' e = further e) :
    w'.reachedCourse t further' x = w.reachedCourse t further x := by
  rcases x with fault | e
  · rfl
  · have hlook : w'.look e = w.look e := by
      rw [look, look, h.stat_eq hr (hx e rfl), h.linkStat_eq hr (hx e rfl)]
    rw [reachedCourse, reachedCourse, entryCourse, entryCourse, hlook]
    split_ifs with hshows hdown hdown
    · rw [Bool.and_eq_true_iff, decide_eq_true_eq] at hdown
      rw [hfurther e rfl hdown.1 hdown.2]
    · rfl
    · rw [Bool.and_eq_true_iff, decide_eq_true_eq] at hdown
      rw [hfurther e rfl hdown.1 hdown.2]
    · rfl

end Agrees

/-! ### A walk does not come by what is denied -/

section Avoiding

variable (hw : w.IsWellNamed) (hroot : w.Avoids (directory ++ [n]) t.root)
  (hlinks : w.LinksAvoid (directory ++ [n])) (hdenied : t.Denies w directory n)

include hw hlinks

/-- What is listed in a directory is come upon by a path that avoids the denied place, unless it is
that place. -/
theorem avoids_child (hhere : w.Avoids (directory ++ [n]) here) {place : Place}
    (hlocate : w.locate true here = .ok (.place place)) (hplace : w.isDirectory place = true)
    (hoff : ¬ directory ++ [n] <+: place) {entry : Bytes × Kind} (hentry : entry ∈ w.children place)
    (hne : ¬ (place = directory ∧ entry.1 = n)) :
    w.Avoids (directory ++ [n]) (here.child entry.1) :=
  hhere.child hlinks hlocate hplace (isName_of_list hw (list_of_locate hlocate hplace) entry hentry)
    (isOff_child hoff hne)

include hdenied

/-- So is whatever the walk does not leave out as denied. -/
theorem WalkIsIn.avoids_of_enters (hwalk : w.WalkIsIn t inside here names)
    (hhere : w.Avoids (directory ++ [n]) here) {listed : List (Bytes × Kind)}
    (hlist : w.list here = .ok listed) {entry : Bytes × Kind} (hentry : entry ∈ listed)
    {e : Reached} (hreach : w.reach inside here names entry = .ok e) (henters : t.enters e = true) :
    w.Avoids (directory ++ [n]) e.path := by
  obtain ⟨place, hlocate, hplace, hoff, hentry, -⟩ := (w.agreesOff_refl _).exists_place_of_list
    (List.concat_ne_nil n directory) hhere hlist hentry
  rw [(names_of_reach hreach).1]
  exact avoids_child hw hlinks hhere hlocate hplace hoff hentry
    (hwalk.ne_of_enters hdenied hlocate hreach henters)

include hroot

/-- **None of the paths of a walk comes by what is denied.** -/
theorem WalkIsIn.avoids (hwalk : w.WalkIsIn t inside here names) :
    ∀ a ∈ inside, w.Avoids (directory ++ [n]) a := by
  induction hwalk with
  | root => exact List.forall_mem_singleton.2 hroot
  | into hwalk hlist hentry hreach hkind henters ih =>
    exact List.forall_mem_cons.2 ⟨hwalk.avoids_of_enters hw hlinks hdenied (ih _ hwalk.mem) hlist
      hentry hreach henters, ih⟩

/-- **The walk gets to the same in the other world.** -/
theorem WalkIsIn.agreesOff (h : w.AgreesOff (directory ++ [n]) w')
    (hwalk : w.WalkIsIn t inside here names) : w'.WalkIsIn t inside here names := by
  induction hwalk with
  | root => exact .root
  | @into inside here names listed entry e hwalk hlist hentry hreach hkind henters ih =>
    have hinside := hwalk.avoids hw hroot hlinks hdenied
    have hhere := hinside here hwalk.mem
    obtain ⟨place, hlocate, hplace, hoff, hentry, hplaced'⟩ := h.exists_place_of_list
      (List.concat_ne_nil n directory) hhere hlist hentry
    have hne := hwalk.ne_of_enters hdenied hlocate hreach henters
    have hchild := avoids_child hw hlinks hhere hlocate hplace hoff hentry hne
    refine .into ih hplaced' ((h.mem_children_iff hoff hne).2 hentry) ?_ hkind henters
    rw [h.reach_eq (List.concat_ne_nil n directory) hinside hchild, hreach]

/-! ### The same is reported -/

section Courses

variable (h : w.AgreesOff (directory ++ [n]) w') (hpast : t.GetsPast w directory n)
  (hpast' : t.GetsPast w' directory n)

include h hpast hpast'

/-- **The same is reported below a directory** that the walk gets to. -/
theorem AgreesOff.belowCourse_eq (levels : Nat) (hwalk : w.WalkIsIn t inside here names) :
    w'.belowCourse t levels inside here names (w'.list here) =
      w.belowCourse t levels inside here names (w.list here) := by
  have hr := List.concat_ne_nil n directory
  induction levels generalizing inside here names with
  | zero => rfl
  | succ levels ih =>
    have hinside := hwalk.avoids hw hroot hlinks hdenied
    have hhere := hinside here hwalk.mem
    rcases h.list_cases hr hhere with ⟨e, herror, herror'⟩ | ⟨hnone, hnone'⟩ |
      ⟨place, hlocate, hplace, hoff, hplaced, hplaced'⟩
    · rw [herror, herror', belowCourse, belowCourse]
    · rw [hnone, hnone', belowCourse, belowCourse, inOrder, List.mergeSort_nil, List.map_nil,
        List.map_nil]
    · have hlocate' := (h.locate_eq hr hhere true).trans hlocate
      have hplace' : w'.isDirectory place = true := by
        rw [isDirectory, h.node? place hoff]
        exact hplace
      have hwalk' := hwalk.agreesOff hw hroot hlinks hdenied h
      have hlevel : place = directory →
          ∀ isDirectory, t.filter.level (.ofNames (names ++ [n])) isDirectory = .deny := by
        rintro rfl
        exact hdenied inside here names hwalk hlocate
      rw [hplaced, hplaced', belowCourse_of_denied hwalk hlocate hplace hlevel hpast,
        belowCourse_of_denied hwalk' hlocate' hplace' hlevel hpast', h.inOrder_filter hoff]
      -- What is not denied is come upon in both worlds alike.
      refine congrArg Course.all (List.map_congr_left fun entry hentry => ?_)
      rw [List.mem_filter, inOrder, List.mem_mergeSort] at hentry
      obtain ⟨hentry, hkept⟩ := hentry
      have hchild := avoids_child hw hlinks hhere hlocate hplace hoff hentry
        (not_and_or.2 (by simpa using hkept))
      rw [h.reach_eq hr hinside hchild]
      refine h.reachedCourse_eq hr (fun e hreach => ?_) fun e hreach hkind henters => ?_
      · rw [(names_of_reach hreach).1]
        exact hchild
      · exact ih (.into hwalk hplaced hentry hreach hkind henters)

theorem AgreesOff.directoryCourse_eq : w'.directoryCourse t = w.directoryCourse t := by
  have hr := List.concat_ne_nil n directory
  unfold directoryCourse
  rw [h.linkStat_eq hr hroot]
  rcases w.linkStat t.root with e | s
  · rfl
  · dsimp only
    rw [h.arrive_eq hr (List.forall_mem_nil _) hroot,
      h.belowCourse_eq hw hroot hlinks hdenied hpast hpast' maxPath .root]

/-- **What is denied makes no difference to a walk** that gets past it. -/
theorem AgreesOff.course_eq : w'.course t = w.course t := by
  rw [course, course, h.stat_eq (List.concat_ne_nil n directory) hroot,
    h.directoryCourse_eq hw hroot hlinks hdenied hpast hpast']

end Courses

/-- What is reported below a directory avoids what is denied. -/
theorem avoids_of_mem_belowCourse {levels : Nat} (hwalk : w.WalkIsIn t inside here names)
    {report : Report}
    (h : report ∈ (w.belowCourse t levels inside here names (w.list here)).reports) :
    w.Avoids (directory ++ [n]) report.path := by
  induction levels generalizing inside here names with
  | zero => cases h
  | succ levels ih =>
    have hhere := hwalk.avoids hw hroot hlinks hdenied here hwalk.mem
    rcases hlist : w.list here with e | listed
    · rw [hlist] at h
      exact absurd h (notMem_faultCourse t _ report)
    · rw [hlist, belowCourse] at h
      obtain ⟨c, hc, hreport⟩ := Course.exists_of_mem_all h
      obtain ⟨entry, hentry, rfl⟩ := List.mem_map.1 hc
      rw [inOrder, List.mem_mergeSort] at hentry
      obtain ⟨e, hreach, henters, hreport⟩ := exists_of_mem_reachedCourse hreport
      rcases hreport with hreport | ⟨hkind, hreport⟩
      · obtain ⟨-, -, -, -, -, -, -, rfl⟩ := exists_of_mem_entryCourse hreport
        exact hwalk.avoids_of_enters hw hlinks hdenied hhere hlist hentry hreach henters
      · exact ih (.into hwalk hlist hentry hreach hkind henters) hreport

/-- **What is reported avoids what is denied.** -/
theorem avoids_of_mem_course {report : Report} (h : report ∈ (w.course t).reports) :
    w.Avoids (directory ++ [n]) report.path := by
  rcases mem_reports_course h with ⟨s, -, hfile⟩ | hbelow
  · rw [(mem_reports_fileCourse hfile).1]
    exact hroot
  · exact avoids_of_mem_belowCourse hw hroot hlinks hdenied .root hbelow

end Avoiding

end Denied

end World

end SnapStore
