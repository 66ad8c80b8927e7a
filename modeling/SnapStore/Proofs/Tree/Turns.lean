import Mathlib.Logic.Function.Iterate
import SnapStore.Proofs.Tree.Complete

/-!
# A walk turn by turn

`SnapStore.DirectoryTree.visit` is a recursion into directories, and it is given a number of levels
that it may go down. Here the same walk is an iteration without any such number. Its state
(`SnapStore.WalkState`) is what has been reported so far and the directories that the walk is inside
of, the innermost first, each with what is left of its listing. One turn
(`SnapStore.World.turn`) takes the next item of the innermost listing, or leaves the directory if
there is none; a directory that is to be walked through is put in front of the others with its own
listing. The walk is over when it is inside of no directory any more.

The main statement is `SnapStore.World.exists_stateAfter_eq`: after finitely many turns the walk is
over, and what it has reported is its course. The induction is that of the course, on the levels
that are left: below a directory that has a level left for each byte that its path is short of
`SnapStore.World.maxPath`, and one more, the recursion never comes to a directory for which no level
is left. So the levels do not cut anything off.
-/

namespace SnapStore

open DirectoryTree

namespace Course

variable {c d e : Course}

theorem nothing_andThen : nothing.andThen c = c := rfl

theorem andThen_nothing : c.andThen nothing = c := by
  obtain ⟨reports, _ | e⟩ := c
  · simp [andThen, nothing]
  · rfl

theorem andThen_of_isSome_ending (h : c.ending.isSome = true) : c.andThen d = c := by
  obtain ⟨e, he⟩ := Option.isSome_iff_exists.1 h
  rw [andThen, he]

theorem andThen_assoc : (c.andThen d).andThen e = c.andThen (d.andThen e) := by
  obtain ⟨reports, _ | _⟩ := c
  · obtain ⟨reports', _ | _⟩ := d
    · simp [andThen]
    · rfl
  · rfl

end Course

/-- A directory that a walk is inside of. -/
structure OpenDirectory where
  /-- How the walk has come there. -/
  entry : Reached
  /-- What is left of its listing, in order. -/
  left : Listing

/-- How far a walk has got. -/
@[ext]
structure WalkState where
  /-- What has been reported so far. -/
  told : Course
  /-- The directories that the walk is inside of, the innermost first. -/
  inside : List OpenDirectory

/-- Going on with some course, inside of some directories, unless the course breaks off. -/
def WalkState.next (told c : Course) (inside : List OpenDirectory) : WalkState :=
  ⟨told.andThen c, if c.ending.isSome then [] else inside⟩

namespace WalkState

variable {told c d : Course} {inside inside' : List OpenDirectory}

theorem next_of_isSome (h : c.ending.isSome = true) :
    next told c inside = ⟨told.andThen c, []⟩ := by
  rw [next, if_pos h]

theorem next_of_eq_none (h : c.ending = none) : next told c inside = ⟨told.andThen c, inside⟩ := by
  rw [next, h]
  rfl

theorem next_nothing : next told .nothing inside = ⟨told, inside⟩ := by
  rw [next_of_eq_none rfl, Course.andThen_nothing]

/-- What breaks off does so whatever was to come. -/
theorem next_andThen_of_isSome (h : c.ending.isSome = true) :
    next told (c.andThen d) inside' = next told c inside := by
  rw [Course.andThen_of_isSome_ending h, next_of_isSome h, next_of_isSome h]

theorem next_andThen_of_eq_none (h : c.ending = none) :
    next told (c.andThen d) inside = next (told.andThen c) d inside := by
  rw [next, next, Course.andThen_assoc, Course.andThen_of_ending h]

end WalkState

namespace World

open WalkState (next next_of_isSome next_of_eq_none next_nothing next_andThen_of_isSome
  next_andThen_of_eq_none)

variable (w : World) (t : DirectoryTree)

/-! ### Turns -/

/-- A directory that the walk goes into. -/
def enter (e : Reached) : OpenDirectory := ⟨e, (w.list e.path).map inOrder⟩

/-- What is reported in a turn, and what the walk is inside of then: the next item is arrived at and
reported, and gone into if it is a directory that may hold something that belongs to the tree. -/
def take (outer : List OpenDirectory) : OpenDirectory → Course × List OpenDirectory
  | ⟨e, .error cause⟩ => (t.faultCourse (.refused (some e.path) cause), outer)
  | ⟨_, .ok []⟩ => (.nothing, outer)
  | ⟨e, .ok (item :: rest)⟩ =>
    let here : List OpenDirectory := ⟨e, .ok rest⟩ :: outer
    match w.reach (here.map (·.entry.path)) e.path e.names item with
    | .error fault => (t.faultCourse fault, here)
    | .ok found =>
      (if t.shows found then w.entryCourse found else .nothing,
        if found.kind = .directory && t.enters found then w.enter found :: here else here)

/-- **One turn of a walk.** When the walk is over, nothing happens any more. -/
def turn : WalkState → WalkState
  | ⟨told, []⟩ => ⟨told, []⟩
  | ⟨told, d :: outer⟩ => next told (w.take t outer d).1 (w.take t outer d).2

/-- How a walk begins that is to go through a directory. -/
def startDirectory : WalkState :=
  match w.linkStat t.root with
  | .error e => ⟨t.faultCourse (.refused (some t.root) e), []⟩
  | .ok s =>
    match (arrive (.still w) [] t.root s.kind).run with
    | .error fault => ⟨t.faultCourse fault, []⟩
    | .ok (kind, isFollowed) =>
      ⟨.nothing, if kind = .directory then [w.enter ⟨t.root, [], kind, isFollowed⟩] else []⟩

/-- **How a walk begins.** -/
def start : WalkState :=
  match w.stat t.root with
  | .ok s => if s.kind = .file then ⟨fileCourse t s, []⟩ else w.startDirectory t
  | .error _ => w.startDirectory t

/-- **How far a walk has got after so many turns.** -/
def stateAfter (turns : Nat) : WalkState := (w.turn t)^[turns] (w.start t)

/-- **What a turn can do**: the walk leaves the innermost directory, or it takes an item of it, and
then it may go into the directory that it has come upon. -/
theorem snd_take_cases (d : OpenDirectory) (outer : List OpenDirectory) :
    (w.take t outer d).2 = outer ∨ ∃ e item rest, d = ⟨e, .ok (item :: rest)⟩ ∧
      ((w.take t outer d).2 = ⟨e, .ok rest⟩ :: outer ∨ ∃ found,
        w.reach (e.path :: outer.map (·.entry.path)) e.path e.names item = .ok found ∧
          found.kind = .directory ∧
          (w.take t outer d).2 = w.enter found :: ⟨e, .ok rest⟩ :: outer) := by
  obtain ⟨e, _ | _ | ⟨item, rest⟩⟩ := d
  · exact Or.inl rfl
  · exact Or.inl rfl
  · refine Or.inr ⟨e, item, rest, rfl, ?_⟩
    rw [take, List.map_cons]
    dsimp only
    rcases hreach : w.reach (e.path :: outer.map (·.entry.path)) e.path e.names item with
      fault | found
    · exact Or.inl (by rw [hreach])
    · rw [hreach]
      dsimp only
      split_ifs with hdown
      · rw [Bool.and_eq_true] at hdown
        exact Or.inr ⟨found, rfl, of_decide_eq_true hdown.1, rfl⟩
      · exact Or.inl rfl

/-! ### Getting from one state to another -/

/-- Whether a walk gets from one state to another. -/
def GetsTo (s s' : WalkState) : Prop := ∃ turns, (w.turn t)^[turns] s = s'

variable {w t} {s s' s'' : WalkState}

theorem GetsTo.refl : w.GetsTo t s s := ⟨0, rfl⟩

theorem GetsTo.trans (h : w.GetsTo t s s') (h' : w.GetsTo t s' s'') : w.GetsTo t s s'' := by
  obtain ⟨n, rfl⟩ := h
  obtain ⟨m, rfl⟩ := h'
  exact ⟨m + n, Function.iterate_add_apply _ m n s⟩

theorem GetsTo.turn (h : w.GetsTo t (w.turn t s) s') : w.GetsTo t s s' := by
  obtain ⟨n, rfl⟩ := h
  exact ⟨n + 1, rfl⟩

theorem GetsTo.take (told : Course) (outer : List OpenDirectory) (d : OpenDirectory) :
    w.GetsTo t ⟨told, d :: outer⟩ (next told (w.take t outer d).1 (w.take t outer d).2) :=
  .turn .refl

/-- **One course and then another**, if the first does not break off. -/
theorem GetsTo.andThen {told c d : Course} {inside inside' : List OpenDirectory}
    (h : w.GetsTo t s (next told c inside))
    (h' : w.GetsTo t ⟨told.andThen c, inside⟩ (next (told.andThen c) d inside')) :
    w.GetsTo t s (next told (c.andThen d) inside') := by
  rcases hending : c.ending with _ | e
  · rw [next_of_eq_none hending] at h
    rw [next_andThen_of_eq_none hending]
    exact h.trans h'
  · have hsome : c.ending.isSome = true := by rw [hending]; rfl
    rw [next_andThen_of_isSome hsome]
    exact h

/-! ### Walking through a directory -/

/-- The course of what is listed in a directory. -/
theorem belowCourse_eq (levels : Nat) (inside : List Path) (here : Path) (names : List Bytes) :
    w.belowCourse t (levels + 1) inside here names (w.list here) =
      match (w.list here).map inOrder with
      | .error e => t.faultCourse (.refused (some here) e)
      | .ok left => .all <| left.map fun item =>
        w.reachedCourse t
          (fun e => w.belowCourse t levels (e.path :: inside) e.path e.names (w.list e.path))
          (w.reach inside here names item) := by
  rcases w.list here with e | listed <;> rfl

/-- What can be listed has a path that can be looked up. -/
theorem length_lt_of_list {p : Path} {listed : List (Bytes × Kind)} (h : w.list p = .ok listed) :
    p.bytes.length < maxPath := by
  rcases cases_of_list h with ⟨place, hspot, -⟩ | ⟨level, hspot, -⟩
  · exact (follow_of_locate hspot).2.1
  · exact (follow_of_locate hspot).2.1

/-- **A walk gets through an item**, if it gets through the directory that may be behind it. -/
theorem getsTo_of_item {e : Reached} {item : Bytes × Kind} {rest : List (Bytes × Kind)}
    {outer : List OpenDirectory} {further : Reached → Course} (told : Course)
    (h : ∀ found, w.reach (e.path :: outer.map (·.entry.path)) e.path e.names item = .ok found →
      ∀ told, w.GetsTo t ⟨told, w.enter found :: ⟨e, .ok rest⟩ :: outer⟩
        (next told (further found) (⟨e, .ok rest⟩ :: outer))) :
    w.GetsTo t ⟨told, ⟨e, .ok (item :: rest)⟩ :: outer⟩ (next told
      (w.reachedCourse t further
        (w.reach (e.path :: outer.map (·.entry.path)) e.path e.names item))
      (⟨e, .ok rest⟩ :: outer)) := by
  have htake := GetsTo.take (w := w) (t := t) told outer ⟨e, .ok (item :: rest)⟩
  rw [World.take, List.map_cons] at htake
  rcases hreach : w.reach (e.path :: outer.map (·.entry.path)) e.path e.names item
    with fault | found
  · rw [hreach] at htake ⊢
    exact htake
  · rw [hreach] at htake ⊢
    rw [reachedCourse]
    refine htake.andThen ?_
    dsimp only
    by_cases hdown : (found.kind = .directory && t.enters found) = true
    · rw [if_pos hdown, if_pos hdown]
      exact h found hreach _
    · rw [if_neg hdown, if_neg hdown, next_nothing]
      exact .refl

/-- So it gets through the items of a directory, one after the other, and then leaves it. -/
theorem getsTo_of_items {e : Reached} {left : List (Bytes × Kind)} {outer : List OpenDirectory}
    {course : Bytes × Kind → Course} (told : Course)
    (h : ∀ item ∈ left, ∀ rest told, w.GetsTo t ⟨told, ⟨e, .ok (item :: rest)⟩ :: outer⟩
      (next told (course item) (⟨e, .ok rest⟩ :: outer))) :
    w.GetsTo t ⟨told, ⟨e, .ok left⟩ :: outer⟩ (next told (.all (left.map course)) outer) := by
  induction left generalizing told with
  | nil => exact GetsTo.turn .refl
  | cons item rest ih =>
    rw [List.forall_mem_cons] at h
    rw [List.map_cons, Course.all]
    exact (h.1 rest told).andThen (ih _ h.2)

/-- **A walk gets through a directory** and reports its course, and then it is inside of the
directories around it, unless it has broken off. -/
theorem getsTo_of_enter (hw : w.IsWellNamed) {levels : Nat} {e : Reached}
    (hlevels : maxPath < levels + e.path.bytes.length) (hpos : 0 < levels)
    (told : Course) (outer : List OpenDirectory) :
    w.GetsTo t ⟨told, w.enter e :: outer⟩ (next told
      (w.belowCourse t levels (e.path :: outer.map (·.entry.path)) e.path e.names (w.list e.path))
      outer) := by
  induction levels generalizing e told outer with
  | zero => omega
  | succ levels ih =>
    rw [belowCourse_eq, enter]
    rcases hlist : w.list e.path with cause | listed
    · exact GetsTo.turn .refl
    · have hshort := length_lt_of_list hlist
      refine getsTo_of_items told fun item hitem rest told => getsTo_of_item told ?_
      intro found hreach told
      -- The path has become longer, so one level less is enough.
      have hname := isName_of_list hw hlist item (List.mem_mergeSort.1 hitem)
      obtain ⟨hpath, -⟩ := names_of_reach hreach
      have hlonger := hpath ▸ Path.length_lt_length_child e.path hname.1
      exact ih (by omega) (by omega) told (⟨e, .ok rest⟩ :: outer)

/-! ### The whole walk -/

theorem getsTo_startDirectory (hw : w.IsWellNamed) :
    w.GetsTo t (w.startDirectory t) ⟨w.directoryCourse t, []⟩ := by
  unfold startDirectory directoryCourse
  rcases hlink : w.linkStat t.root with e | s
  · exact .refl
  · dsimp only
    rcases (arrive (.still w) [] t.root s.kind).run with fault | ⟨kind, isFollowed⟩
    · exact .refl
    · dsimp only
      split_ifs with hkind
      · -- The empty path leads nowhere.
        have hne : t.root.bytes ≠ [] := by
          intro hempty
          simp [linkStat, find, locate, resolve, hempty, Except.map] at hlink
        have hpos := List.length_pos_iff.2 hne
        have hlevels : maxPath < maxPath + t.root.bytes.length := Nat.lt_add_of_pos_right hpos
        have hgets := getsTo_of_enter (t := t) hw (e := ⟨t.root, [], kind, isFollowed⟩) hlevels
          (by decide) .nothing []
        rwa [next, Course.nothing_andThen, ite_self] at hgets
      · exact .refl

/-- **A walk is over after finitely many turns**, and what it has reported then is its course. -/
theorem exists_stateAfter_eq (hw : w.IsWellNamed) (t : DirectoryTree) :
    ∃ turns, w.stateAfter t turns = ⟨w.course t, []⟩ := by
  change w.GetsTo t (w.start t) _
  unfold start course
  rcases w.stat t.root with e | s
  · exact getsTo_startDirectory hw
  · dsimp only
    split_ifs
    · exact .refl
    · exact getsTo_startDirectory hw

end World

end SnapStore
