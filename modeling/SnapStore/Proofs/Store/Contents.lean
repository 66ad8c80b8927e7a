import SnapStore.Proofs.Store.Walk
import SnapStore.Proofs.Tree.Complete

/-!
# What a tree holds

The tree of a directory has an entry for everything that reaches down from the directory
(`SnapStore.World.IsBelow`). The entry says where it lies, by its canonical path and by the names
below the root, and if it is a file, what is in it (`SnapStore.Entry.found`). A root that is a file
has a tree with one entry. Both are what the root **holds** (`SnapStore.World.Holds`), and
`SnapStore.World.treeOf_course` says that the tree of a walk has an entry for all of it, unless the
walk breaks off.

The canonical path is that of the key: on how the root was spelled it does not depend
(`SnapStore.World.entryOf_of_isOf`). What is found there is another matter, as the walk goes by the
path as it was spelled. So two trees for one key are equal exactly if their roots hold the same
(`SnapStore.World.ListsHeld.eq_iff`).
-/

namespace SnapStore

/-- What makes up the tree of a directory: the names that reach down from it and are text, unless
they are found to lead to nothing. -/
def World.IsBelow (w : World) (root : Path) (ns : List Bytes) : Prop :=
  ns ≠ [] ∧ w.Reaches root ns ∧ (∀ n ∈ ns, (Utf8.decode? n).isSome) ∧
    w.find true (root.below ns) ≠ .error .notFound

/-- The snapshot of the file that a path leads to, if it leads to a file. -/
def World.snapshotAt (w : World) (p : Path) : Option FileSnapshot :=
  match w.find true p with
  | .ok (.file content modified) => some ⟨.ofMessage content, modified.text⟩
  | _ => none

/-- The entry of something in a tree: of a file with this snapshot, or else of a directory. -/
def Entry.found (path : String) (segments : List String) : Option FileSnapshot → Entry
  | none => .directory path ⟨false, segments⟩ false
  | some snapshot => .file path ⟨true, segments⟩ false snapshot

theorem Entry.found_inj {path path' : String} {segments segments' : List String}
    {a a' : Option FileSnapshot} (h : found path segments a = found path' segments' a') :
    path = path' ∧ segments = segments' ∧ a = a' := by
  cases a <;> cases a' <;> simp_all [found]

namespace World

variable {w : World}

/-- Below a canonical path texts make a text. -/
theorem exists_ofString_below (c : String) (segments : List String) :
    ∃ path, Path.ofString path = (Path.ofString c).below (segments.map Utf8.encode) := by
  have hroot : (Path.ofString c).toString?.isSome = true := by simp
  have htext : ((Path.ofString c).below (segments.map Utf8.encode)).toString?.isSome = true := by
    refine Path.isSome_toString?_below hroot fun n hn => ?_
    obtain ⟨s, -, rfl⟩ := List.mem_map.1 hn
    rw [Utf8.decode?_encode]
    rfl
  obtain ⟨path, hpath⟩ := Option.isSome_iff_exists.1 htext
  exact ⟨path, congrArg Path.mk (Utf8.encode_of_decode? hpath)⟩

/-- **What is right to report makes the right entry**, under the canonical path. -/
theorem entryOf_of_isOf {root : Path} {c : String}
    (hroot : root.canonical w.workingDirectory = .ok c) {ns : List Bytes}
    (hns : ∀ n ∈ ns, n.IsName) {r : Report} (hr : r.IsOf w root ns) {path : String}
    (hpath : Path.ofString path = (Path.ofString c).below ns) :
    w.entryOf r = .ok (.found path r.relative.segments (w.snapshotAt (root.below ns))) := by
  obtain ⟨isDirectory, p, ⟨isFile, segments⟩, seen⟩ := r
  obtain ⟨hp, hnames, hfile, node, hnode, hkind, hseen⟩ := hr
  dsimp only at hp hfile hkind hseen
  obtain ⟨-, rfl⟩ := Metadata.ofStatus_eq_ok_iff.1 hseen
  have hkey : w.keyOf p = .ok path := by
    rw [keyOf_eq_ok_iff, hp]
    exact Path.canonical_below hroot hns hpath
  rw [hfile]
  unfold entryOf
  rw [hkey]
  cases node with
  | directory modified =>
    obtain rfl : isDirectory = true := by
      cases isDirectory <;> simp_all [Node.kind]
    rw [snapshotAt, hnode]
    rfl
  | file content modified =>
    obtain rfl : isDirectory = false := by
      cases isDirectory <;> simp_all [Node.kind]
    have hhashed : w.hashed p = .ok (.ofMessage content) := hashed_of_find (hp ▸ hnode)
    rw [snapshotAt, hnode]
    dsimp only [Bind.bind, Except.bind]
    rw [hhashed]
    rfl
  | link target => cases isDirectory <;> simp_all [Node.kind]
  | special modified => cases isDirectory <;> simp_all [Node.kind]

/-! ### All that a tree holds -/

/-- **What a root holds**: something at these names below it, a file with this snapshot or else a
directory. A root that is a file holds itself, under no names. -/
inductive Holds (w : World) (root : Path) : List Bytes → Option FileSnapshot → Prop
  /-- The root is a file. -/
  | alone {name : String} {content : Bytes} {modified : Timestamp}
    (hname : root.fileName? = some (Utf8.encode name))
    (hnode : w.find true root = .ok (.file content modified)) :
    Holds w root [] (some ⟨.ofMessage content, modified.text⟩)
  /-- The root is a directory, and this is below it. -/
  | below {place : Place} {ns : List Bytes} {a : Option FileSnapshot}
    (htext : root.toString?.isSome = true) (hlocate : w.locate true root = .ok (.place place))
    (hplace : w.isDirectory place = true) (hbelow : w.IsBelow root ns)
    (ha : a = w.snapshotAt (root.below ns)) : Holds w root ns a

/-- A path that has a canonical form leads to a place, if it leads anywhere. -/
theorem leadsToPlace_of_canonical {p : Path} {c : String}
    (h : p.canonical w.workingDirectory = .ok c) : w.LeadsToPlace p := by
  by_cases habs : p.isAbsolute = true
  · exact leadsToPlace_of_isAbsolute habs
  · have hhome : w.home.removed = [] := by
      unfold Path.canonical at h
      split_ifs at h
      unfold workingDirectory at h
      split_ifs at h with hremoved
      simpa [Home.isRemoved] using hremoved
    have hspot : w.home.spot = .place w.home.place := by
      rw [Home.spot, Home.ancestor, hhome]
      rfl
    intro spot hlocate
    obtain ⟨-, -, hfollow⟩ := follow_of_locate hlocate
    rw [if_neg habs, hspot] at hfollow
    exact exists_place_of_follow hfollow

end World

/-- The entry of something that a root holds, whose canonical form is known. -/
inductive Entry.IsAt (c : String) : List Bytes → Option FileSnapshot → Entry → Prop
  /-- The root itself, under its name. -/
  | alone {name : String} {a : Option FileSnapshot}
    (hname : (Path.ofString c).fileName? = some (Utf8.encode name)) :
    IsAt c [] a (.found c [name] a)
  /-- Something below the root. -/
  | below {path : String} {segments : List String} {a : Option FileSnapshot}
    (hne : segments ≠ []) (hnames : ∀ n ∈ segments.map Utf8.encode, n.IsName)
    (hpath : Path.ofString path = (Path.ofString c).below (segments.map Utf8.encode)) :
    IsAt c (segments.map Utf8.encode) a (.found path segments a)

namespace Entry.IsAt

variable {c : String} {ns ns' : List Bytes} {a a' : Option FileSnapshot} {e e' : Entry}

theorem map_encode_injective : Function.Injective (List.map Utf8.encode) :=
  List.map_injective_iff.2 fun _ _ => Utf8.encode_injective

/-- There is one entry of what is held. -/
theorem eq (h : e.IsAt c ns a) (h' : e'.IsAt c ns a) : e = e' := by
  generalize hns : ns = ms at h'
  cases h with
  | alone hname =>
    cases h' with
    | alone hname' =>
      rw [hname] at hname'
      rw [Utf8.encode_injective (Option.some.inj hname')]
    | below hne' _ _ => exact absurd (List.map_eq_nil_iff.1 hns.symm) hne'
  | below hne _ hpath =>
    cases h' with
    | alone _ => exact absurd (List.map_eq_nil_iff.1 hns) hne
    | below _ _ hpath' =>
      obtain rfl := map_encode_injective hns
      have hpaths := hpath.trans hpath'.symm
      rw [Utf8.encode_injective (congrArg Path.bytes hpaths)]

/-- An entry tells what it is of. -/
theorem inj (h : e.IsAt c ns a) (h' : e.IsAt c ns' a') : ns = ns' ∧ a = a' := by
  -- The path of an entry below the root is longer than that of the root.
  have hlonger : ∀ {path : String} {segments : List String}, segments ≠ [] →
      (∀ n ∈ segments.map Utf8.encode, n.IsName) →
      Path.ofString path = (Path.ofString c).below (segments.map Utf8.encode) → c ≠ path := by
    rintro path segments hne hnames hpath rfl
    have hlength := Path.length_lt_length_below (Path.ofString c)
      (mt List.map_eq_nil_iff.1 hne) fun n hn => (hnames n hn).1
    rw [← hpath] at hlength
    exact Nat.lt_irrefl _ hlength
  generalize he : e = f at h'
  cases h with
  | alone hname =>
    cases h' with
    | alone hname' =>
      exact ⟨rfl, (found_inj he).2.2⟩
    | below hne' hnames' hpath' => exact absurd (found_inj he).1 (hlonger hne' hnames' hpath')
  | below hne hnames hpath =>
    cases h' with
    | alone _ => exact absurd (found_inj he).1.symm (hlonger hne hnames hpath)
    | below _ _ _ =>
      obtain ⟨-, rfl, rfl⟩ := found_inj he
      exact ⟨rfl, rfl⟩

end Entry.IsAt

namespace World

open DirectoryTree

variable {w : World} {root : Path} {c : String}

/-- Entries that are those of all that a root holds, in order. -/
def ListsHeld (w : World) (root : Path) (c : String) (entries : List Entry) : Prop :=
  ∃ held : List (List Bytes × Option FileSnapshot),
    held.Pairwise (fun x y => compare x.1 y.1 = .lt) ∧
    (∀ x, x ∈ held ↔ w.Holds root x.1 x.2) ∧
    List.Forall₂ (fun x e => e.IsAt c x.1 x.2) held entries

/-- The reports of a course make entries: those of all that a root holds, unless the course breaks
off. -/
def Lists (w : World) (root : Path) (c : String) (course : Course) : Prop :=
  ∃ entries, course.reports.mapM w.entryOf = .ok entries ∧
    (course.ending = none → w.ListsHeld root c entries)

/-- No entry is listed where nothing is held. -/
theorem lists_nothing (h : ∀ ns a, ¬ w.Holds root ns a) : w.Lists root c .nothing :=
  ⟨[], rfl, fun _ => ⟨[], .nil, fun x => ⟨nofun, fun hx => absurd hx (h x.1 x.2)⟩, .nil⟩⟩

theorem lists_fail (e : Failure) : w.Lists root c (.fail e) := ⟨[], rfl, nofun⟩

theorem not_isDirectory_of_file {content : Bytes} {modified : Timestamp}
    (hnode : w.find true root = .ok (.file content modified)) {place : Place}
    (hlocate : w.locate true root = .ok (.place place)) : w.isDirectory place ≠ true := by
  intro hplace
  obtain ⟨node, hnode', hkind⟩ := find_of_locate hlocate hplace
  rw [hnode] at hnode'
  cases hnode'
  cases hkind

/-- A root that is a file holds itself. -/
theorem lists_fileCourse (hroot : root.canonical w.workingDirectory = .ok c) {content : Bytes}
    {modified : Timestamp} (hnode : w.find true root = .ok (.file content modified)) :
    w.Lists root c (fileCourse (.all root) (Node.file content modified).status) := by
  have hnothing : (∀ name, root.fileName? ≠ some (Utf8.encode name)) →
      ∀ ns a, ¬ w.Holds root ns a := by
    rintro hname ns a (⟨hname', -⟩ | ⟨-, hlocate, hplace, -, -⟩)
    · exact hname _ hname'
    · exact not_isDirectory_of_file hnode hlocate hplace
  unfold fileCourse
  rw [show (all root).root = root from rfl]
  rcases hname : root.fileName? with _ | name
  · exact lists_nothing (hnothing (by simp [hname]))
  · have hall : (all root).filter.level ⟨name⟩ false = .allow := Filter.level_empty _ _
    dsimp only
    rw [if_neg (not_not.2 hall)]
    rcases hdecode : Utf8.decode? name with _ | text
    · refine lists_nothing (hnothing fun text htext => ?_)
      rw [hname, Option.some.injEq] at htext
      rw [htext, Utf8.decode?_encode] at hdecode
      cases hdecode
    · dsimp only
      rcases hrelative : RelativePath.ofSegments true [text] with e | relative
      · exact lists_fail _
      · obtain ⟨rfl, -⟩ := RelativePath.isPlain_of_ofSegments hrelative
        obtain rfl := Utf8.encode_of_decode? hdecode
        dsimp only
        rcases hseen : Metadata.ofStatus (Node.file content modified).status with failure | seen
        · exact lists_fail failure
        obtain rfl : (Node.file content modified).status.metadata modified.text = seen :=
          (Metadata.ofStatus_eq_ok_iff.1 hseen).2
        have hentry : w.entryOf ⟨false, root, ⟨true, [text]⟩,
            (Node.file content modified).status.metadata modified.text⟩ =
            .ok (.found c [text] (some ⟨.ofMessage content, modified.text⟩)) := by
          unfold entryOf
          dsimp only
          rw [keyOf_eq_ok_iff.2 hroot, hashed_of_find hnode]
          rfl
        refine ⟨[.found c [text] (some ⟨.ofMessage content, modified.text⟩)], ?_, fun _ =>
          ⟨[([], some ⟨.ofMessage content, modified.text⟩)], List.pairwise_singleton _ _,
            fun x => ?_, .cons (.alone (Path.fileName?_of_canonical hroot hname)) .nil⟩⟩
        · change [_].mapM w.entryOf = _
          rw [List.mapM_cons, hentry]
          rfl
        · rw [List.mem_singleton]
          constructor
          · rintro rfl
            exact .alone hname hnode
          · obtain ⟨ns, a⟩ := x
            rintro (⟨-, hnode'⟩ | ⟨-, hlocate, hplace, -, -⟩)
            · rw [hnode] at hnode'
              cases hnode'
              rfl
            · exact absurd hplace (not_isDirectory_of_file hnode hlocate)

/-- What is reported of a directory is what is below it. -/
theorem exists_report_iff {course : Course}
    (hcovers : course.Covers w root fun ns => ns ≠ [] ∧ w.Reaches root ns)
    (hending : course.ending = none) {ns : List Bytes} :
    (∃ r ∈ course.reports, r.relative.names = ns) ↔ w.IsBelow root ns := by
  constructor
  · rintro ⟨r, hr, rfl⟩
    obtain ⟨ns, ⟨hne, hreaches⟩, hof⟩ := hcovers.sound r hr
    obtain ⟨node, hnode, -, -⟩ := hof.exists_node
    rw [hof.relative]
    exact ⟨hne, hreaches, hof.isSome_decode?, by rw [hnode]; nofun⟩
  · rintro ⟨hne, hreaches, htext, hfound⟩
    obtain ⟨r, hr, hof⟩ := (hcovers.complete hending ns ⟨hne, hreaches⟩ htext).resolve_left hfound
    exact ⟨r, hr, hof.relative⟩

/-- A directory holds what is below it. -/
theorem lists_of_covers (hw : w.IsWellNamed) (hroot : root.canonical w.workingDirectory = .ok c)
    (htext : root.toString?.isSome = true) {place : Place}
    (hlocate : w.locate true root = .ok (.place place)) (hplace : w.isDirectory place = true)
    {course : Course} (hcovers : course.Covers w root fun ns => ns ≠ [] ∧ w.Reaches root ns) :
    w.Lists root c course := by
  -- Entries are made whether or not the walk breaks off later.
  have hmade : ∀ r ∈ course.reports, ∃ e, w.entryOf r = .ok e ∧
      e.IsAt c r.relative.names (w.snapshotAt (root.below r.relative.names)) := by
    intro r hr
    obtain ⟨ns, ⟨hne, hreaches⟩, hof⟩ := hcovers.sound r hr
    obtain rfl : r.relative.segments.map Utf8.encode = ns := hof.relative
    obtain ⟨path, hpath⟩ := exists_ofString_below c r.relative.segments
    have hnames := isName_of_reaches hw hreaches
    exact ⟨_, entryOf_of_isOf hroot hnames hof hpath,
      .below (mt List.map_eq_nil_iff.2 hne) hnames hpath⟩
  obtain ⟨entries, hentries, hat⟩ := exists_mapM hmade
  refine ⟨entries, hentries, fun hending => ⟨course.reports.map fun r =>
    (r.relative.names, w.snapshotAt (root.below r.relative.names)), ?_, fun x => ?_, ?_⟩⟩
  · exact List.pairwise_map.2 hcovers.sorted
  · rw [List.mem_map]
    constructor
    · rintro ⟨r, hr, rfl⟩
      exact .below htext hlocate hplace ((exists_report_iff hcovers hending).1 ⟨r, hr, rfl⟩) rfl
    · obtain ⟨ns, a⟩ := x
      rintro (⟨-, hnode⟩ | ⟨-, -, -, hbelow, ha⟩)
      · exact absurd hplace (not_isDirectory_of_file hnode hlocate)
      · obtain ⟨r, hr, rfl⟩ := (exists_report_iff hcovers hending).2 hbelow
        exact ⟨r, hr, congrArg (Prod.mk _) ha.symm⟩
  · exact List.forall₂_map_left_iff.2 hat

/-- The course of a walk whose root is a file. -/
theorem course_of_file {content : Bytes} {modified : Timestamp}
    (hnode : w.find true root = .ok (.file content modified)) :
    w.course (.all root) = fileCourse (.all root) (Node.file content modified).status := by
  unfold course
  rw [show (all root).root = root from rfl, World.stat, hnode]
  exact if_pos rfl

/-- The course of a walk whose root is anything else, or nothing. -/
theorem course_of_not_file
    (hfile : ¬∃ content modified, w.find true root = .ok (.file content modified)) :
    w.course (.all root) = w.directoryCourse (.all root) := by
  unfold course
  rw [show (all root).root = root from rfl]
  rcases hfind : w.find true root with e | node
  · rw [World.stat, hfind]
    rfl
  · rw [World.stat, hfind]
    refine if_neg fun hkind => hfile ?_
    cases node with
    | file content modified => exact ⟨content, modified, hfind⟩
    | _ => cases hkind

/-- A walk whose root is refused breaks off, unless there is nothing at the root. -/
theorem course_of_refused {e : OsError} (h : w.find true root = .error e) :
    w.course (.all root) = (all root).faultCourse (.refused (some root) e) := by
  have hstat : w.stat root = .error e := by
    rw [World.stat, h]
    rfl
  rw [course_of_not_file (by simp [h]), directoryCourse, show (all root).root = root from rfl]
  -- It is refused itself, or else it is a link and what the link leads to is refused.
  rcases w.find_false_eq_or root with hfalse | ⟨target, hfalse⟩
  · rw [show w.linkStat root = .error e by rw [linkStat, hfalse, h]; rfl]
  · rw [show w.linkStat root = .ok (Node.link target).status by rw [linkStat, hfalse]; rfl]
    dsimp only
    rw [run_arrive, if_neg (fun hlink => hlink rfl), hstat]

/-- **A walk has an entry made for everything that its root holds**, in order, and no others,
unless it breaks off. -/
theorem lists_course (hw : w.IsWellNamed) (hroot : root.canonical w.workingDirectory = .ok c) :
    w.Lists root c (w.course (.all root)) := by
  have hleads := leadsToPlace_of_canonical hroot
  by_cases hfile : ∃ content modified, w.find true root = .ok (.file content modified)
  · obtain ⟨content, modified, hnode⟩ := hfile
    rw [course_of_file hnode]
    exact lists_fileCourse hroot hnode
  · by_cases hdirectory : root.toString?.isSome = true ∧
        ∃ place, w.locate true root = .ok (.place place) ∧ w.isDirectory place = true
    · obtain ⟨htext, place, hlocate, hplace⟩ := hdirectory
      obtain ⟨node, hnode, hkind⟩ := find_of_locate hlocate hplace
      exact lists_of_covers hw hroot htext hlocate hplace
        (covers_course hw htext hleads hnode hkind)
    · -- Neither a file nor a directory whose path is text: nothing is reported.
      have hreports : (w.course (.all root)).reports = [] := by
        rw [course_of_not_file hfile, List.eq_nil_iff_forall_not_mem]
        exact fun r hr => hdirectory (exists_of_mem_directoryCourse hr)
      have hnothing : ∀ ns a, ¬ w.Holds root ns a := by
        rintro ns a (⟨-, hnode⟩ | ⟨htext, hlocate, hplace, -, -⟩)
        · exact hfile ⟨_, _, hnode⟩
        · exact hdirectory ⟨htext, _, hlocate, hplace⟩
      rcases hending : (w.course (.all root)).ending with _ | e
      · rw [show w.course (.all root) = .nothing from Course.ext hreports hending]
        exact lists_nothing hnothing
      · rw [show w.course (.all root) = .fail e from Course.ext hreports hending]
        exact lists_fail e

/-- **The tree of a walk**: the failure that the walk ends in, or else all that its root holds. -/
theorem treeOf_course (hw : w.IsWellNamed) (hroot : root.canonical w.workingDirectory = .ok c) :
    (∃ e, (w.course (.all root)).ending = some e ∧
      w.treeOf (some c) (w.course (.all root)) = .error e) ∨
    ∃ entries, (w.course (.all root)).ending = none ∧
      w.treeOf (some c) (w.course (.all root)) = .ok ⟨some c, entries⟩ ∧
      w.ListsHeld root c entries := by
  obtain ⟨entries, hentries, hheld⟩ := lists_course hw hroot
  unfold treeOf
  rw [hentries]
  rcases hending : (w.course (.all root)).ending with _ | e
  · exact Or.inr ⟨entries, rfl, rfl, hheld hending⟩
  · exact Or.inl ⟨e, rfl, rfl⟩

/-- **What is listed is settled by what is held**, whatever the roots. -/
theorem ListsHeld.eq_iff {root' : Path} {es es' : List Entry} (h : w.ListsHeld root c es)
    (h' : w.ListsHeld root' c es') :
    es = es' ↔ ∀ ns a, w.Holds root ns a ↔ w.Holds root' ns a := by
  obtain ⟨held, hsorted, hheld, hentries⟩ := h
  obtain ⟨held', hsorted', hheld', hentries'⟩ := h'
  constructor
  · rintro rfl ns a
    have hsame : held = held' := by
      refine List.left_unique_forall₂' (fun x y e hx hy => ?_) hentries hentries'
      obtain ⟨hns, ha⟩ := hx.inj hy
      exact Prod.ext hns ha
    rw [← hheld (ns, a), ← hheld' (ns, a), hsame]
  · intro hsame
    obtain rfl : held = held' := Bytes.eq_of_mem_iff Prod.fst hsorted hsorted' fun x => by
      rw [hheld, hheld', hsame]
    exact List.right_unique_forall₂' (fun x e e' he he' => he.eq he') hentries hentries'

end World

end SnapStore
