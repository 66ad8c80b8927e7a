import SnapStore.Proofs.Session.Still
import SnapStore.Proofs.Store.Contents

/-!
# Entries of trees and entries of paths

What stands at a path can be learned in two ways: by asking for the path itself, and by asking for
the tree of a directory that it lies in. The one looks at the path, whatever leads there; the other
goes by what is listed on the way down and resolves links as it comes upon them. On a world that
stands still the two agree: an entry of a tree, taken out of the tree
(`SnapStore.Entry.takenOut`), is the entry of its own path.

Nothing is supposed of what has been answered before, so either of the two may come from a cache.
-/

namespace SnapStore

namespace Entry

/-- The snapshot of the file, if the entry is that of a file. -/
def snapshot? : Entry → Option FileSnapshot
  | missing _ _ => none
  | file _ _ _ s => some s
  | directory _ _ _ => none

/-- The entry as that of a root: it lies nowhere but at its own name. -/
def takenOut : Entry → Entry
  | missing p n => missing p n
  | file p r _ s => file p ⟨r.isFile, [r.name]⟩ true s
  | directory p r _ => directory p ⟨r.isFile, [r.name]⟩ true

@[simp] theorem path_takenOut (e : Entry) : e.takenOut.path = e.path := by cases e <;> rfl

@[simp] theorem fileType_takenOut (e : Entry) : e.takenOut.fileType = e.fileType := by
  cases e <;> rfl

@[simp] theorem name_takenOut (e : Entry) : e.takenOut.name = e.name := by cases e <;> rfl

@[simp] theorem snapshot?_takenOut (e : Entry) : e.takenOut.snapshot? = e.snapshot? := by
  cases e <;> rfl

end Entry

/-! ### Names -/

/-- A path with names joined on ends in the last of them. -/
theorem Path.fileName?_below (p : Path) {ns : List Bytes} (hns : ∀ n ∈ ns, n.IsName) {n : Bytes}
    (hlast : ns.getLast? = some n) : (p.below ns).fileName? = some n := by
  obtain ⟨front, rfl⟩ := List.getLast?_eq_some_iff.1 hlast
  rw [fileName?, components_below p hns, List.map_append, List.map_singleton, ← List.append_assoc,
    List.getLast?_concat]

/-- What a path ends in is a name. -/
theorem Path.isName_of_fileName? {p : Path} {n : Bytes} (h : p.fileName? = some n) : n.IsName := by
  unfold fileName? at h
  split at h
  · rename_i m hlast
    cases h
    exact isName_of_mem_components (List.mem_of_getLast? hlast)
  · cases h

/-- The name that a path goes by: what it ends in, or none. -/
def Path.finalName (p : Path) : String := (p.fileName?.map Utf8.repair).getD ""

/-- It is the one that the path ends in. -/
theorem Path.finalName_of_fileName? {p : Path} {name : String}
    (h : p.fileName? = some (Utf8.encode name)) : p.finalName = name := by
  rw [finalName, h, Option.map_some, Option.getD_some, Utf8.repair_encode]

/-- The last name of a relative path is its last segment. -/
theorem RelativePath.getLast?_names {r : RelativePath} (h : r.segments ≠ []) :
    r.names.getLast? = some (Utf8.encode r.name) := by
  rw [names, List.getLast?_map, name, lastName?, List.getLast?_eq_some_getLast h]
  rfl

/-- A name alone, as a relative path. -/
theorem RelativePath.ofPath_ofString {name : String} (h : (Utf8.encode name).IsName)
    (isFile : Bool) : ofPath isFile (.ofString name) = .ok ⟨isFile, [name]⟩ :=
  ofPath_ofNames (List.forall_mem_singleton.2 h : ∀ s ∈ [name], (Utf8.encode s).IsName)

/-! ### What is reported -/

/-- What is reported stands at its path, under the name that the path ends in. -/
structure Report.StandsAtPath (w : World) (r : Report) : Prop where
  /-- The path ends in the name. -/
  fileName : r.path.fileName? = some (Utf8.encode r.relative.name)
  /-- It is said of files that they are files. -/
  isFile : r.relative.isFile = !r.isDirectory
  /-- This is what is there. -/
  exists_node : ∃ node, w.find true r.path = .ok node ∧
    node.kind = (if r.isDirectory then .directory else .file) ∧
      Metadata.ofStatus node.status = .ok r.seen

namespace World

open DirectoryTree

variable {w : World} {c : String} {r : Report}

/-- A root that is a file is reported as it stands. -/
theorem standsAtPath_of_mem_fileCourse {root : Path} {content : Bytes} {modified : Timestamp}
    (hnode : w.find true root = .ok (.file content modified))
    (h : r ∈ (fileCourse (.all root) (Node.file content modified).status).reports) :
    r.path = root ∧ r.StandsAtPath w := by
  unfold fileCourse at h
  rw [show (all root).root = root from rfl] at h
  rcases hname : root.fileName? with _ | name
  · rw [hname] at h
    cases h
  · have hall : (all root).filter.level ⟨name⟩ false = .allow := Filter.level_empty _ _
    rw [hname] at h
    dsimp only at h
    rw [if_neg (not_not.2 hall)] at h
    rcases hdecode : Utf8.decode? name with _ | text
    · rw [hdecode] at h
      cases h
    · rw [hdecode] at h
      dsimp only at h
      rcases hrelative : RelativePath.ofSegments true [text] with e | relative
      · rw [hrelative] at h
        cases h
      · rw [hrelative] at h
        obtain ⟨rfl, -⟩ := RelativePath.isPlain_of_ofSegments hrelative
        obtain rfl := Utf8.encode_of_decode? hdecode
        dsimp only at h
        rcases hseen : Metadata.ofStatus (Node.file content modified).status with failure | seen
        · rw [hseen] at h
          cases h
        · rw [hseen] at h
          obtain rfl : r = ⟨false, root, ⟨true, [text]⟩, seen⟩ := List.mem_singleton.1 h
          exact ⟨rfl, hname, rfl, _, hnode, rfl, hseen⟩

/-- So is what lies below a root. -/
theorem standsAtPath_of_isOf {root : Path} {ns : List Bytes} (hne : ns ≠ [])
    (hns : ∀ n ∈ ns, n.IsName) (h : r.IsOf w root ns) : r.StandsAtPath w := by
  obtain ⟨hpath, rfl, hfile, hnode⟩ := h
  have hsegments : r.relative.segments ≠ [] := fun hnil =>
    hne (congrArg (List.map Utf8.encode) hnil)
  have hlast := RelativePath.getLast?_names hsegments
  refine ⟨?_, hfile, ?_⟩
  · rw [hpath]
    exact Path.fileName?_below root hns hlast
  · rw [hpath]
    exact hnode

/-- **Whatever a walk reports of stands at its path.** -/
theorem standsAtPath_of_mem_course (hw : w.IsWellNamed)
    (hc : (Path.ofString c).canonical w.workingDirectory = .ok c)
    (h : r ∈ (w.course (.all (.ofString c))).reports) :
    r.StandsAtPath w ∧ ∃ path, r.path = .ofString path ∧
      (Path.ofString path).canonical w.workingDirectory = .ok path := by
  by_cases hfile : ∃ content modified, w.find true (.ofString c) = .ok (.file content modified)
  · obtain ⟨content, modified, hnode⟩ := hfile
    rw [course_of_file hnode] at h
    obtain ⟨hpath, hstands⟩ := standsAtPath_of_mem_fileCourse hnode h
    exact ⟨hstands, c, hpath, hc⟩
  · have hdirectory := h
    rw [course_of_not_file hfile] at hdirectory
    obtain ⟨htext, place, hlocate, hplace⟩ := exists_of_mem_directoryCourse hdirectory
    obtain ⟨node, hnode, hkind⟩ := find_of_locate hlocate hplace
    have hcovers := covers_course hw htext (leadsToPlace_of_canonical hc) hnode hkind
    obtain ⟨ns, ⟨hne, hreaches⟩, hof⟩ := hcovers.sound r h
    have hns := isName_of_reaches hw hreaches
    refine ⟨standsAtPath_of_isOf hne hns hof, ?_⟩
    obtain ⟨path, hpath⟩ := exists_ofString_below c r.relative.segments
    obtain rfl : r.relative.segments.map Utf8.encode = ns := hof.relative
    refine ⟨path, hof.path.trans hpath.symm, ?_⟩
    rw [hpath]
    exact Path.canonical_below hc hns hpath

/-! ### Entries -/

/-- What is seen of a path on a world that stands still. -/
theorem bareHost_stat {p : Path} {node : Node} (h : w.find true p = .ok node) :
    w.bareHost.stat p = Metadata.ofStatus node.status := by
  have hstat : w.stat p = .ok node.status := by
    rw [World.stat, h]
    rfl
  have hlook : w.bareHost.stat p = Host.seenAt p (w.stat p) := Host.statBy_eq (.still w) p
  rw [hlook, hstat]
  rfl

/-- What is seen of a path that is refused: that nothing is there, or an error. -/
theorem bareHost_stat_of_refused {p : Path} {e : OsError} (h : w.find true p = .error e) :
    w.bareHost.stat p = Host.seenAt p (.error e) := by
  have hstat : w.stat p = .error e := by
    rw [World.stat, h]
    rfl
  have hlook : w.bareHost.stat p = Host.seenAt p (w.stat p) := Host.statBy_eq (.still w) p
  rw [hlook, hstat]

section Single

variable {path : String}

/-- Where not even the metadata of a path can be had, there is no entry, for the same reason. -/
theorem rightEntry_of_stat_error {failure : Failure}
    (h : w.bareHost.stat (.ofString path) = .error failure) :
    Host.rightEntry w path = .error failure := by
  change
    (ExceptT.bindCont (m := Id) _ (w.bareHost.stat (.ofString path)) : Except Failure Entry) = _
  rw [h]
  rfl

/-- The entry of a path that leads to nothing. -/
theorem rightEntry_of_nothing (hnode : w.find true (.ofString path) = .error .notFound) :
    Host.rightEntry w path = .ok (.missing path (Path.ofString path).finalName) := by
  change
    (ExceptT.bindCont (m := Id) _ (w.bareHost.stat (.ofString path)) : Except Failure Entry) = _
  rw [bareHost_stat_of_refused hnode]
  rfl

/-- There is no entry of a path to something whose time has no date. -/
theorem rightEntry_of_undated {node : Node} (hnode : w.find true (.ofString path) = .ok node)
    (hdated : ¬ node.status.modified.Representable) :
    Host.rightEntry w path = .error .panic :=
  rightEntry_of_stat_error
    ((bareHost_stat hnode).trans (Metadata.ofStatus_of_not_representable hdated))

/-- A path that is refused for any other reason has no entry. -/
theorem rightEntry_of_refused {e : OsError} (hnode : w.find true (.ofString path) = .error e)
    (he : e ≠ .notFound) :
    Host.rightEntry w path = .error (.error (.read ("metadata of " ++ path) e.text)) := by
  have hdisplay : (Path.ofString path).display = path := Utf8.repair_encode path
  have hseen : Host.seenAt (.ofString path) (.error e) =
      .error (.error (.read ("metadata of " ++ (Path.ofString path).display) e.text)) := by
    cases e <;> first | exact absurd rfl he | rfl
  refine rightEntry_of_stat_error ?_
  rw [bareHost_stat_of_refused hnode, hseen, hdisplay]

section Relative

variable {isFile : Bool} {r : RelativePath}
  (hrelative : RelativePath.ofPath isFile (.ofString (Path.ofString path).finalName) = .ok r)

include hrelative

/-- The entry of a path that leads to a directory, which goes by the final name. -/
theorem rightEntry_of_directory_named (hdirectory : isFile = false) {modified : Timestamp}
    (hnode : w.find true (.ofString path) = .ok (.directory modified))
    (hdated : modified.Representable) :
    Host.rightEntry w path = .ok (.directory path r true) := by
  subst hdirectory
  have hstat := (bareHost_stat hnode).trans (Metadata.ofStatus_of_representable hdated)
  change
    (ExceptT.bindCont (m := Id) _ (w.bareHost.stat (.ofString path)) : Except Failure Entry) = _
  rw [hstat]
  change (ExceptT.bindCont (m := Id) (fun relative => pure (.directory path relative true))
    (RelativePath.ofPath false (.ofString (Path.ofString path).finalName)) :
    Except Failure Entry) = _
  rw [hrelative]
  rfl

/-- The entry of a path that leads to a file, which goes by the final name. -/
theorem rightEntry_of_file_named (hfile : isFile = true) {content : Bytes} {modified : Timestamp}
    (hnode : w.find true (.ofString path) = .ok (.file content modified))
    (hdated : modified.Representable) :
    Host.rightEntry w path = .ok (.file path r true ⟨.ofMessage content, modified.text⟩) := by
  subst hfile
  have hstat := (bareHost_stat hnode).trans (Metadata.ofStatus_of_representable hdated)
  have hhashed : w.bareHost.hasher.file (.ofString path)
      ((Node.file content modified).status.metadata modified.text) =
        Except.ok (.ofMessage content) :=
    (sha256_file (m := Id) w _ _).trans (hashed_of_find hnode)
  change
    (ExceptT.bindCont (m := Id) _ (w.bareHost.stat (.ofString path)) : Except Failure Entry) = _
  rw [hstat]
  change (ExceptT.lift (w.bareHost.hasher.file (.ofString path)
    ((Node.file content modified).status.metadata modified.text)) >>= _ :
      ExceptT Failure Id Entry).run = _
  rw [hhashed]
  change (ExceptT.bindCont (m := Id)
    (fun relative => pure (.file path relative true ⟨.ofMessage content, modified.text⟩))
    (RelativePath.ofPath true (.ofString (Path.ofString path).finalName)) :
      Except Failure Entry) = _
  rw [hrelative]
  rfl

end Relative

variable {name : String} (hname : (Path.ofString path).fileName? = some (Utf8.encode name))

include hname

theorem ofPath_finalName (isFile : Bool) :
    RelativePath.ofPath isFile (.ofString (Path.ofString path).finalName) =
      .ok ⟨isFile, [name]⟩ := by
  rw [Path.finalName_of_fileName? hname]
  exact RelativePath.ofPath_ofString (Path.isName_of_fileName? hname) isFile

/-- The entry of a path that leads to a directory. -/
theorem rightEntry_of_directory {modified : Timestamp}
    (hnode : w.find true (.ofString path) = .ok (.directory modified))
    (hdated : modified.Representable) :
    Host.rightEntry w path = .ok (.directory path ⟨false, [name]⟩ true) :=
  rightEntry_of_directory_named (ofPath_finalName hname false) rfl hnode hdated

/-- The entry of a path that leads to a file. -/
theorem rightEntry_of_file {content : Bytes} {modified : Timestamp}
    (hnode : w.find true (.ofString path) = .ok (.file content modified))
    (hdated : modified.Representable) :
    Host.rightEntry w path =
      .ok (.file path ⟨true, [name]⟩ true ⟨.ofMessage content, modified.text⟩) :=
  rightEntry_of_file_named (ofPath_finalName hname true) rfl hnode hdated

end Single

/-- **The entry that is made of a report is that of its path**, but for being taken out. -/
theorem rightEntry_of_standsAtPath {path : String} (hpath : r.path = .ofString path)
    (hcanonical : (Path.ofString path).canonical w.workingDirectory = .ok path)
    (h : r.StandsAtPath w) {e : Entry} (he : w.entryOf r = .ok e) :
    e.path = path ∧ Host.rightEntry w path = .ok e.takenOut := by
  obtain ⟨isDirectory, p, relative, seen⟩ := r
  obtain ⟨hname, hfile, node, hnode, hkind, hseen⟩ := h
  dsimp only at hpath hname hfile hnode hkind hseen
  obtain ⟨hdated, rfl⟩ := Metadata.ofStatus_eq_ok_iff.1 hseen
  subst hpath
  unfold entryOf at he
  rw [keyOf_eq_ok_iff.2 hcanonical] at he
  cases node with
  | directory modified =>
    obtain rfl : isDirectory = true := by
      cases isDirectory <;> simp_all [Node.kind]
    cases he
    refine ⟨rfl, ?_⟩
    rw [rightEntry_of_directory hname hnode hdated, Entry.takenOut, hfile]
    rfl
  | file content modified =>
    obtain rfl : isDirectory = false := by
      cases isDirectory <;> simp_all [Node.kind]
    dsimp only [Bind.bind, Except.bind] at he
    rw [hashed_of_find hnode] at he
    cases he
    refine ⟨rfl, ?_⟩
    rw [rightEntry_of_file hname hnode hdated, Entry.takenOut, hfile]
    rfl
  | link target => cases isDirectory <;> simp_all [Node.kind]
  | special modified => cases isDirectory <;> simp_all [Node.kind]

/-- **An entry of a tree is the entry of its own path**, but for being taken out. -/
theorem rightEntry_of_mem_treeOf (hw : w.IsWellNamed)
    (hc : (Path.ofString c).canonical w.workingDirectory = .ok c) {base : Option String}
    {t : TreeSnapshot} (ht : w.treeOf base (w.course (.all (.ofString c))) = .ok t) {e : Entry}
    (he : e ∈ t.entries) :
    (Path.ofString e.path).canonical w.workingDirectory = .ok e.path ∧
      Host.rightEntry w e.path = .ok e.takenOut := by
  obtain ⟨-, -, hentries⟩ := of_treeOf w ht
  obtain ⟨r, hr, hre⟩ := exists_of_mem_mapM hentries he
  obtain ⟨hstands, path, hpath, hcanonical⟩ := standsAtPath_of_mem_course hw hc hr
  obtain ⟨rfl, hright⟩ := rightEntry_of_standsAtPath hpath hcanonical hstands hre
  exact ⟨hcanonical, hright⟩

end World

/-! ### Answers of a session -/

namespace Session

/-- **The entry of a path is the one that any tree has of it.** Whatever a session has answered
before on a world that stands still, an entry of a tree that it gives and the entry that it gives of
the same path are entries of the same kind, with the same name and, if it is a file, with the same
digest and time; they differ only in that the one is taken out of the tree. -/
theorem snapshotSelf_of_mem_tree {w : World} (hw : w.IsWellNamed) {c : String}
    (hc : (Path.ofString c).canonical w.workingDirectory = .ok c) {st : Strategy} {s s' : Session}
    (hs : s.IsStill w (HoldsRight w st)) (hs' : s'.IsStill w (HoldsRight w st)) {t : TreeSnapshot}
    (ht : (snapshotTree (.all (.ofString c)) s).1 = .ok t) {e : Entry} (he : e ∈ t.entries) :
    ∃ e', (snapshotSelf (.ofString e.path) s').1 = .ok e' ∧ e'.path = e.path ∧
      e'.fileType = e.fileType ∧ e'.name = e.name ∧ e'.snapshot? = e.snapshot? ∧
      e' = e.takenOut := by
  have htree : w.treeOf (some c) (w.course (.all (.ofString c))) = .ok t := by
    have hanswer := (rel_snapshotTree (t := .all (.ofString c))
      (Or.inr (World.isCanonical_ofString hc)) s hs).1
    have hbare := w.bareHost_snapshotTree (.all (.ofString c))
    rw [show (DirectoryTree.all (.ofString c)).root = .ofString c from rfl,
      World.keyOf_eq_ok_iff.2 hc] at hbare
    exact hbare.symm.trans (hanswer.symm.trans ht)
  obtain ⟨hcanonical, hright⟩ := World.rightEntry_of_mem_treeOf hw hc htree he
  have hself : (snapshotSelf (.ofString e.path) s').1 = .ok e.takenOut := by
    have hbare := w.bareHost_snapshotSelf (.ofString e.path)
    rw [World.keyOf_eq_ok_iff.2 hcanonical] at hbare
    exact ((rel_snapshotSelf (.ofString e.path) s' hs').1.trans hbare).trans hright
  exact ⟨_, hself, by simp, by simp, by simp, by simp, rfl⟩

/-- A file that is reached through a link to its directory, asked for after the tree. -/
theorem snapshotSelf_of_mem_tree_of_link :
    let w := (((World.empty.apply (.write (.ofString "/e/x") [] .epoch)).world.apply
      (.makeDirectory (.ofString "/d"))).world.apply
      (.link (.ofString "/e") (.ofString "/d/l"))).world
    let s := startOn w .all false false
    let s' := (snapshotTree (.all (.ofString "/d")) s).2
    w.IsWellNamed ∧ (Path.ofString "/d").canonical w.workingDirectory = .ok "/d" ∧
      s.IsStill w (HoldsRight w .default) ∧ s'.IsStill w (HoldsRight w .default) ∧
      ∃ t, (snapshotTree (.all (.ofString "/d")) s).1 = .ok t ∧
        ∃ e ∈ t.entries, e.path = "/d/l/x" ∧ e.fileType = .regularFile ∧
          ∃ e', (snapshotSelf (.ofString e.path) s').1 = .ok e' ∧ e'.path = e.path ∧
            e'.fileType = e.fileType ∧ e'.name = e.name ∧ e'.snapshot? = e.snapshot? ∧
            e' = e.takenOut := by
  intro w s s'
  have hw : w.IsWellNamed := ((World.isWellNamed_empty.apply _).apply _).apply _
  have hc : (Path.ofString "/d").canonical w.workingDirectory = .ok "/d" := by rfl
  have hs : s.IsStill w (HoldsRight w .default) := isStill_startOn (holdsRight_empty _ _ _) _ _
  have hs' : s'.IsStill w (HoldsRight w .default) :=
    (rel_snapshotTree (Or.inr (World.isCanonical_ofString hc)) s hs).2
  have hanswer : ((snapshotTree (.all (.ofString "/d")) s).1.toOption.bind fun t =>
      t.entries.find? fun e =>
        Utf8.encode e.path = Utf8.encode "/d/l/x" ∧ e.fileType = .regularFile).isSome = true := by
    decide +kernel
  obtain ⟨e, hfound⟩ := Option.isSome_iff_exists.1 hanswer
  rcases ht : (snapshotTree (.all (.ofString "/d")) s).1 with error | t
  · rw [ht] at hfound
    cases hfound
  · rw [ht] at hfound
    change t.entries.find? (fun e => decide (Utf8.encode e.path = Utf8.encode "/d/l/x" ∧
      e.fileType = .regularFile)) = some e at hfound
    have he : e ∈ t.entries := List.mem_of_find?_eq_some hfound
    have hfacts := List.find?_some hfound
    obtain ⟨hpath, htype⟩ := of_decide_eq_true hfacts
    exact ⟨hw, hc, hs, hs', t, rfl, e, he, Utf8.encode_injective hpath, htype,
      snapshotSelf_of_mem_tree hw hc hs hs' ht he⟩

end Session

end SnapStore
