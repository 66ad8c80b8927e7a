import SnapStore.Proofs.Path.Canonical
import SnapStore.Proofs.Session.Special

/-!
# Trees of files

A path that leads to a file has a tree as well, with that file and nothing else in it. So there are
three ways to come to the entry of a file: by its own path, by the tree of its own path, and by the
tree of the directory that it lies in. They agree on the path, the name, the digest and the time,
and the two entries in trees are even the same (`SnapStore.Session.snapshotTree_of_file`).

The ways part at one character. A root that is a file gets its relative path from
`SnapStore.RelativePath.ofSegments`, which refuses a backslash, and everything else from
`SnapStore.RelativePath.ofPath`, to which a backslash is as good as any other character. A file with
a backslash in its name has an entry of its own, then, and one in the tree of its directory, but it
has no tree.
-/

namespace SnapStore

namespace RelativePath

/-- A name that is text can be a segment unless there is a backslash in it. -/
theorem isPlain_iff_of_isName {name : String} (h : (Utf8.encode name).IsName) :
    IsPlain name ↔ '\\' ∉ name.toList := by
  obtain ⟨hne, hdot, hdotdot, hslash⟩ := Path.isSegment_iff_isName.2 h
  exact ⟨fun hplain => hplain.2.2.2.2, fun hback => ⟨hne, hdot, hdotdot, hslash, hback⟩⟩

/-- A single segment makes a path if it is plain. -/
theorem ofSegments_singleton (isFile : Bool) (s : String) :
    ofSegments isFile [s] =
      if IsPlain s then .ok ⟨isFile, [s]⟩ else .error (.badSegment s) := by
  by_cases hs : IsPlain s
  · rw [if_pos hs]
    exact ofSegments_of_forall_isPlain (List.forall_mem_singleton.2 hs)
  · rw [if_neg hs]
    simp [ofSegments, hs]

end RelativePath

namespace World

open DirectoryTree

variable {w : World} {c name : String} {content : Bytes} {modified : Timestamp}

/-! ### The tree of a file -/

/-- What is reported of a root that is a file: the file, if its name can be a segment. -/
theorem fileCourse_all {root : Path} (hname : root.fileName? = some (Utf8.encode name))
    (s : Status) :
    fileCourse (.all root) s =
      if RelativePath.IsPlain name then
        match Metadata.ofStatus s with
        | .error failure => .fail failure
        | .ok seen => .one ⟨false, root, ⟨true, [name]⟩, seen⟩
      else .fail (.error (.badSegment name)) := by
  have hall : (all root).filter.level ⟨Utf8.encode name⟩ false = .allow := Filter.level_empty _ _
  unfold fileCourse
  rw [show (all root).root = root from rfl, hname]
  dsimp only
  rw [if_neg (not_not.2 hall), Utf8.decode?_encode]
  dsimp only
  rw [RelativePath.ofSegments_singleton]
  split_ifs <;> rfl

section File

variable (hc : (Path.ofString c).canonical w.workingDirectory = .ok c)
  (hname : (Path.ofString c).fileName? = some (Utf8.encode name))
  (hnode : w.find true (.ofString c) = .ok (.file content modified))

include hc hname hnode

/-- The tree of a path that leads to a file whose name can be a segment. -/
theorem treeOf_of_file (hdated : modified.Representable) (hback : '\\' ∉ name.toList) :
    w.treeOf (some c) (w.course (.all (.ofString c))) =
      .ok ⟨some c, [.file c ⟨true, [name]⟩ false ⟨.ofMessage content, modified.text⟩]⟩ := by
  have hplain := (RelativePath.isPlain_iff_of_isName (Path.isName_of_fileName? hname)).2 hback
  have hseen : Metadata.ofStatus (Node.file content modified).status =
      .ok ((Node.file content modified).status.metadata modified.text) :=
    Metadata.ofStatus_of_representable hdated
  have hentry : w.entryOf ⟨false, .ofString c, ⟨true, [name]⟩,
      (Node.file content modified).status.metadata modified.text⟩ =
      .ok (.file c ⟨true, [name]⟩ false ⟨.ofMessage content, modified.text⟩) := by
    unfold entryOf
    dsimp only
    rw [keyOf_eq_ok_iff.2 hc, hashed_of_find hnode]
    rfl
  rw [course_of_file hnode, fileCourse_all hname, if_pos hplain, hseen, treeOf]
  dsimp only [Course.one]
  rw [List.mapM_cons, hentry]
  rfl

omit hc in
/-- There is no tree of a path that leads to a file with a backslash in its name. -/
theorem treeOf_of_backslash (hback : '\\' ∈ name.toList) :
    w.treeOf (some c) (w.course (.all (.ofString c))) = .error (.error (.badSegment name)) := by
  have hplain : ¬ RelativePath.IsPlain name := fun h =>
    (RelativePath.isPlain_iff_of_isName (Path.isName_of_fileName? hname)).1 h hback
  rw [course_of_file hnode, fileCourse_all hname, if_neg hplain]
  rfl

end File

/-- Only a path that leads to a file has the entry of a file. -/
theorem exists_file_of_rightEntry (hc : (Path.ofString c).canonical w.workingDirectory = .ok c)
    {e : Entry} (he : Host.rightEntry w c = .ok e) (hkind : e.fileType = .regularFile) :
    ∃ content modified, w.find true (.ofString c) = .ok (.file content modified) ∧
      modified.Representable := by
  rcases rightEntry_cases hc with ⟨-, hright⟩ | ⟨_, -, -, hright⟩ |
    ⟨content, modified, _, hnode, hdated, -⟩ | ⟨_, _, -, hright⟩ | ⟨-, -, hright⟩ | ⟨-, hright⟩
  · cases hright.symm.trans he
    cases hkind
  · cases hright.symm.trans he
  · exact ⟨content, modified, hnode, hdated⟩
  · cases hright.symm.trans he
    cases hkind
  · cases hright.symm.trans he
  · cases hright.symm.trans he

/-- A canonical path that leads to a file ends in a name: the root is a directory. -/
theorem exists_fileName?_of_file (hc : (Path.ofString c).canonical w.workingDirectory = .ok c)
    (hnode : w.find true (.ofString c) = .ok (.file content modified)) :
    ∃ name, (Path.ofString c).fileName? = some (Utf8.encode name) := by
  rcases hfile : (Path.ofString c).fileName? with _ | n
  · obtain ⟨ns, -, hnames, hroot⟩ := Path.exists_names_of_canonical hc
    rw [hroot, Path.fileName?_absoluteOfNames hnames] at hfile
    obtain rfl := List.getLast?_eq_none_iff.1 hfile
    rw [hroot] at hnode
    cases hnode
  · obtain ⟨name, rfl⟩ := Path.exists_encode_of_fileName? hc hfile
    exact ⟨name, rfl⟩

/-! ### The tree of its directory -/

/-- What a path with one more name leads to stands in the directory under that name. -/
theorem exists_node_of_find_child {p : Path} {place : Place}
    (hp : w.locate true p = .ok (.place place)) (hplace : w.isDirectory place = true) {n : Bytes}
    (hn : n.IsName) {found : Node} (hfound : w.find true (p.child n) = .ok found) :
    ∃ node, w.node? (place ++ [n]) = some node := by
  obtain ⟨spot, hspot⟩ := exists_locate_of_find hfound
  rcases hnode : w.node? (place ++ [n]) with _ | node
  · rcases resolve_child hp hplace hn with ⟨e, -, hresolve⟩ | ⟨left, hresolve⟩
    · rw [locate, hresolve] at hspot
      cases hspot
    · -- The name is missing, or it is refused for its length.
      rw [locate, hresolve, follow, advance_cons, lookUp, if_neg hn.2.2.1, if_neg hn.2.2.2] at hspot
      split_ifs at hspot
      · cases hspot
      · rw [hnode] at hspot
        cases hspot
  · exact ⟨node, rfl⟩

/-- **A file is in the tree of its directory**, whatever its name. -/
theorem mem_snapshotTree_of_child (hw : w.IsWellNamed) {d : String}
    (hd : (Path.ofString d).canonical w.workingDirectory = .ok d) {changed : Timestamp}
    (hdirectory : w.find true (.ofString d) = .ok (.directory changed))
    (hn : (Utf8.encode name).IsName)
    (hchild : (Path.ofString d).child (Utf8.encode name) = .ofString c)
    (hnode : w.find true (.ofString c) = .ok (.file content modified)) {t : TreeSnapshot}
    (ht : (w.bareHost.snapshotTree (.all (.ofString d))).run = Except.ok t) :
    .file c ⟨true, [name]⟩ false ⟨.ofMessage content, modified.text⟩ ∈ t.entries := by
  obtain ⟨place, hlocate, hplace⟩ := exists_of_find (leadsToPlace_of_canonical hd) hdirectory rfl
  have hfind : w.find true ((Path.ofString d).child (Utf8.encode name)) =
      .ok (.file content modified) := hchild ▸ hnode
  obtain ⟨node, hstands⟩ := exists_node_of_find_child hlocate hplace hn hfind
  have hreaches : w.Reaches (.ofString d) [Utf8.encode name] :=
    ⟨⟨_, node.kind, list_of_locate hlocate hplace, mem_children.2 ⟨node, hstands, rfl⟩⟩, trivial⟩
  have hbelow : w.IsBelow (.ofString d) [Utf8.encode name] :=
    ⟨List.cons_ne_nil _ _, hreaches, by simp [Utf8.decode?_encode],
      by rw [Path.below_cons, Path.below_nil, hfind]; nofun⟩
  have hsnapshot : some ⟨.ofMessage content, modified.text⟩ =
      w.snapshotAt ((Path.ofString d).below [Utf8.encode name]) := by
    rw [snapshotAt, Path.below_cons, Path.below_nil, hfind]
  obtain ⟨e, he, hat⟩ := (listsHeld_of_snapshotTree hd ht hw).exists_mem
    (.below (by simp) hlocate hplace hbelow hsnapshot)
  -- There is one entry of the names, and it is this one.
  have hentry : Entry.IsAt d ([name].map Utf8.encode) (some ⟨.ofMessage content, modified.text⟩)
      (.file c ⟨true, [name]⟩ false ⟨.ofMessage content, modified.text⟩) :=
    .below (List.cons_ne_nil _ _) (List.forall_mem_singleton.2 hn) hchild.symm
  rwa [hentry.eq hat]

end World

namespace Session

/-- **The tree of a file agrees with the entry of the file**, and with the tree of its directory.
Whatever sessions have answered before on a world that stands still: if the entry of a path is that
of a file then the tree of the path has one entry, which is that of the file under its name alone,
unless there is a backslash in the name; then there is no tree. The tree of the directory that the
file lies in has the same entry, if there is that tree, with a backslash in the name or without. -/
theorem snapshotTree_of_file {w : World} (hw : w.IsWellNamed) {c : String}
    (hc : (Path.ofString c).canonical w.workingDirectory = .ok c) {st : Strategy} {s s' : Session}
    (hs : s.IsStill w (HoldsRight w st)) (hs' : s'.IsStill w (HoldsRight w st)) {e : Entry}
    (he : (snapshotSelf (.ofString c) s).1 = .ok e) (hkind : e.fileType = .regularFile) :
    ∃ name snapshot, (Path.ofString c).fileName? = some (Utf8.encode name) ∧
      e = .file c ⟨true, [name]⟩ true snapshot ∧
      ('\\' ∉ name.toList → (snapshotTree (.all (.ofString c)) s').1 =
        .ok ⟨some c, [.file c ⟨true, [name]⟩ false snapshot]⟩) ∧
      ('\\' ∈ name.toList → (snapshotTree (.all (.ofString c)) s').1 =
        .error (.error (.badSegment name))) ∧
      ∀ d changed t, (Path.ofString d).canonical w.workingDirectory = .ok d →
        w.find true (.ofString d) = .ok (.directory changed) →
        (Path.ofString d).child (Utf8.encode name) = .ofString c →
        (snapshotTree (.all (.ofString d)) s').1 = .ok t →
        .file c ⟨true, [name]⟩ false snapshot ∈ t.entries := by
  have hright : Host.rightEntry w c = .ok e := (snapshotSelf_of_canonical hc hs).symm.trans he
  have htree := snapshotTree_of_canonical hc hs'
  obtain ⟨content, modified, hnode, hdated⟩ := World.exists_file_of_rightEntry hc hright hkind
  obtain ⟨name, hname⟩ := World.exists_fileName?_of_file hc hnode
  have hentry : e = .file c ⟨true, [name]⟩ true ⟨.ofMessage content, modified.text⟩ :=
    Except.ok.inj (hright.symm.trans (World.rightEntry_of_file hname hnode hdated))
  refine ⟨name, _, hname, hentry,
    fun hback => htree.trans (World.treeOf_of_file hc hname hnode hdated hback),
    fun hback => htree.trans (World.treeOf_of_backslash hname hnode hback), ?_⟩
  intro d changed t hd hdirectory hchild ht
  exact World.mem_snapshotTree_of_child hw hd hdirectory (Path.isName_of_fileName? hname) hchild
    hnode (bareHost_snapshotTree_of_snapshotTree hd hs' ht)

/-- A file with a backslash in its name: it has an entry, and the tree of its directory holds it,
but it has no tree. -/
theorem snapshotTree_of_file_of_backslash :
    let w := ((World.empty.apply (.makeDirectory (.ofString "/d"))).world.apply
      (.write (.ofString "/d/a\\b") [120] .epoch)).world
    let s := startOn w .all false false
    ∃ snapshot, (snapshotSelf (.ofString "/d/a\\b") s).1 =
        .ok (.file "/d/a\\b" ⟨true, ["a\\b"]⟩ true snapshot) ∧
      (snapshotTree (.all (.ofString "/d/a\\b")) s).1 =
        .error (.error (.badSegment "a\\b")) ∧
      ∃ t, (snapshotTree (.all (.ofString "/d")) s).1 = .ok t ∧
        .file "/d/a\\b" ⟨true, ["a\\b"]⟩ false snapshot ∈ t.entries := by
  intro w s
  have hw : w.IsWellNamed := (World.isWellNamed_empty.apply _).apply _
  have hc : (Path.ofString "/d/a\\b").canonical w.workingDirectory = .ok "/d/a\\b" := rfl
  have hs : s.IsStill w (HoldsRight w .default) := isStill_startOn (holdsRight_empty _ _ _) _ _
  obtain ⟨e, he, hkind⟩ : ∃ e, (snapshotSelf (.ofString "/d/a\\b") s).1 = .ok e ∧
      e.fileType = .regularFile := by
    have hself : (snapshotSelf (.ofString "/d/a\\b") s).1.toOption.map Entry.fileType =
      some .regularFile := by decide +kernel
    obtain ⟨e, he, hkind⟩ := Option.map_eq_some_iff.1 hself
    exact ⟨e, eq_ok_of_toOption he, hkind⟩
  obtain ⟨t, ht⟩ : ∃ t, (snapshotTree (.all (.ofString "/d")) s).1 = .ok t := by
    have htree : (snapshotTree (.all (.ofString "/d")) s).1.toOption.isSome := by decide +kernel
    obtain ⟨t, ht⟩ := Option.isSome_iff_exists.1 htree
    exact ⟨t, eq_ok_of_toOption ht⟩
  obtain ⟨name, snapshot, hname, rfl, -, hback, hparent⟩ :=
    snapshotTree_of_file hw hc hs hs he hkind
  have hsame : (Path.ofString "/d/a\\b").fileName? = some (Utf8.encode "a\\b") := rfl
  obtain rfl : name = "a\\b" := Utf8.encode_injective (Option.some.inj (hname.symm.trans hsame))
  exact ⟨snapshot, he, hback (by decide), t, ht, hparent "/d" _ t rfl rfl rfl ht⟩

end Session

end SnapStore
