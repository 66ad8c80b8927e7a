import SnapStore.Proofs.Session.Still
import SnapStore.Proofs.Store.Contents

/-!
# The whole tree of a directory

What the tree of a directory should be can be said without walking: one entry for all names that
reach down from the directory, are text and lead somewhere (`SnapStore.Entry.IsOf`), in increasing
order. `SnapStore.Session.snapshotTree_whole` shows that a session which answers a request for the
tree of a directory answers with this.
-/

namespace SnapStore

/-- The entry that belongs to names below a root: of a directory, or of a file with the digest of
its content, as the names lead to one or the other. -/
inductive Entry.IsOf (w : World) (root : Path) : List Bytes → Entry → Prop
  /-- Of a directory. -/
  | directory {path : String} {segments : List String} {modified : Timestamp}
    (hpath : Path.ofString path = root.below (segments.map Utf8.encode))
    (hnode : w.find true (root.below (segments.map Utf8.encode)) = .ok (.directory modified)) :
    IsOf w root (segments.map Utf8.encode) (.directory path ⟨false, segments⟩ false)
  /-- Of a file. -/
  | file {path : String} {segments : List String} {content : Bytes} {modified : Timestamp}
    (hpath : Path.ofString path = root.below (segments.map Utf8.encode))
    (hnode : w.find true (root.below (segments.map Utf8.encode)) = .ok (.file content modified)) :
    IsOf w root (segments.map Utf8.encode)
      (.file path ⟨true, segments⟩ false ⟨.ofMessage content, modified.text⟩)

/-- What is right to report makes the right entry. -/
theorem Entry.IsOf.of_report {w : World} {c : String}
    (hc : (Path.ofString c).canonical w.workingDirectory = .ok c) {ns : List Bytes}
    (hns : ∀ n ∈ ns, n.IsName) {r : Report} (hr : r.IsOf w (.ofString c) ns) {e : Entry}
    (he : w.entryOf r = .ok e) : e.IsOf w (.ofString c) ns := by
  obtain ⟨path, hpath⟩ := World.exists_ofString_below c r.relative.segments
  obtain rfl : r.relative.segments.map Utf8.encode = ns := hr.relative
  rw [World.entryOf_of_isOf hc hns hr hpath] at he
  cases he
  obtain ⟨node, hnode, hkind, -⟩ := hr.exists_node
  unfold World.snapshotAt
  rw [hnode]
  cases node with
  | directory modified => exact .directory hpath hnode
  | file content modified => exact .file hpath hnode
  | link target => cases hr' : r.isDirectory <;> simp_all [Node.kind]
  | special modified => cases hr' : r.isDirectory <;> simp_all [Node.kind]

namespace Session

/-- **The tree of a directory is whole**: whatever a session has answered before on a world that
stands still, a tree that it gives of a directory has one entry for all names that make up the tree,
in strictly increasing order, and no others. -/
theorem snapshotTree_whole {w : World} (hw : w.IsWellNamed) {c : String}
    (hc : (Path.ofString c).canonical w.workingDirectory = .ok c) {modified : Timestamp}
    (hd : w.find true (.ofString c) = .ok (.directory modified)) {st : Strategy} {s : Session}
    (hs : s.IsStill w (HoldsRight w st)) {t : TreeSnapshot}
    (h : (snapshotTree (.all (.ofString c)) s).1 = .ok t) :
    t.base = some c ∧ ∃ names : List (List Bytes), names.Pairwise (compare · · = .lt) ∧
      (∀ ns, ns ∈ names ↔ w.IsBelow (.ofString c) ns) ∧
      List.Forall₂ (Entry.IsOf w (.ofString c)) names t.entries := by
  obtain ⟨names, -, -, hnames⟩ := Path.exists_names_of_canonical hc
  have hleads : w.LeadsToPlace (.ofString c) :=
    World.leadsToPlace_of_isAbsolute (by rw [hnames]; rfl)
  have hroot : (Path.ofString c).toString?.isSome = true := by simp
  -- The answer is made of the course of the walk.
  have htree : w.treeOf (some c) (w.course (.all (.ofString c))) = .ok t := by
    have hanswer := (rel_snapshotTree (t := .all (.ofString c))
      (Or.inr (World.isCanonical_ofString hc)) s hs).1
    have hbare := w.bareHost_snapshotTree (.all (.ofString c))
    rw [show (DirectoryTree.all (.ofString c)).root = .ofString c from rfl,
      World.keyOf_eq_ok_iff.2 hc] at hbare
    exact hbare.symm.trans (hanswer.symm.trans h)
  obtain ⟨hending, hbase, hentries⟩ := World.of_treeOf w htree
  have hcovers := World.covers_course hw hroot hleads hd rfl
  refine ⟨hbase, (w.course (.all (.ofString c))).reports.map (·.relative.names), ?_, fun ns => ?_,
    ?_⟩
  · exact List.pairwise_map.2 hcovers.sorted
  · rw [List.mem_map]
    exact World.exists_report_iff hcovers hending
  · rw [List.forall₂_map_left_iff]
    refine (World.forall₂_of_mapM hentries).imp fun r e hre => ?_
    obtain ⟨hr, he⟩ := hre
    obtain ⟨ns, ⟨-, hreaches⟩, hof⟩ := hcovers.sound r hr
    rw [hof.relative]
    exact .of_report hc (World.isName_of_reaches hw hreaches) hof he

/-- The tree of a directory with a directory and a file one below the other. -/
theorem snapshotTree_whole_of_nested :
    let w := (World.empty.apply (.write (.ofString "/d/a/x") [] .epoch)).world
    let s := startOn w .none false false
    w.IsWellNamed ∧ (Path.ofString "/d").canonical w.workingDirectory = .ok "/d" ∧
      w.find true (.ofString "/d") = .ok (.directory .epoch) ∧
      s.IsStill w (HoldsRight w .default) ∧
      ∃ t, (snapshotTree (.all (.ofString "/d")) s).1 = .ok t ∧
        t.base = some "/d" ∧ ∃ names : List (List Bytes), names.Pairwise (compare · · = .lt) ∧
          (∀ ns, ns ∈ names ↔ w.IsBelow (.ofString "/d") ns) ∧
          List.Forall₂ (Entry.IsOf w (.ofString "/d")) names t.entries := by
  intro w s
  have hw : w.IsWellNamed := World.isWellNamed_empty.apply _
  have hc : (Path.ofString "/d").canonical w.workingDirectory = .ok "/d" := by rfl
  have hd : w.find true (.ofString "/d") = .ok (.directory .epoch) := by rfl
  have hs : s.IsStill w (HoldsRight w .default) := isStill_startOn (holdsRight_empty _ _ _) _ _
  have hanswer : ((snapshotTree (.all (.ofString "/d")) s).1.toOption).isSome = true := by
    decide +kernel
  rcases h : (snapshotTree (.all (.ofString "/d")) s).1 with e | t
  · rw [h] at hanswer
    cases hanswer
  · exact ⟨hw, hc, hd, hs, t, rfl, snapshotTree_whole hw hc hd hs h⟩

end Session

end SnapStore
