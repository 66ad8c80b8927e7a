import SnapStore.Proofs.Session.Visit
import SnapStore.Proofs.Tree.Denied

/-!
# Visits of a tree with a denied place

What stands at a place that the filter of a tree denies makes no difference to a visit of the tree
(`SnapStore.Session.visit_eq_of_denied`): the same is reported, with the same contents, or the same
error. It can be a file, a directory with whatever lies in it, a pipe or a link, or be missing.

It has to be denied by all names by which a walk comes there, the walk has to get past it, and the
path of the root must not go through it. `SnapStore.Session.visit_ne_of_denied_path` has two worlds
for each of these conditions that a visit can tell apart.
-/

namespace SnapStore

namespace World

variable {w w' : World} {r : Place}

/-- What a recorder writes down of an entry is the same if the path of the entry avoids the place.
-/
theorem AgreesOff.sighting_eq (h : w.AgreesOff r w') (hr : r ≠ []) (recorder : Recorder)
    {report : Report} (hpath : w.Avoids r report.path) :
    w'.sighting recorder report = w.sighting recorder report := by
  have hreading : w'.reading report.path = w.reading report.path := by
    rw [reading, reading, h.openReader_eq hr hpath]
  have hhashed : w'.hashed report.path = w.hashed report.path := by
    rw [hashed, hashed, h.openReader_eq hr hpath]
  rw [sighting, sighting, hreading, hhashed]

/-- What is listed in order is gone through as it comes. -/
theorem course_of_sorted (t : DirectoryTree) {node : Node} (hnode : w.find true t.root = .ok node)
    (hkind : node.kind = .directory) {spot : Spot} (hlocate : w.locate true t.root = .ok spot)
    {listed : List (Bytes × Kind)} (hlist : w.list t.root = .ok listed)
    (hsorted : listed.Pairwise fun a b => a.1.le b.1 = true) :
    w.course t = .all (listed.map fun entry => w.reachedCourse t
      (fun e => w.belowCourse t (maxPath - 1) [e.path, t.root] e.path e.names (w.list e.path))
      (w.reach [t.root] t.root [] entry)) := by
  have hinOrder : DirectoryTree.inOrder listed = listed := List.mergeSort_of_pairwise hsorted
  rw [course_of_directory t hnode hkind hlocate, hlist, show maxPath = maxPath - 1 + 1 from rfl,
    belowCourse, hinOrder]
  rfl

end World

namespace Session

/-- **What is denied makes no difference to a visit.** In worlds that are the same but for what
stands at a place and below it, a visit of a tree comes to the same, if the place is denied wherever
the walk comes upon it, the walk gets past it, and no other path or link leads there. -/
theorem visit_eq_of_denied {recorder : Recorder} (hrecorder : recorder.LooksOn) {s s' : Session}
    {t : DirectoryTree} {directory : Place} {n : Bytes} (hw : s.world.IsWellNamed)
    (h : s.world.AgreesOff (directory ++ [n]) s'.world)
    (hroot : s.world.Avoids (directory ++ [n]) t.root)
    (hlinks : s.world.LinksAvoid (directory ++ [n])) (hdenied : t.Denies s.world directory n)
    (hpast : t.GetsPast s.world directory n) (hpast' : t.GetsPast s'.world directory n) :
    (visit (.directory t) recorder s').1 = (visit (.directory t) recorder s).1 := by
  rw [visit_eq hrecorder, visit_eq hrecorder,
    h.course_eq hw hroot hlinks hdenied hpast hpast']
  refine congrArg₂ Prod.mk (List.map_congr_left fun report hreport => ?_) rfl
  exact h.sighting_eq (List.concat_ne_nil n directory) recorder
    (World.avoids_of_mem_course hw hroot hlinks hdenied hreport)

/-- A file at the denied place, and a link to a directory instead, with another link elsewhere. -/
theorem visit_eq_of_denied_link :
    let w := ([.write (.ofString "/d/a/r") [1] .epoch, .write (.ofString "/d/keep") [2] .epoch,
      .write (.ofString "/e/x") [3] .epoch, .link (.ofString "keep") (.ofString "/d/s")] :
      List World.Change).foldl (fun w c => (w.apply c).world) .empty
    let directory : Place := ["d", "a"].map Utf8.encode
    let n : Bytes := Utf8.encode "r"
    let s : Session := { start .none false false with world := w }
    let s' : Session := { s with world := w.put (directory ++ [n]) (.link (.ofString "/e")) }
    let t : DirectoryTree := ⟨.ofString "/d", .ofRules [] [.ofString "a/r"] [] []⟩
    let recorder : Recorder := ⟨none, false, []⟩
    recorder.LooksOn ∧ s.world.IsWellNamed ∧ s.world.AgreesOff (directory ++ [n]) s'.world ∧
      s.world.Avoids (directory ++ [n]) t.root ∧ s.world.LinksAvoid (directory ++ [n]) ∧
      t.Denies s.world directory n ∧ t.GetsPast s.world directory n ∧
      t.GetsPast s'.world directory n ∧
      (visit (.directory t) recorder s').1 = (visit (.directory t) recorder s).1 := by
  intro w directory n s s' t recorder
  have hrecorder : recorder.LooksOn := ⟨rfl, rfl⟩
  have hw : s.world.IsWellNamed := World.isWellNamed_of_changes _
  have h : s.world.AgreesOff (directory ++ [n]) s'.world :=
    w.agreesOff_put (List.concat_ne_nil n directory) _
  have hroot : s.world.Avoids (directory ++ [n]) t.root :=
    ⟨by decide +kernel, by decide +kernel⟩
  have hlinks : s.world.LinksAvoid (directory ++ [n]) :=
    World.linksAvoid_of_nodes (by decide +kernel)
  -- The walk is inside of the root and of the directory `a` in it.
  let states : List (List Path × Path × List Bytes) := [([t.root], t.root, []),
    ([.ofString "/d/a", t.root], .ofString "/d/a", [Utf8.encode "a"])]
  have hstates : s.world.isClosed t states = true := by decide +kernel
  have hstates' : s'.world.isClosed t states = true := by decide +kernel
  have hdenied : t.Denies s.world directory n := by
    intro inside here names hwalk
    have hall : ∀ state ∈ states, s.world.locate true state.2.1 = .ok (.place directory) →
      ∀ isDirectory, t.filter.level (.ofNames (state.2.2 ++ [n])) isDirectory = .deny := by
      decide +kernel
    exact hall _ (hwalk.mem_of_isClosed hstates)
  have hpast : t.GetsPast s.world directory n := by
    intro inside here names _ _ target hlink
    have hfile : s.world.node? (directory ++ [n]) = some (.file [1] .epoch) := by decide +kernel
    rw [hfile] at hlink
    cases hlink
  have hpast' : t.GetsPast s'.world directory n := by
    intro inside here names hwalk hlocate _ _
    have hall : ∀ state ∈ states, s'.world.locate true state.2.1 = .ok (.place directory) →
      (s'.world.stat (state.2.1.child n)).toBool = true ∧
        ∀ a ∈ state.1, s'.world.locate true a ≠ s'.world.locate true (state.2.1.child n) := by
      decide +kernel
    obtain ⟨hstat, hloop⟩ := hall _ (hwalk.mem_of_isClosed hstates') hlocate
    rcases hseen : s'.world.stat (here.child n) with e | seen
    · dsimp only at hstat
      rw [hseen] at hstat
      cases hstat
    · exact Or.inr ⟨seen, hseen, fun _ => hloop⟩
  exact ⟨hrecorder, hw, h, hroot, hlinks, hdenied, hpast, hpast',
    visit_eq_of_denied hrecorder hw h hroot hlinks hdenied hpast hpast'⟩

/-- **A denied path can tell visits apart**: one that a link next to its directory leads to by
another name, one with a link that closes a loop, and one that the path of the root goes through. -/
theorem visit_ne_of_denied_path :
    let rules : Filter := .ofRules [] [.ofString "a/r"] [] []
    let r : Place := ["d", "a", "r"].map Utf8.encode
    let visited (root : Path) (w : World) := (visit (.directory ⟨root, rules⟩) ⟨none, false, []⟩
      { start .none false false with world := w }).1
    let u := (World.empty.apply (.makeDirectory (.ofString "/d/a"))).world
    let v := (u.apply (.link (.ofString "a") (.ofString "/d/s"))).world
    (∀ isDirectory, rules.level (.ofString "a/r") isDirectory = .deny) ∧
      (∀ w ∈ [u, v], ∀ node, w.AgreesOff r (w.put r node) ∧ w.LinksAvoid r) ∧
      visited (.ofString "/d") (v.put r (.directory .epoch)) ≠ visited (.ofString "/d") v ∧
      visited (.ofString "/d") (u.put r (.link (.ofString "/d"))) ≠ visited (.ofString "/d") u ∧
      visited (.ofString "/d/a/r/../..") (u.put r (.directory .epoch)) ≠
        visited (.ofString "/d/a/r/../..") u := by
  intro rules r visited u v
  have hlinks : ∀ w ∈ [u, v], w.LinksAvoid r := by
    intro w hw
    refine World.linksAvoid_of_nodes ?_
    rcases List.mem_pair.1 hw with rfl | rfl <;> decide +kernel
  refine ⟨by decide, fun w hw node => ⟨w.agreesOff_put (List.cons_ne_nil _ _) node, hlinks w hw⟩,
    fun hsame => ?_, fun hsame => ?_, fun hsame => ?_⟩
  · let t : DirectoryTree := ⟨.ofString "/d", rules⟩
    have hlength : ∀ w : World, (visited t.root w).1.length = (w.course t).reports.length := by
      intro w
      change (visit (.directory t) _ _).1.1.length = _
      rw [visit_eq ⟨rfl, rfl⟩, List.length_map]
    have hcourse := fun (w : World) (hfind : w.find true t.root = .ok (.directory .epoch))
        (hlocate : w.locate true t.root = .ok (.place [Utf8.encode "d"]))
        (hlist : w.list t.root = .ok [(Utf8.encode "a", .directory), (Utf8.encode "s", .link)]) =>
      World.course_of_sorted t hfind rfl hlocate hlist (by decide +kernel)
    have hsame : (visited t.root (v.put r (.directory .epoch))).1.length =
        (visited t.root v).1.length := congrArg (fun seen => seen.1.length) hsame
    rw [hlength, hlength,
      hcourse (v.put r (.directory .epoch)) (by decide +kernel) (by decide +kernel)
        (by decide +kernel),
      hcourse v (by decide +kernel) (by decide +kernel) (by decide +kernel)] at hsame
    revert hsame
    decide +kernel
  · have hending : (visited (.ofString "/d") (u.put r (.link (.ofString "/d")))).2.isSome ≠
        (visited (.ofString "/d") u).2.isSome := by decide +kernel
    exact hending (congrArg (fun seen => seen.2.isSome) hsame)
  · have hcount : (visited (.ofString "/d/a/r/../..") (u.put r (.directory .epoch))).1.length ≠
        (visited (.ofString "/d/a/r/../..") u).1.length := by decide +kernel
    exact hcount (congrArg (fun seen => seen.1.length) hsame)

end Session

end SnapStore
