import SnapStore.Proofs.Session.Special
import SnapStore.Proofs.Tree.Removal
import SnapStore.Proofs.World.Absence

/-!
# Snapshots of nothing

A path at which there is nothing has an entry that says so, and an empty tree; that is no error. But
this is so for one of the two kinds of gaps only. The entry and the tree are given if the system
says that something is not found. If a file stands where the path needs a directory, the system says
that it is no directory, and there is neither an entry nor a tree, although there is as little at
the path (`SnapStore.Session.snapshots_of_nothing`).

Links make no difference. The gap may be on the way of the path itself or on that of a link, and
what is said is the same.
-/

namespace SnapStore

namespace World

variable {w : World} {c : String}

/-- If there is nothing at a path because of a gap then its way breaks off. -/
theorem exists_breaksOff_of_find {p : Path} (hp : p.isAbsolute = true) {gap : Gap}
    (h : w.find true p = .error gap.error) : ∃ links, w.BreaksOff gap links [] p.names := by
  rcases hlocate : w.locate true p with e | place | level
  · rw [find, hlocate] at h
    cases h
    exact exists_breaksOff_of_locate hp hlocate
  · -- What is located is there.
    obtain ⟨node, hnode⟩ := exists_node_of_locate hp hlocate
    have hat : w.nodeAt? (.place place) = some node := hnode
    rw [find, hlocate] at h
    dsimp only at h
    rw [hat] at h
    cases h
  · obtain ⟨place, hplace⟩ := exists_place_of_locate hp hlocate
    cases hplace

/-- An entry that says that something is missing is that of a path that is not found. -/
theorem notFound_of_rightEntry (hc : (Path.ofString c).canonical w.workingDirectory = .ok c)
    {path name : String} (he : Host.rightEntry w c = .ok (.missing path name)) :
    w.find true (.ofString c) = .error .notFound := by
  rcases rightEntry_cases hc with ⟨hfind, -⟩ | ⟨_, -, -, hright⟩ | ⟨_, _, _, -, -, hright⟩ |
    ⟨_, _, -, hright⟩ | ⟨-, -, hright⟩ | ⟨-, hright⟩
  · exact hfind
  · cases hright.symm.trans he
  · cases hright.symm.trans he
  · cases hright.symm.trans he
  · cases hright.symm.trans he
  · cases hright.symm.trans he

/-- A root that is refused has no tree, unless it is not found. -/
theorem treeOf_of_refused {e : OsError} (h : w.find true (.ofString c) = .error e)
    (he : e ≠ .notFound) (base : Option String) :
    w.treeOf base (w.course (.all (.ofString c))) =
      .error (.error (.walk c ("IO error for operation on " ++ c ++ ": " ++ e.text))) := by
  have hdisplay : (Path.ofString c).display = c := Utf8.repair_encode c
  have htext : (WalkFault.refused (some (.ofString c)) e).text =
      "IO error for operation on " ++ c ++ ": " ++ e.text :=
    congrArg (fun d => "IO error for operation on " ++ d ++ ": " ++ e.text) hdisplay
  have hvanished : (WalkFault.refused (some (.ofString c)) e).isVanished = false :=
    decide_eq_false he
  rw [course_of_refused h, DirectoryTree.faultCourse, hvanished, if_neg Bool.false_ne_true,
    show (DirectoryTree.all (.ofString c)).root = .ofString c from rfl, hdisplay, htext]
  rfl

/-- A root that is not found has an empty tree. -/
theorem treeOf_of_notFound (h : w.find true (.ofString c) = .error .notFound)
    (base : Option String) :
    w.treeOf base (w.course (.all (.ofString c))) = .ok ⟨base, []⟩ := by
  rw [course_of_refused h]
  rfl

end World

namespace Session

/-- What is said of a path where nothing is found. -/
def SayMissing (c : String) (self : Except Failure Entry) (tree : Except Failure TreeSnapshot) :
    Prop :=
  self = .ok (.missing c (Path.ofString c).finalName) ∧ tree = .ok ⟨some c, []⟩

/-- What is said of a path that the system refuses. -/
def SayRefused (c : String) (e : OsError) (self : Except Failure Entry)
    (tree : Except Failure TreeSnapshot) : Prop :=
  self = .error (.error (.read ("metadata of " ++ c) e.text)) ∧
    tree = .error (.error (.walk c ("IO error for operation on " ++ c ++ ": " ++ e.text)))

section Refused

variable {w : World} {c : String} (hc : (Path.ofString c).canonical w.workingDirectory = .ok c)
  {st : Strategy} {s s' : Session} (hs : s.IsStill w (HoldsRight w st))
  (hs' : s'.IsStill w (HoldsRight w st))

include hc hs hs'

theorem sayMissing_of_notFound (h : w.find true (.ofString c) = .error .notFound) :
    SayMissing c (snapshotSelf (.ofString c) s).1 (snapshotTree (.all (.ofString c)) s').1 := by
  rw [snapshotSelf_of_canonical hc hs, snapshotTree_of_canonical hc hs']
  exact ⟨World.rightEntry_of_nothing h, World.treeOf_of_notFound h _⟩

theorem sayRefused_of_error {e : OsError} (h : w.find true (.ofString c) = .error e)
    (he : e ≠ .notFound) :
    SayRefused c e (snapshotSelf (.ofString c) s).1 (snapshotTree (.all (.ofString c)) s').1 := by
  rw [snapshotSelf_of_canonical hc hs, snapshotTree_of_canonical hc hs']
  exact ⟨World.rightEntry_of_refused h he, World.treeOf_of_refused h he _⟩

end Refused

/-- **What becomes of a path whose way breaks off**, in a world that stands still, whatever sessions
have answered before. If a name is not there then the path has an entry that says so and an empty
tree, unless a limit is gone beyond on the way there. If there are names left after something that
is no directory then the path is refused in any case, and so the entry and the tree fail. There is
no entry that says that something is missing where no name is. -/
theorem snapshots_of_nothing {w : World} {c : String}
    (hc : (Path.ofString c).canonical w.workingDirectory = .ok c) {st : Strategy} {s s' : Session}
    (hs : s.IsStill w (HoldsRight w st)) (hs' : s'.IsStill w (HoldsRight w st)) :
    (∀ links, w.BreaksOff .absent links [] (Path.ofString c).names →
      SayMissing c (snapshotSelf (.ofString c) s).1 (snapshotTree (.all (.ofString c)) s').1 ∨
        ∃ e, w.Exceeds links (.ofString c) e ∧
          SayRefused c e (snapshotSelf (.ofString c) s).1
            (snapshotTree (.all (.ofString c)) s').1) ∧
      (∀ links, w.BreaksOff .blocked links [] (Path.ofString c).names →
        ∃ e, (e = .notDirectory ∨ w.Exceeds links (.ofString c) e) ∧
          SayRefused c e (snapshotSelf (.ofString c) s).1
            (snapshotTree (.all (.ofString c)) s').1) ∧
      ∀ name, (snapshotSelf (.ofString c) s).1 = .ok (.missing c name) →
        ∃ links, w.BreaksOff .absent links [] (Path.ofString c).names := by
  have habs := Path.isAbsolute_of_canonical hc
  refine ⟨fun links hbreaks => ?_, fun links hbreaks => ?_, fun name hself => ?_⟩
  · rcases hbreaks.find habs with hfind | ⟨e, hexceeds, hfind⟩
    · exact Or.inl (sayMissing_of_notFound hc hs hs' hfind)
    · exact Or.inr ⟨e, hexceeds, sayRefused_of_error hc hs hs' hfind hexceeds.ne_notFound⟩
  · rcases hbreaks.find habs with hfind | ⟨e, hexceeds, hfind⟩
    · exact ⟨_, Or.inl rfl, sayRefused_of_error hc hs hs' hfind nofun⟩
    · exact ⟨e, Or.inr hexceeds, sayRefused_of_error hc hs hs' hfind hexceeds.ne_notFound⟩
  · rw [snapshotSelf_of_canonical hc hs] at hself
    exact World.exists_breaksOff_of_find habs (World.notFound_of_rightEntry hc hself)

/-- There is nothing where this link leads, and there is nothing below this file, but only one of
them is missing. -/
theorem snapshots_of_nothing_of_link_of_file :
    let w := ((World.empty.apply (.write (.ofString "/f") [120] .epoch)).world.apply
      (.link (.ofString "gone") (.ofString "/l"))).world
    let s := startOn w .all false false
    (w.BreaksOff .absent 1 [] (Path.ofString "/l").names ∧
        SayMissing "/l" (snapshotSelf (.ofString "/l") s).1
          (snapshotTree (.all (.ofString "/l")) s).1) ∧
      w.BreaksOff .blocked 0 [] (Path.ofString "/f/x").names ∧
        ∃ e, SayRefused "/f/x" e (snapshotSelf (.ofString "/f/x") s).1
          (snapshotTree (.all (.ofString "/f/x")) s).1 := by
  intro w s
  have hs : s.IsStill w (HoldsRight w .default) := isStill_startOn (holdsRight_empty _ _ _) _ _
  have hlink : (Path.ofString "/l").canonical w.workingDirectory = .ok "/l" := rfl
  have hfile : (Path.ofString "/f/x").canonical w.workingDirectory = .ok "/f/x" := rfl
  have hdots : ∀ {b : UInt8}, b ≠ Bytes.dot → ¬ World.IsDots [b] := by
    rintro b hb (h | h)
    · exact hb (List.singleton_inj.1 h)
    · cases h
  have habsent : w.BreaksOff .absent 1 [] (Path.ofString "/l").names :=
    .link (hdots (by decide)) rfl (.absent (by rintro (h | h) <;> cases h) rfl)
  have hblocked : w.BreaksOff .blocked 0 [] (Path.ofString "/f/x").names :=
    .blocked (hdots (by decide)) rfl (Or.inl rfl) (by decide)
  refine ⟨⟨habsent, ?_⟩, hblocked, ?_⟩
  · rcases (snapshots_of_nothing hlink hs hs).1 1 habsent with h | ⟨e, -, hself, -⟩
    · exact h
    · have hok : (snapshotSelf (.ofString "/l") s).1.toBool = true := by decide +kernel
      rw [hself] at hok
      cases hok
  · obtain ⟨e, -, hrefused⟩ := (snapshots_of_nothing hfile hs hs).2.1 0 hblocked
    exact ⟨e, hrefused⟩

end Session

end SnapStore
