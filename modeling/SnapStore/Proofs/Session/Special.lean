import SnapStore.Proofs.Session.Directories
import SnapStore.Proofs.Session.Failures

/-!
# Special files

Only files and directories have snapshots. Anything else that a walk comes upon ends it, so a tree
that is given is of a directory in which all that is text and leads anywhere is recognized
(`SnapStore.World.IsRecognized`).

The root of a walk is no entry of it. If it is neither a file nor a directory
(`SnapStore.World.LeadsToOther`), the walk has nothing to go through and comes to its end at once:
the tree is empty, and it is kept. `SnapStore.Session.snapshotTree_recognizes` shows that this is
the one case in which the snapshot of a path and that of its tree judge differently.
-/

namespace SnapStore

namespace World

open DirectoryTree

variable {w : World} {root : Path} {c : String}

/-! ### What has a snapshot -/

/-- Whether a path leads to what has a snapshot: to nothing, to a file or to a directory. -/
def IsRecognized (w : World) (p : Path) : Prop :=
  w.find true p = .error .notFound ∨
    ∃ node, w.find true p = .ok node ∧ (node.kind = .file ∨ node.kind = .directory)

/-- Whether a path leads to something that is neither a file nor a directory. -/
def LeadsToOther (w : World) (p : Path) : Prop :=
  ∃ node, w.find true p = .ok node ∧ node.kind ≠ .file ∧ node.kind ≠ .directory

/-- What is reported is recognized. -/
theorem isRecognized_of_isOf {ns : List Bytes} {r : Report} (h : r.IsOf w root ns) :
    w.IsRecognized (root.below ns) := by
  obtain ⟨node, hnode, hkind, -⟩ := h.exists_node
  refine Or.inr ⟨node, hnode, ?_⟩
  split_ifs at hkind
  · exact Or.inr hkind
  · exact Or.inl hkind

/-! ### Roots -/

/-- **A walk whose root is neither a file nor a directory** reports nothing, not even an error. -/
theorem course_of_other (h : w.LeadsToOther root) : w.course (.all root) = .nothing := by
  obtain ⟨node, hnode, hfile, hdirectory⟩ := h
  have hstat : w.stat root = .ok node.status := by
    rw [World.stat, hnode]
    rfl
  -- Followed or not, the root is arrived at as something that is no directory.
  obtain ⟨s, hlink, kind, isFollowed, harrive, hkind⟩ : ∃ s, w.linkStat root = .ok s ∧
      ∃ kind isFollowed, (arrive (.still w) [] root s.kind).run = Except.ok (kind, isFollowed) ∧
        kind ≠ .directory := by
    have hfollowed : ∀ s : Status, s.kind = .link →
        (arrive (.still w) [] root s.kind).run = Except.ok (node.kind, true) := by
      intro s hs
      rw [run_arrive, if_neg (not_not.2 hs), hstat]
      dsimp only
      rw [Node.kind_status, if_neg hdirectory]
    rcases w.find_false_eq_or root with hfalse | ⟨target, hfalse⟩
    · refine ⟨node.status, by rw [linkStat, hfalse, hnode]; rfl, ?_⟩
      by_cases hnodeLink : node.kind = .link
      · exact ⟨_, _, hfollowed _ (node.kind_status.trans hnodeLink), hdirectory⟩
      · refine ⟨node.kind, false, ?_, hdirectory⟩
        rw [run_arrive, Node.kind_status, if_pos hnodeLink]
    · exact ⟨_, by rw [linkStat, hfalse]; rfl, _, _, hfollowed _ rfl, hdirectory⟩
  unfold course directoryCourse
  rw [show (all root).root = root from rfl, hstat]
  dsimp only
  rw [if_neg (by rwa [Node.kind_status]), hlink]
  dsimp only
  rw [harrive]
  exact if_neg hkind

/-- A walk that comes to its end has a root that leads somewhere, or to nothing. -/
theorem of_ending_course (hending : (w.course (.all root)).ending = none) :
    w.IsRecognized root ∨ w.LeadsToOther root := by
  rcases hfind : w.find true root with e | node
  · by_cases hvanished : e = .notFound
    · exact Or.inl (Or.inl (hvanished ▸ hfind))
    · -- Any other refusal ends the walk.
      rw [course_of_refused hfind, faultCourse,
        if_neg (by simpa [WalkFault.isVanished] using hvanished)] at hending
      cases hending
  · by_cases hfile : node.kind = .file
    · exact Or.inl (Or.inr ⟨node, hfind, Or.inl hfile⟩)
    · by_cases hdirectory : node.kind = .directory
      · exact Or.inl (Or.inr ⟨node, hfind, Or.inr hdirectory⟩)
      · exact Or.inr ⟨node, hfind, hfile, hdirectory⟩

/-- **Below a root whose walk comes to its end everything is recognized.** -/
theorem isRecognized_below (hw : w.IsWellNamed) (htext : root.toString?.isSome = true)
    (hleads : w.LeadsToPlace root) (hending : (w.course (.all root)).ending = none)
    {ns : List Bytes} (hne : ns ≠ []) (hreaches : w.Reaches root ns)
    (hns : ∀ n ∈ ns, (Utf8.decode? n).isSome) : w.IsRecognized (root.below ns) := by
  -- Names reach down from a directory only.
  obtain ⟨node, hnode, hkind⟩ : ∃ node, w.find true root = .ok node ∧ node.kind = .directory := by
    obtain ⟨n, rest, rfl⟩ := List.exists_cons_of_ne_nil hne
    obtain ⟨⟨listed, kind, hlist, -⟩, -⟩ := hreaches
    obtain ⟨place, hlocate, hplace, -⟩ := exists_of_list hleads hlist
    exact find_of_locate hlocate hplace
  have hcovers := covers_course hw htext hleads hnode hkind
  rcases hcovers.complete hending ns ⟨hne, hreaches⟩ hns with hnothing | ⟨r, -, hr⟩
  · exact Or.inl hnothing
  · exact isRecognized_of_isOf hr

/-! ### Entries -/

/-- There is no entry for what is neither a file nor a directory. -/
theorem rightEntry_of_other (h : w.LeadsToOther (.ofString c)) (hdated : w.IsDated (.ofString c)) :
    Host.rightEntry w c = .error (.error (.unrecognizedFileType c Host.otherKind)) := by
  obtain ⟨node, hnode, hfile, hdirectory⟩ := h
  change (ExceptT.bindCont (m := Id) _ (w.bareHost.stat (.ofString c)) : Except Failure Entry) = _
  rw [bareHost_stat hnode, Metadata.ofStatus_of_representable (hdated node hnode)]
  cases node with
  | file content modified => exact absurd rfl hfile
  | directory modified => exact absurd rfl hdirectory
  | link target => rfl
  | special modified => rfl

/-- **What the entry of a path is**, by what the path leads to. -/
theorem rightEntry_cases (hc : (Path.ofString c).canonical w.workingDirectory = .ok c) :
    (w.find true (.ofString c) = .error .notFound ∧
        Host.rightEntry w c = .ok (.missing c (Path.ofString c).finalName)) ∨
      (∃ e, e ≠ .notFound ∧ w.find true (.ofString c) = .error e ∧
        Host.rightEntry w c = .error (.error (.read ("metadata of " ++ c) e.text))) ∨
      (∃ content modified r, w.find true (.ofString c) = .ok (.file content modified) ∧
        modified.Representable ∧
          Host.rightEntry w c = .ok (.file c r true ⟨.ofMessage content, modified.text⟩)) ∨
      (∃ modified r, w.find true (.ofString c) = .ok (.directory modified) ∧
        Host.rightEntry w c = .ok (.directory c r true)) ∨
      (w.LeadsToOther (.ofString c) ∧ w.IsDated (.ofString c) ∧
        Host.rightEntry w c = .error (.error (.unrecognizedFileType c Host.otherKind))) ∨
      ¬ w.IsDated (.ofString c) ∧ Host.rightEntry w c = .error .panic := by
  rcases hfind : w.find true (.ofString c) with e | node
  · by_cases he : e = .notFound
    · subst he
      exact Or.inl ⟨rfl, rightEntry_of_nothing hfind⟩
    · exact Or.inr (Or.inl ⟨e, he, rfl, rightEntry_of_refused hfind he⟩)
  · by_cases hrepresentable : node.status.modified.Representable
    · have hdated : w.IsDated (.ofString c) := (isDated_iff_of_find hfind).2 hrepresentable
      cases node with
      | file content modified =>
        obtain ⟨r, hr, -⟩ := Path.exists_ofPath_finalName hc true
        exact Or.inr (Or.inr (Or.inl
          ⟨_, _, r, rfl, hrepresentable, rightEntry_of_file_named hr rfl hfind hrepresentable⟩))
      | directory modified =>
        obtain ⟨r, hr, -⟩ := Path.exists_ofPath_finalName hc false
        exact Or.inr (Or.inr (Or.inr (Or.inl
          ⟨_, r, rfl, rightEntry_of_directory_named hr rfl hfind hrepresentable⟩)))
      | link target =>
        have hother : w.LeadsToOther (.ofString c) := ⟨_, hfind, nofun, nofun⟩
        exact Or.inr (Or.inr (Or.inr (Or.inr (Or.inl
          ⟨hother, hdated, rightEntry_of_other hother hdated⟩))))
      | special modified =>
        have hother : w.LeadsToOther (.ofString c) := ⟨_, hfind, nofun, nofun⟩
        exact Or.inr (Or.inr (Or.inr (Or.inr (Or.inl
          ⟨hother, hdated, rightEntry_of_other hother hdated⟩))))
    · exact Or.inr (Or.inr (Or.inr (Or.inr (Or.inr
        ⟨mt (isDated_iff_of_find hfind).1 hrepresentable,
          rightEntry_of_undated hfind hrepresentable⟩))))

/-- **For nothing else it is said that the type is not recognized.** -/
theorem rightEntry_eq_unrecognized_iff
    (hc : (Path.ofString c).canonical w.workingDirectory = .ok c) :
    (∃ path kind, Host.rightEntry w c = .error (.error (.unrecognizedFileType path kind))) ↔
      w.LeadsToOther (.ofString c) ∧ w.IsDated (.ofString c) := by
  refine ⟨?_, fun h => ⟨_, _, rightEntry_of_other h.1 h.2⟩⟩
  rintro ⟨path, kind, hentry⟩
  rcases rightEntry_cases hc with ⟨-, hright⟩ | ⟨e, -, -, hright⟩ | ⟨_, _, r, -, -, hright⟩ |
    ⟨_, r, -, hright⟩ | ⟨hother, hdated, -⟩ | ⟨-, hright⟩
  · cases hright.symm.trans hentry
  · cases hright.symm.trans hentry
  · cases hright.symm.trans hentry
  · cases hright.symm.trans hentry
  · exact ⟨hother, hdated⟩
  · cases hright.symm.trans hentry

end World

namespace Session

/-- What becomes of a tree in a cache that keeps everything: it is kept if it is given, and nothing
is stored if it is not. -/
theorem find?_of_snapshotTree {s s' : Session} (hall : s.KeepsAll s.cache) {p : Path} {key : String}
    (hp : p.canonical s.world.workingDirectory = .ok key) {t : TreeSnapshot}
    (h : snapshotTree (.all p) s = (.ok t, s')) : s'.cache.trees.find? key = some t := by
  obtain ⟨s₁, hrun, rfl⟩ := exists_run_of_request h
  have hcomes := comes_snapshotTree hall hp (isLike_self (P := s.cache.KeepsSame) (.refl _))
  rw [hrun] at hcomes
  change s₁.cache.trees.find? key = some t
  rcases hcomes with ⟨hfound, hs₁⟩ | ⟨-, hcomputed, hs₁⟩ | _
  · rw [hs₁.cache.trees]
    exact hfound
  · rw [hs₁.cache.trees, Cache.putTree, Host.base_of_walk hcomputed]
    dsimp only
    rw [hall.retention, Shelf.find?_store_all, if_pos rfl]

/-- **No special file is passed over but the root itself.** Whatever a session has answered before
on a world that stands still: the snapshot of a path fails with an unrecognized type exactly if the
path leads to something that is neither a file nor a directory, and whose time has a date. The tree
of such a path is the empty one. Any other tree that is given is of a path that leads to nothing, to
a file or to a directory, and whatever reaches down from there under names that are text leads to
nothing, to a file or to a directory as well. A tree that is given is kept, if everything is, and
one that is not given leaves the cache as it was. -/
theorem snapshotTree_recognizes {w : World} (hw : w.IsWellNamed) {c : String}
    (hc : (Path.ofString c).canonical w.workingDirectory = .ok c) {st : Strategy} {s : Session}
    (hs : s.IsStill w (HoldsRight w st)) :
    ((∃ path kind, (snapshotSelf (.ofString c) s).1 =
        .error (.error (.unrecognizedFileType path kind))) ↔
      w.LeadsToOther (.ofString c) ∧ w.IsDated (.ofString c)) ∧
    (w.LeadsToOther (.ofString c) → (snapshotTree (.all (.ofString c)) s).1 = .ok ⟨some c, []⟩) ∧
    (∀ t, (snapshotTree (.all (.ofString c)) s).1 = .ok t →
      (w.IsRecognized (.ofString c) ∨ w.LeadsToOther (.ofString c)) ∧
      ∀ ns, ns ≠ [] → w.Reaches (.ofString c) ns → (∀ n ∈ ns, (Utf8.decode? n).isSome) →
        w.IsRecognized ((Path.ofString c).below ns)) ∧
    (s.isBlind = false → s.cache.retention = .all →
      (∀ t s', snapshotTree (.all (.ofString c)) s = (.ok t, s') →
        s'.cache.trees.find? c = some t) ∧
      ∀ e s', snapshotTree (.all (.ofString c)) s = (.error e, s') →
        s.cache.KeepsSame s'.cache) := by
  have hself : (snapshotSelf (.ofString c) s).1 = Host.rightEntry w c :=
    (rel_snapshotSelf (.ofString c) s hs).1.trans (w.bareHost_snapshotSelf_of_canonical hc)
  have htree : (snapshotTree (.all (.ofString c)) s).1 =
      w.treeOf (some c) (w.course (.all (.ofString c))) :=
    (rel_snapshotTree (Or.inr (World.isCanonical_ofString hc)) s hs).1.trans
      (w.bareHost_snapshotTree_of_canonical hc)
  refine ⟨?_, fun hother => ?_, fun t ht => ?_, fun hblind hretention => ?_⟩
  · rw [hself]
    exact World.rightEntry_eq_unrecognized_iff hc
  · rw [htree, World.course_of_other hother]
    rfl
  · rw [htree] at ht
    obtain ⟨hending, -, -⟩ := World.of_treeOf w ht
    refine ⟨World.of_ending_course hending, fun ns hne hreaches hns => ?_⟩
    exact World.isRecognized_below hw (by simp) (World.leadsToPlace_of_canonical hc) hending hne
      hreaches hns
  · have hkey : (Path.ofString c).canonical s.world.workingDirectory = .ok c := hs.world ▸ hc
    refine ⟨fun t s' h => find?_of_snapshotTree ⟨hblind, hretention⟩ hkey h, fun e s' h => ?_⟩
    obtain ⟨s₁, hrun, rfl⟩ := exists_run_of_request h
    exact (trace_of_failed_tree ⟨hblind, hretention⟩ hrun :)

/-- A pipe in a directory ends the walk through the directory, and yet has a tree of its own. -/
theorem snapshotTree_recognizes_of_pipe :
    let w := ((World.empty.apply (.makeDirectory (.ofString "/d"))).world.apply
      (.pipe (.ofString "/d/p"))).world
    let s := startOn w .all false false
    let p := Path.ofString "/d/p"
    (snapshotTree (.all (.ofString "/d")) s).1.toBool = false ∧ w.LeadsToOther p ∧
      (∃ path kind, (snapshotSelf p s).1 = .error (.error (.unrecognizedFileType path kind))) ∧
      (snapshotTree (.all p) s).1 = .ok ⟨some "/d/p", []⟩ ∧
      (snapshotTree (.all p) s).2.cache.trees.find? "/d/p" = some ⟨some "/d/p", []⟩ := by
  intro w s p
  have hw : w.IsWellNamed := (World.isWellNamed_empty.apply _).apply _
  have hother : w.LeadsToOther p := ⟨.special .epoch, rfl, nofun, nofun⟩
  have hc : (Path.ofString "/d/p").canonical w.workingDirectory = .ok "/d/p" := rfl
  have hs : s.IsStill w (HoldsRight w .default) := isStill_startOn (holdsRight_empty _ _ _) _ _
  obtain ⟨hself, htree, -, hkept⟩ := snapshotTree_recognizes hw hc hs
  have hgiven : snapshotTree (.all p) s = (.ok ⟨some "/d/p", []⟩, (snapshotTree (.all p) s).2) :=
    Prod.ext (htree hother) rfl
  exact ⟨by decide +kernel, hother, hself.2 ⟨hother, by decide⟩, htree hother,
    (hkept rfl rfl).1 _ _ hgiven⟩

end Session

end SnapStore
