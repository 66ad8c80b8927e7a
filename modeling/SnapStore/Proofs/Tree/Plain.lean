import Mathlib.Data.List.Induction
import SnapStore.Proofs.Store.Contents

/-!
# Directories of files and directories

Below some directories there is nothing but files and directories, all of them under names that
are text and can be looked up from the root (`SnapStore.World.IsPlainBelow`). Nothing can go wrong
there but with the times: what stands below the root is what names lead to
(`SnapStore.World.IsPlainBelow.locate_below`), what reaches down is what stands there
(`SnapStore.World.IsPlainBelow.isBelow_iff`), and a walk comes to its end if all of it has a date
(`SnapStore.World.IsPlainBelow.ending_course`).
-/

namespace SnapStore

/-- Names that are text and can be looked up when they are joined on to a path. -/
structure Path.Fits (root : Path) (ns : List Bytes) : Prop where
  /-- The names are text. -/
  text : ∃ segments : List String, segments.map Utf8.encode = ns
  /-- No name is too long. -/
  name : ∀ n ∈ ns, n.length ≤ World.maxName
  /-- The longer path has no zero byte. -/
  zero : (0 : UInt8) ∉ (root.below ns).bytes
  /-- It is not too long. -/
  path : (root.below ns).bytes.length < World.maxPath

namespace World

open DirectoryTree

/-- Nothing but files and directories stands below a place, to which the path leads. -/
structure IsPlainBelow (w : World) (root : Path) (place : Place) : Prop where
  /-- The path leads to the place. -/
  located : w.locate true root = .ok (.place place)
  /-- There are only files and directories. -/
  kind : ∀ ns node, w.node? (place ++ ns) = some node → node.kind = .file ∨ node.kind = .directory
  /-- What stands there stands in a directory. -/
  directory : ∀ ns n, (w.node? (place ++ ns ++ [n])).isSome → w.isDirectory (place ++ ns) = true
  /-- It can be looked up. -/
  fits : ∀ ns, ns ≠ [] → (w.node? (place ++ ns)).isSome → root.Fits ns

/-- All that is below a root was changed last at times that have dates. -/
def IsDatedBelow (w : World) (root : Path) : Prop :=
  ∀ ns, w.IsBelow root ns → w.IsDated (root.below ns)

variable {w : World} {root : Path} {place : Place}

theorem exists_node_of_isDirectory {p : Place} (h : w.isDirectory p = true) :
    ∃ node, w.node? p = some node ∧ node.kind = .directory := by
  rw [isDirectory, Option.any_eq_true] at h
  obtain ⟨node, hnode, hkind⟩ := h
  exact ⟨node, hnode, by simpa using hkind⟩

/-- All nodes below a place have dates if all nodes have. -/
theorem representable_of_nodes (h : ∀ e ∈ w.nodes, e.2.status.modified.Representable)
    {ns : List Bytes} (hne : ns ≠ []) {node : Node} (hnode : w.node? (place ++ ns) = some node) :
    node.status.modified.Representable := by
  rw [node?_of_ne_nil _ (List.append_ne_nil_of_right_ne_nil _ hne),
    lookup_eq_some_iff w.distinct] at hnode
  exact h _ hnode

namespace IsPlainBelow

variable (h : w.IsPlainBelow root place)

include h

/-- What something stands below is a directory. -/
theorem isDirectory_of_append {ns ext : List Bytes} (hext : ext ≠ [])
    (hnode : (w.node? (place ++ (ns ++ ext))).isSome) : w.isDirectory (place ++ ns) = true := by
  induction ext using List.reverseRecOn with
  | nil => exact absurd rfl hext
  | append_singleton ext n ih =>
    rw [← List.append_assoc, ← List.append_assoc] at hnode
    rw [List.append_assoc place] at hnode
    have hdirectory := h.directory (ns ++ ext) n hnode
    by_cases hlast : ext = []
    · rwa [hlast, List.append_nil] at hdirectory
    · obtain ⟨node, hnode, -⟩ := exists_node_of_isDirectory hdirectory
      exact ih hlast (by rw [hnode]; rfl)

/-- **What stands below the root is where its names lead.** -/
theorem locate_below (hw : w.IsWellNamed) {ns : List Bytes} (hne : ns ≠ [])
    (hnode : (w.node? (place ++ ns)).isSome) (followLast : Bool) :
    w.locate followLast (root.below ns) = .ok (.place (place ++ ns)) := by
  induction ns using List.reverseRecOn generalizing followLast with
  | nil => exact absurd rfl hne
  | append_singleton front n ih =>
    have hfits := h.fits _ hne hnode
    obtain ⟨node, hnode⟩ := Option.isSome_iff_exists.1 hnode
    have hlink : node.kind ≠ .link := by
      rcases h.kind _ _ hnode with hkind | hkind <;> rw [hkind] <;> decide
    rw [← List.append_assoc] at hnode ⊢
    have hdirectory := h.directory front n (by rw [hnode]; rfl)
    have hfront : w.locate true (root.below front) = .ok (.place (place ++ front)) := by
      by_cases hfirst : front = []
      · rw [hfirst, List.append_nil]
        exact h.located
      · obtain ⟨found, hfound, -⟩ := exists_node_of_isDirectory hdirectory
        exact ih hfirst (by rw [hfound]; rfl) true
    have hchild : root.below (front ++ [n]) = (root.below front).child n := Path.below_append _ _ _
    rw [hchild]
    exact locate_child_of_fits hfront hdirectory (hw _ n node hnode) hnode hlink
      (hchild ▸ hfits.zero) (hchild ▸ hfits.path) (hfits.name n (by simp)) followLast

theorem locate_directory (hw : w.IsWellNamed) {ns : List Bytes}
    (hplace : w.isDirectory (place ++ ns) = true) :
    w.locate true (root.below ns) = .ok (.place (place ++ ns)) := by
  by_cases hne : ns = []
  · rw [hne, List.append_nil]
    exact h.located
  · obtain ⟨node, hnode, -⟩ := exists_node_of_isDirectory hplace
    exact h.locate_below hw hne (by rw [hnode]; rfl) true

theorem find_below (hw : w.IsWellNamed) {ns : List Bytes} (hne : ns ≠ []) {node : Node}
    (hnode : w.node? (place ++ ns) = some node) (followLast : Bool) :
    w.find followLast (root.below ns) = .ok node := by
  rw [find, h.locate_below hw hne (by rw [hnode]; rfl)]
  dsimp only [nodeAt?]
  rw [hnode]

/-- **What reaches down from a directory is what stands below it.** -/
theorem reaches_below_iff (hw : w.IsWellNamed) {ms ns : List Bytes}
    (hplace : w.isDirectory (place ++ ms) = true) :
    w.Reaches (root.below ms) ns ↔ (w.node? (place ++ (ms ++ ns))).isSome := by
  induction ns generalizing ms with
  | nil =>
    obtain ⟨node, hnode, -⟩ := exists_node_of_isDirectory hplace
    rw [List.append_nil, hnode]
    exact ⟨fun _ => rfl, fun _ => trivial⟩
  | cons n ns ih =>
    have hlist := list_of_locate (h.locate_directory hw hplace) hplace
    have hchild : (root.below ms).child n = root.below (ms ++ [n]) :=
      (Path.below_append root ms [n]).symm
    have happend : ms ++ n :: ns = ms ++ [n] ++ ns := by simp
    rw [Reaches, hlist, hchild, happend]
    by_cases hlast : ns = []
    · -- The last name is listed if something stands there.
      rw [hlast, List.append_nil, ← List.append_assoc]
      constructor
      · rintro ⟨⟨listed, kind, hlisted, hmem⟩, -⟩
        cases hlisted
        obtain ⟨node, hnode, -⟩ := mem_children.1 hmem
        rw [hnode]
        rfl
      · intro hnode
        obtain ⟨node, hnode⟩ := Option.isSome_iff_exists.1 hnode
        exact ⟨⟨_, node.kind, rfl, mem_children.2 ⟨node, hnode, rfl⟩⟩, trivial⟩
    · constructor
      · rintro ⟨⟨listed, kind, hlisted, hmem⟩, hrest⟩
        cases hlisted
        obtain ⟨node, hnode, -⟩ := mem_children.1 hmem
        -- Something is listed below the name, so it leads to a directory.
        have hnode' : (w.node? (place ++ (ms ++ [n]))).isSome := by
          rw [← List.append_assoc, hnode]
          rfl
        have hlocate := h.locate_below hw (by simp) hnode' true
        obtain ⟨below, hbelow⟩ : ∃ below, w.list (root.below (ms ++ [n])) = .ok below := by
          obtain ⟨m, rest, rfl⟩ := List.exists_cons_of_ne_nil hlast
          obtain ⟨⟨below, -, hbelow, -⟩, -⟩ := hrest
          exact ⟨below, hbelow⟩
        obtain ⟨place', hlocate', hplace', -⟩ := exists_of_list
          (fun spot hspot => ⟨_, Except.ok.inj (hspot.symm.trans hlocate)⟩) hbelow
        rw [hlocate] at hlocate'
        cases hlocate'
        exact (ih hplace').1 hrest
      · intro hnode
        have hplace' := h.isDirectory_of_append hlast hnode
        obtain ⟨node, hnode', -⟩ := exists_node_of_isDirectory hplace'
        rw [← List.append_assoc] at hnode'
        exact ⟨⟨_, node.kind, rfl, mem_children.2 ⟨node, hnode', rfl⟩⟩, (ih hplace').2 hnode⟩

theorem reaches_iff (hw : w.IsWellNamed) (hplace : w.isDirectory place = true) {ns : List Bytes} :
    w.Reaches root ns ↔ (w.node? (place ++ ns)).isSome := by
  have hhere : w.isDirectory (place ++ []) = true := by rwa [List.append_nil]
  exact h.reaches_below_iff hw hhere

/-- **So is what is below the root.** -/
theorem isBelow_iff (hw : w.IsWellNamed) (hplace : w.isDirectory place = true) {ns : List Bytes} :
    w.IsBelow root ns ↔ ns ≠ [] ∧ (w.node? (place ++ ns)).isSome := by
  unfold IsBelow
  rw [h.reaches_iff hw hplace]
  constructor
  · rintro ⟨hne, hnode, -⟩
    exact ⟨hne, hnode⟩
  · rintro ⟨hne, hnode⟩
    obtain ⟨segments, rfl⟩ := (h.fits ns hne hnode).text
    obtain ⟨node, hfound⟩ := Option.isSome_iff_exists.1 hnode
    refine ⟨hne, hnode, fun n hn => ?_, by rw [h.find_below hw hne hfound]; nofun⟩
    obtain ⟨segment, -, rfl⟩ := List.mem_map.1 hn
    rw [Utf8.decode?_encode]
    rfl

/-- What stands below the root stands under names. -/
theorem isName_of_node (hw : w.IsWellNamed) (hplace : w.isDirectory place = true)
    {ns : List Bytes} (hnode : (w.node? (place ++ ns)).isSome) : ∀ n ∈ ns, n.IsName :=
  isName_of_reaches hw ((h.reaches_iff hw hplace).2 hnode)

/-! ### Walks -/

/-- What stands below the root is reported, unless its time has no date. -/
theorem ending_entryCourse (hw : w.IsWellNamed) (hplace : w.isDirectory place = true)
    {ns : List Bytes} (hne : ns ≠ []) {node : Node} (hnode : w.node? (place ++ ns) = some node) :
    (w.entryCourse ⟨root.below ns, ns, node.kind, false⟩).ending =
      if node.status.modified.Representable then none else some .panic := by
  have hsome : (w.node? (place ++ ns)).isSome := by rw [hnode]; rfl
  obtain ⟨segments, rfl⟩ := (h.fits ns hne hsome).text
  have hlook : w.look ⟨root.below (segments.map Utf8.encode), segments.map Utf8.encode, node.kind,
      false⟩ = .ok node.status := by
    change w.linkStat _ = _
    rw [linkStat, h.find_below hw hne hnode]
    rfl
  have hnames : ∀ s ∈ segments, (Utf8.encode s).IsName := fun s hs =>
    h.isName_of_node hw hplace hsome _ (List.mem_map_of_mem hs)
  unfold entryCourse
  rw [hlook]
  dsimp only
  split_ifs with hdated
  · rw [Metadata.ofStatus_of_representable hdated, RelativePath.ofPath_ofNames hnames]
    rcases h.kind _ _ hnode with hkind | hkind <;> rw [hkind] <;> rfl
  · rw [Metadata.ofStatus_of_not_representable hdated]
    rfl

/-- A walk below a directory ends as it does at one of the things that stand there. -/
theorem ending_belowCourse (hw : w.IsWellNamed) (hroot : root.toString?.isSome = true)
    (hplace : w.isDirectory place = true) {S : Option Failure → Prop} (hnone : S none)
    (hS : ∀ ns node, ns ≠ [] → w.node? (place ++ ns) = some node →
      S (if node.status.modified.Representable then none else some .panic))
    {levels : Nat} {inside : List Path} {names : List Bytes}
    (hhere : w.isDirectory (place ++ names) = true) :
    S (w.belowCourse (.all root) levels inside (root.below names) names
      (w.list (root.below names))).ending := by
  induction levels generalizing inside names with
  | zero => exact hnone
  | succ levels ih =>
    rw [list_of_locate (h.locate_directory hw hhere) hhere, belowCourse]
    refine Course.ending_all_of hnone fun course hcourse => ?_
    obtain ⟨entry, hentry, rfl⟩ := List.mem_map.1 hcourse
    rw [inOrder, List.mem_mergeSort] at hentry
    obtain ⟨node, hnode, hkind⟩ := mem_children.1 hentry
    rw [List.append_assoc] at hnode
    have hne : names ++ [entry.1] ≠ [] := by simp
    have hlink : entry.2 ≠ .link := by
      rw [← hkind]
      rcases h.kind _ _ hnode with hkind | hkind <;> rw [hkind] <;> decide
    have hchild : (root.below names).child entry.1 = root.below (names ++ [entry.1]) :=
      (Path.below_append root names [entry.1]).symm
    have htext : (root.below (names ++ [entry.1])).toString?.isSome = true := by
      obtain ⟨segments, hsegments⟩ := (h.fits _ hne (by rw [hnode]; rfl)).text
      refine Path.isSome_toString?_below hroot fun n hn => ?_
      rw [← hsegments] at hn
      obtain ⟨segment, -, rfl⟩ := List.mem_map.1 hn
      rw [Utf8.decode?_encode]
      rfl
    have hreach : w.reach inside (root.below names) names entry =
        .ok ⟨root.below (names ++ [entry.1]), names ++ [entry.1], node.kind, false⟩ := by
      unfold reach
      rw [run_arrive, if_pos hlink, hchild, hkind]
    rw [hreach, reachedCourse_all htext]
    refine Course.ending_andThen_of ?_ ?_
    · rw [h.ending_entryCourse hw hplace hne hnode]
      exact hS _ node hne hnode
    · split_ifs with hdirectory
      · refine ih ?_
        rw [isDirectory, hnode]
        simpa using hdirectory
      · exact hnone

/-- Whether all has a date can be asked of the nodes. -/
theorem isDatedBelow_iff (hw : w.IsWellNamed) (hplace : w.isDirectory place = true) :
    w.IsDatedBelow root ↔ ∀ ns node, ns ≠ [] → w.node? (place ++ ns) = some node →
      node.status.modified.Representable := by
  constructor
  · intro hdated ns node hne hnode
    have hbelow := (h.isBelow_iff hw hplace).2 ⟨hne, by rw [hnode]; rfl⟩
    exact hdated ns hbelow node (h.find_below hw hne hnode true)
  · intro hdated ns hbelow
    obtain ⟨hne, hsome⟩ := (h.isBelow_iff hw hplace).1 hbelow
    obtain ⟨node, hnode⟩ := Option.isSome_iff_exists.1 hsome
    exact (isDated_iff_of_find (h.find_below hw hne hnode true)).2 (hdated ns node hne hnode)

/-- **A walk comes to its end if all that is below the root has a date**, and else it panics. -/
theorem ending_course (hw : w.IsWellNamed) (hroot : root.toString?.isSome = true)
    (hplace : w.isDirectory place = true) :
    w.IsDatedBelow root ∧ (w.course (.all root)).ending = none ∨
      ¬ w.IsDatedBelow root ∧ (w.course (.all root)).ending = some .panic := by
  obtain ⟨node, hnode, hkind⟩ := find_of_locate h.located hplace
  have hcourse := course_of_directory (.all root) hnode hkind h.located
  have hhere : w.isDirectory (place ++ []) = true := by rwa [List.append_nil]
  by_cases hdated : w.IsDatedBelow root
  · refine Or.inl ⟨hdated, ?_⟩
    rw [hcourse]
    rw [h.isDatedBelow_iff hw hplace] at hdated
    exact h.ending_belowCourse hw hroot hplace (S := (· = none)) rfl
      (fun ns node hne hnode => if_pos (hdated ns node hne hnode)) hhere
  · refine Or.inr ⟨hdated, ?_⟩
    have hcases : (w.course (.all root)).ending = none ∨
        (w.course (.all root)).ending = some .panic := by
      rw [hcourse]
      refine h.ending_belowCourse hw hroot hplace (S := fun e => e = none ∨ e = some .panic)
        (Or.inl rfl) (fun ns node _ _ => ?_) hhere
      split_ifs <;> simp
    refine hcases.resolve_left fun hending => hdated fun ns hbelow => ?_
    -- All that is below the root has been reported then, with what was seen of it.
    have hcovers := covers_course hw hroot
      (fun spot hspot => ⟨place, Except.ok.inj (hspot.symm.trans h.located)⟩) hnode hkind
    obtain ⟨r, hr, rfl⟩ := (exists_report_iff hcovers hending).2 hbelow
    obtain ⟨ns, -, hof⟩ := hcovers.sound r hr
    obtain rfl : r.relative.names = ns := hof.relative
    obtain ⟨found, hfound, -, hseen⟩ := hof.exists_node
    exact (isDated_iff_of_find hfound).2 (Metadata.ofStatus_eq_ok_iff.1 hseen).1

end IsPlainBelow

end World

end SnapStore
