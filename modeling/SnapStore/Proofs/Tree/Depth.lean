import Mathlib.Data.List.MinMax
import Mathlib.Data.List.Nodup
import Mathlib.Data.List.Perm.Subperm
import Mathlib.Order.Nat
import SnapStore.Proofs.Tree.Subwalk
import SnapStore.Proofs.Tree.Turns

/-!
# How deep a walk gets

A walk may be inside of one directory twice. Only links are looked at for loops, and a link may have
led to a directory that holds the root of the walk; to go down to it from there closes no loop. What
cannot be is that two links have led to the same directory and the walk is inside of both
(`SnapStore.World.Nested.exists_spots`). From one link to the next the walk goes down in the world
as it is, and so no further than the world reaches. Hence there is a bound to how many directories
are open (`SnapStore.World.Nested.length_le_room`), in which the lengths of paths play no part.

How the open directories lie inside of one another is said by `SnapStore.World.Nested`, with one
case for each way in which a directory is come to. All that a walk is inside of in one of its states
is so (`SnapStore.World.held_stateAfter`).
-/

namespace SnapStore

open DirectoryTree

/-- How far below the root a spot lies. -/
def Spot.depth : Spot → Nat
  | .place p => p.length
  | .removed _ => 0

namespace World

variable (w : World)

/-! ### The size of a world -/

/-- Everything that a path can lead to. -/
def spots : List Spot :=
  .place [] :: w.nodes.map (fun e => .place e.1) ++ (List.range w.home.removed.length).map .removed

/-- How many names lead down from the root at most. -/
def height : Nat := (w.nodes.map (·.1.length)).foldr max 0

/-- How many directories can be open at most. -/
def room : Nat := (w.spots.length + 1) * (w.height + 1) + 1

variable {w}

/-- What stands somewhere is the root, or it is assigned to its place. -/
theorem eq_nil_or_mem_nodes {p : Place} {node : Node} (h : w.node? p = some node) :
    p = [] ∨ (p, node) ∈ w.nodes :=
  or_iff_not_imp_left.2 fun hp => (w.node?_eq_some_iff hp).1 h

theorem mem_spots_of_nodeAt? {s : Spot} {node : Node} (h : w.nodeAt? s = some node) :
    s ∈ w.spots := by
  unfold spots
  cases s with
  | place p =>
    rcases eq_nil_or_mem_nodes h with rfl | hmem
    · simp
    · exact List.mem_append_left _ (List.mem_cons_of_mem _ (List.mem_map.2 ⟨_, hmem, rfl⟩))
  | removed level =>
    obtain ⟨time, htime, -⟩ := Option.map_eq_some_iff.1 h
    obtain ⟨hlevel, -⟩ := List.getElem?_eq_some_iff.1 htime
    exact List.mem_append_right _ (List.mem_map_of_mem (List.mem_range.2 hlevel))

theorem length_le_height {p : Place} (h : w.isDirectory p = true) : p.length ≤ w.height := by
  rw [isDirectory, Option.any_eq_true] at h
  obtain ⟨node, hnode, -⟩ := h
  rcases eq_nil_or_mem_nodes hnode with rfl | hmem
  · exact Nat.zero_le _
  · exact List.le_max_of_le (List.mem_map.2 ⟨_, hmem, rfl⟩) (Nat.le_refl _)

/-! ### Coming to a directory -/

theorem exists_nodeAt?_of_stat {p : Path} {s : Status} (h : w.stat p = .ok s) :
    ∃ spot node, w.locate true p = .ok spot ∧ w.nodeAt? spot = some node := by
  obtain ⟨node, hfind, -⟩ := exists_find_of_stat h
  obtain ⟨spot, hspot, hnode⟩ := exists_nodeAt?_of_find hfind
  exact ⟨spot, node, hspot, hnode⟩

/-- Where something is listed there stands a directory. -/
theorem exists_of_mem_list {p : Path} {listed : List (Bytes × Kind)} (h : w.list p = .ok listed)
    {item : Bytes × Kind} (hitem : item ∈ listed) :
    ∃ place, w.locate true p = .ok (.place place) ∧ w.isDirectory place = true := by
  rcases cases_of_list h with ⟨place, hspot, hplace, -⟩ | ⟨level, -, rfl⟩
  · exact ⟨place, hspot, hplace⟩
  · cases hitem

/-- **A link to a directory is followed** only if it leads out of all that the walk is inside of. -/
theorem locate_ne_of_reach {inside : List Path} {here : Path} {names : List Bytes}
    {item : Bytes × Kind} {e : Reached} (h : w.reach inside here names item = .ok e)
    (hfollowed : e.isFollowed = true) (hkind : e.kind = .directory) :
    ∃ spot node, w.locate true e.path = .ok spot ∧ w.nodeAt? spot = some node ∧
      ∀ a ∈ inside, ∃ other, w.locate true a = .ok other ∧ other ≠ spot := by
  rcases arrived_of_reach h with ⟨-, -, hnot⟩ | ⟨hlisted, -, s, hstat, hs⟩
  · rw [hnot] at hfollowed
    cases hfollowed
  · obtain ⟨spot, node, hspot, hnode⟩ := exists_nodeAt?_of_stat hstat
    obtain ⟨hpath, -⟩ := names_of_reach h
    rw [hpath] at hstat hspot ⊢
    refine ⟨spot, node, hspot, hnode, ?_⟩
    unfold reach at h
    rw [run_arrive, if_neg (not_not.2 hlisted), hstat] at h
    dsimp only at h
    rw [if_pos (hs ▸ hkind), hspot] at h
    dsimp only at h
    rcases hloop : (findLoop (.still w) (here.child item.1) spot inside).run with fault | _
    · rw [hloop] at h
      cases h
    · exact run_findLoop_eq_ok_iff.1 hloop

/-! ### Directories inside of one another -/

/-- **How a walk has come to be inside of some directories**, the innermost first. -/
inductive Nested (w : World) : List Reached → Prop
  /-- It is inside of nothing. -/
  | nil : Nested w []
  /-- It has begun in a directory, which a link may have led to. -/
  | root {e : Reached}
      (he : e.isFollowed = true →
        ∃ spot node, w.locate true e.path = .ok spot ∧ w.nodeAt? spot = some node) :
      Nested w [e]
  /-- It has gone down by one name. -/
  | byName {e d : Reached} {outer : List Reached} {place : Place} {n : Bytes}
      (hd : w.locate true d.path = .ok (.place place)) (hplace : w.isDirectory place = true)
      (he : e.isFollowed = false)
      (hspot : ∀ spot, w.locate true e.path = .ok spot → spot = .place (place ++ [n]))
      (h : Nested w (d :: outer)) : Nested w (e :: d :: outer)
  /-- It has followed a link that leads somewhere else. -/
  | byLink {e d : Reached} {outer : List Reached} {place : Place} {spot : Spot} {node : Node}
      (hd : w.locate true d.path = .ok (.place place)) (hplace : w.isDirectory place = true)
      (he : e.isFollowed = true) (hspot : w.locate true e.path = .ok spot)
      (hnode : w.nodeAt? spot = some node)
      (hnew : ∀ a ∈ d :: outer, ∃ other, w.locate true a.path = .ok other ∧ other ≠ spot)
      (h : Nested w (d :: outer)) : Nested w (e :: d :: outer)

/-- Those directories among some that a link has led to. -/
def followed (es : List Reached) : List Reached := es.filter (·.isFollowed)

section Followed

variable {e : Reached} {es : List Reached}

theorem followed_cons_of_true (h : e.isFollowed = true) : followed (e :: es) = e :: followed es :=
  List.filter_cons_of_pos h

theorem followed_cons_of_false (h : e.isFollowed = false) : followed (e :: es) = followed es :=
  List.filter_cons_of_neg (by simp [h])

end Followed

namespace Nested

variable {e : Reached} {outer es : List Reached}

theorem tail (h : w.Nested (e :: outer)) : w.Nested outer := by
  cases h with
  | root => exact .nil
  | byName _ _ _ _ h => exact h
  | byLink _ _ _ _ _ _ h => exact h

/-- **What a walk comes upon lies inside of all that it is inside of.** -/
theorem reach (hw : w.IsWellNamed) {d : Reached} {listed : List (Bytes × Kind)}
    (hlist : w.list d.path = .ok listed) {item : Bytes × Kind} (hitem : item ∈ listed)
    (hreach : w.reach (d.path :: outer.map (·.path)) d.path d.names item = .ok e)
    (hkind : e.kind = .directory) (h : w.Nested (d :: outer)) : w.Nested (e :: d :: outer) := by
  obtain ⟨place, hd, hplace⟩ := exists_of_mem_list hlist hitem
  rcases hfollowed : e.isFollowed with _ | _
  · -- It was listed as a directory, and that is what stands there.
    obtain ⟨hpath, -⟩ := names_of_reach hreach
    rcases arrived_of_reach hreach with ⟨hlisted, -, -⟩ | ⟨-, hlink, -⟩
    · obtain rfl := Except.ok.inj (hlist.symm.trans (list_of_locate hd hplace))
      obtain ⟨node, hnode, hnodeKind⟩ := mem_children.1 hitem
      refine .byName hd hplace hfollowed (n := item.1) (fun spot hspot => ?_) h
      rw [hpath] at hspot
      rcases locate_child hd hplace (isName_of_list hw hlist item hitem) hnode (hnodeKind ▸ hlisted)
        with ⟨cause, -, hlocate⟩ | hlocate
      · rw [hlocate] at hspot
        cases hspot
      · rw [hlocate] at hspot
        exact (Except.ok.inj hspot).symm
    · rw [hfollowed] at hlink
      cases hlink
  · obtain ⟨spot, node, hspot, hnode, hnew⟩ := locate_ne_of_reach hreach hfollowed hkind
    refine .byLink hd hplace hfollowed hspot hnode (fun a ha => hnew _ ?_) h
    rw [← List.map_cons]
    exact List.mem_map_of_mem ha

/-- **No two links have led to the same directory** if the walk is inside of both. -/
theorem exists_spots (h : w.Nested es) :
    ∃ spots : List Spot, (followed es).map (fun e => w.locate true e.path) = spots.map .ok ∧
      spots.Nodup ∧ spots ⊆ w.spots := by
  induction h with
  | nil => exact ⟨[], rfl, List.nodup_nil, List.nil_subset _⟩
  | @root e he =>
    rcases hfollowed : e.isFollowed with _ | _
    · rw [followed_cons_of_false hfollowed]
      exact ⟨[], rfl, List.nodup_nil, List.nil_subset _⟩
    · obtain ⟨spot, node, hspot, hnode⟩ := he hfollowed
      rw [followed_cons_of_true hfollowed]
      exact ⟨[spot], congrArg (fun x => [x]) hspot, List.nodup_singleton spot,
        List.cons_subset.2 ⟨mem_spots_of_nodeAt? hnode, List.nil_subset _⟩⟩
  | byName _ _ he _ _ ih =>
    rw [followed_cons_of_false he]
    exact ih
  | @byLink e d outer _ spot _ _ _ he hspot hnode hnew _ ih =>
    obtain ⟨spots, hspots, hnodup, hsub⟩ := ih
    rw [followed_cons_of_true he]
    refine ⟨spot :: spots, by rw [List.map_cons, List.map_cons, hspot, hspots],
      List.nodup_cons.2 ⟨fun hmem => ?_, hnodup⟩,
      List.cons_subset.2 ⟨mem_spots_of_nodeAt? hnode, hsub⟩⟩
    -- A link that led there before would have led to a directory that is still open.
    obtain ⟨a, ha, hsame⟩ := List.mem_map.1 (hspots ▸ List.mem_map_of_mem hmem)
    obtain ⟨other, hother, hne⟩ := hnew a (List.mem_of_mem_filter ha)
    exact hne (Except.ok.inj (hother.symm.trans hsame))

/-- For each link that was followed there are at most as many directories as the world has levels,
and then those down to the innermost. -/
theorem length_le_of_locate {spot : Spot} (h : w.Nested (e :: outer))
    (hspot : w.locate true e.path = .ok spot) :
    (e :: outer).length ≤ (followed (e :: outer)).length * (w.height + 1) + spot.depth + 1 := by
  generalize hes : e :: outer = es at h
  induction h generalizing e outer spot with
  | nil => cases hes
  | root => exact Nat.le_add_left _ _
  | byName hd _ he hbelow _ ih =>
    cases hes
    obtain rfl := hbelow spot hspot
    have hlength := ih hd rfl
    rw [followed_cons_of_false he, List.length_cons]
    simp only [Spot.depth, List.length_append, List.length_singleton] at hlength ⊢
    omega
  | byLink hd hplace he _ _ _ _ ih =>
    cases hes
    have hlength := ih hd rfl
    have hheight := length_le_height hplace
    simp only [followed_cons_of_true he, List.length_cons, Nat.succ_mul, Spot.depth] at hlength ⊢
    omega

/-- The innermost directory may be one that cannot be looked up. -/
theorem length_le (h : w.Nested es) :
    es.length ≤ ((followed es).length + 1) * (w.height + 1) + 1 := by
  rw [Nat.succ_mul]
  cases h with
  | nil => exact Nat.zero_le _
  | root => exact Nat.le_add_left _ _
  | byName hd hplace he _ h =>
    have hlength := h.length_le_of_locate hd
    have hheight := length_le_height hplace
    rw [followed_cons_of_false he, List.length_cons]
    simp only [Spot.depth] at hlength
    omega
  | byLink hd hplace he _ _ _ h =>
    have hlength := h.length_le_of_locate hd
    have hheight := length_le_height hplace
    simp only [followed_cons_of_true he, List.length_cons, Nat.succ_mul, Spot.depth] at hlength ⊢
    omega

/-- **No more directories are open than there is room for.** -/
theorem length_le_room (h : w.Nested es) : es.length ≤ w.room := by
  obtain ⟨spots, hspots, hnodup, hsub⟩ := h.exists_spots
  have hlength := congrArg List.length hspots
  rw [List.length_map, List.length_map] at hlength
  have hfew : (followed es).length ≤ w.spots.length :=
    hlength ▸ (List.subperm_of_subset hnodup hsub).length_le
  exact h.length_le.trans (Nat.succ_le_succ (Nat.mul_le_mul_right _ (Nat.succ_le_succ hfew)))

end Nested

/-! ### What a walk is inside of -/

/-- The directory that the walk comes upon in the next turn, if it does. -/
def upcoming (w : World) : List OpenDirectory → Option Reached
  | ⟨e, .ok (item :: _)⟩ :: outer =>
    match w.reach (e.path :: outer.map (·.entry.path)) e.path e.names item with
    | .error _ => none
    | .ok found => if found.kind = .directory then some found else none
  | _ => none

/-- **The directories that are open in the next turn**: those that the walk is inside of, and the
one that it comes upon, which is open when it is reported, and is so even if it is not gone into. -/
def opened (w : World) (inside : List OpenDirectory) : List Reached :=
  (w.upcoming inside).toList ++ inside.map (·.entry)

/-- What is known of all that a walk is inside of. -/
structure Held (w : World) (inside : List OpenDirectory) : Prop where
  /-- How the directories lie inside of one another. -/
  nested : w.Nested (inside.map (·.entry))
  /-- What is left of a listing has been in it. -/
  listed : ∀ d ∈ inside, ∀ left, d.left = .ok left →
    ∃ listed, w.list d.entry.path = .ok listed ∧ left ⊆ listed

namespace Held

variable {t : DirectoryTree} {d : OpenDirectory} {inside outer : List OpenDirectory}

theorem nil : w.Held [] := ⟨.nil, fun _ hd => absurd hd List.not_mem_nil⟩

theorem tail (h : w.Held (d :: outer)) : w.Held outer :=
  ⟨h.nested.tail, fun d' hd' => h.listed d' (List.mem_cons_of_mem _ hd')⟩

/-- One item of the innermost directory has been taken. -/
theorem drop {e : Reached} {item : Bytes × Kind} {rest : List (Bytes × Kind)}
    (h : w.Held (⟨e, .ok (item :: rest)⟩ :: outer)) : w.Held (⟨e, .ok rest⟩ :: outer) := by
  refine ⟨h.nested, List.forall_mem_cons.2 ⟨?_, h.tail.listed⟩⟩
  rintro _ ⟨⟩
  obtain ⟨listed, hlist, hsub⟩ := h.listed _ List.mem_cons_self _ rfl
  exact ⟨listed, hlist, List.subset_of_cons_subset hsub⟩

/-- A directory has been gone into. -/
theorem enter {e : Reached} (he : w.Nested (e :: inside.map (·.entry))) (h : w.Held inside) :
    w.Held (w.enter e :: inside) := by
  refine ⟨he, List.forall_mem_cons.2 ⟨fun left hleft => ?_, h.listed⟩⟩
  obtain ⟨listed, hlist, rfl⟩ : ∃ listed, w.list e.path = .ok listed ∧ inOrder listed = left := by
    rcases hlist : w.list e.path with cause | listed
    · rw [World.enter, hlist] at hleft
      cases hleft
    · rw [World.enter, hlist] at hleft
      exact ⟨listed, rfl, Except.ok.inj hleft⟩
  exact ⟨listed, hlist, fun item hitem => List.mem_mergeSort.1 hitem⟩

/-- What is come upon under the next item lies inside of all the others. -/
theorem reach (hw : w.IsWellNamed) {e found : Reached} {item : Bytes × Kind}
    {rest : List (Bytes × Kind)} (h : w.Held (⟨e, .ok (item :: rest)⟩ :: outer))
    (hreach : w.reach (e.path :: outer.map (·.entry.path)) e.path e.names item = .ok found)
    (hkind : found.kind = .directory) : w.Nested (found :: e :: outer.map (·.entry)) := by
  obtain ⟨listed, hlist, hsub⟩ := h.listed _ List.mem_cons_self _ rfl
  refine Nested.reach hw hlist (hsub List.mem_cons_self) ?_ hkind h.nested
  rw [List.map_map]
  exact hreach

/-- **All that is open lies inside of one another.** -/
theorem nested_opened (hw : w.IsWellNamed) (h : w.Held inside) : w.Nested (w.opened inside) := by
  unfold opened
  rcases hupcoming : w.upcoming inside with _ | found
  · exact h.nested
  · unfold upcoming at hupcoming
    split at hupcoming
    · rename_i e item rest outer
      rcases hreach : w.reach (e.path :: outer.map (·.entry.path)) e.path e.names item with
        fault | e'
      · rw [hreach] at hupcoming
        cases hupcoming
      · rw [hreach] at hupcoming
        dsimp only at hupcoming
        split_ifs at hupcoming with hkind
        cases hupcoming
        exact h.reach hw hreach hkind
    · cases hupcoming

/-- **In a turn the walk gets from open directories to open directories.** -/
theorem take (hw : w.IsWellNamed) (h : w.Held (d :: outer)) : w.Held (w.take t outer d).2 := by
  rcases w.snd_take_cases t d outer with hleave | ⟨e, item, rest, rfl, hdrop | hdown⟩
  · rw [hleave]
    exact h.tail
  · rw [hdrop]
    exact h.drop
  · obtain ⟨found, hreach, hkind, hdown⟩ := hdown
    rw [hdown]
    exact h.drop.enter (h.reach hw hreach hkind)

theorem turn (hw : w.IsWellNamed) {s : WalkState} (h : w.Held s.inside) :
    w.Held (w.turn t s).inside := by
  obtain ⟨told, _ | ⟨d, outer⟩⟩ := s
  · exact h
  · change w.Held (if _ then [] else _)
    split_ifs
    · exact .nil
    · exact h.take hw

end Held

/-- A walk begins in its root, or it is over at once. -/
theorem inside_start (w : World) (t : DirectoryTree) : (w.start t).inside = [] ∨
    ∃ e, w.Nested [e] ∧ (w.start t).inside = [w.enter e] := by
  suffices h : (w.startDirectory t).inside = [] ∨
      ∃ e, w.Nested [e] ∧ (w.startDirectory t).inside = [w.enter e] by
    unfold start
    rcases w.stat t.root with _ | s
    · exact h
    · dsimp only
      split_ifs
      · exact Or.inl rfl
      · exact h
  unfold startDirectory
  rcases w.linkStat t.root with _ | s
  · exact Or.inl rfl
  · dsimp only
    rcases harrive : (arrive (.still w) [] t.root s.kind).run with _ | ⟨kind, isFollowed⟩
    · exact Or.inl rfl
    · dsimp only
      split_ifs
      · refine Or.inr ⟨_, .root ?_, rfl⟩
        rintro rfl
        -- Where a link was followed, the system has said what it leads to.
        rw [run_arrive] at harrive
        rcases hstat : w.stat t.root with e | found
        · rw [hstat] at harrive
          split_ifs at harrive
          cases harrive
        · exact exists_nodeAt?_of_stat hstat
      · exact Or.inl rfl

theorem held_start (w : World) (t : DirectoryTree) : w.Held (w.start t).inside := by
  rcases w.inside_start t with hinside | ⟨e, he, hinside⟩
  · rw [hinside]
    exact .nil
  · rw [hinside]
    exact Held.enter he .nil

/-- **Whatever the turn, the open directories lie inside of one another.** -/
theorem held_stateAfter (hw : w.IsWellNamed) (t : DirectoryTree) (turns : Nat) :
    w.Held (w.stateAfter t turns).inside := by
  induction turns with
  | zero => exact w.held_start t
  | succ turns ih =>
    rw [stateAfter, Function.iterate_succ_apply']
    exact ih.turn hw

end World

end SnapStore
