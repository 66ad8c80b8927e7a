import SnapStore.Proofs.Path.Text
import SnapStore.Proofs.Text.Order
import SnapStore.Proofs.Tree.Cover
import SnapStore.Proofs.World.Child

/-!
# Complete walks

A walk through a whole directory reports all there is, unless it breaks off: its course covers
whatever names reach down from the root (`SnapStore.World.covers_course`).

What a walk does at an entry rests on the kind that was listed with the name, on what the system
says of the path, and on where links lead. `SnapStore.World.node_of_reach` brings this down to one
thing, the node that the path leads to: the kind is that of the node, and so is what is seen. The
other ways out end the walk. In particular an entry that is passed over as vanished has led nowhere
from the beginning (`SnapStore.World.find_of_reach_vanished`), since a directory that the walk is
inside of is still there.

The induction is on the levels that are left. They cannot run out: the path of a directory that can
be read is shorter than `SnapStore.World.maxPath`, and each level makes it longer.
-/

namespace SnapStore

open Bytes (slash dot)

@[simp] theorem Node.kind_status (node : Node) : node.status.kind = node.kind := by
  cases node <;> rfl

namespace World

open DirectoryTree

variable {w : World}

/-! ### Listings -/

theorem children_distinct (w : World) (p : Place) :
    (w.children p).Pairwise fun a b => a.1 ≠ b.1 := by
  refine w.distinct.filterMap _ fun a b hab x hx y hy => ?_
  rw [Option.map_eq_some_iff] at hx hy
  obtain ⟨n, hn, rfl⟩ := hx
  obtain ⟨m, hm, rfl⟩ := hy
  rintro rfl
  exact hab ((childName?_eq_some_iff.1 hn).trans (childName?_eq_some_iff.1 hm).symm)

/-- What is listed comes in increasing order of the names. -/
theorem inOrder_sorted {listed : List (Bytes × Kind)}
    (h : listed.Pairwise fun a b => a.1 ≠ b.1) :
    (inOrder listed).Pairwise fun a b => compare a.1 b.1 = .lt := by
  have hle : (inOrder listed).Pairwise fun a b => a.1.le b.1 = true :=
    List.pairwise_mergeSort (fun a b c => Bytes.isLinear_le.trans a.1 b.1 c.1)
      (fun a b => by simpa using Bytes.isLinear_le.total a.1 b.1) _
  have hne : (inOrder listed).Pairwise fun a b => a.1 ≠ b.1 :=
    (List.mergeSort_perm listed _).pairwise_iff (fun {_ _} h => h.symm) |>.2 h
  -- Without repetitions, sorted is strictly increasing.
  refine hle.imp₂ (fun a b hab hne => ?_) hne
  rcases hcmp : compare a.1 b.1 with _ | _ | _
  · rfl
  · exact absurd (Std.LawfulEqCmp.eq_of_compare hcmp) hne
  · rw [Bytes.le, hcmp] at hab
    cases hab

/-- What can be listed is a directory. -/
theorem exists_of_list {p : Path} (hp : w.LeadsToPlace p) {listed : List (Bytes × Kind)}
    (h : w.list p = .ok listed) :
    ∃ place, w.locate true p = .ok (.place place) ∧ w.isDirectory place = true ∧
      listed = w.children place := by
  rcases cases_of_list h with hplace | ⟨level, hspot, -⟩
  · exact hplace
  · obtain ⟨place, hplace⟩ := hp _ hspot
    cases hplace

theorem list_of_locate {p : Path} {place : Place} (h : w.locate true p = .ok (.place place))
    (hplace : w.isDirectory place = true) : w.list p = .ok (w.children place) := by
  rw [World.list, h]
  exact if_pos hplace

/-- What leads to a directory leads to a node that is one. -/
theorem find_of_locate {p : Path} {place : Place} (h : w.locate true p = .ok (.place place))
    (hplace : w.isDirectory place = true) :
    ∃ node, w.find true p = .ok node ∧ node.kind = .directory := by
  unfold isDirectory at hplace
  rcases hnode : w.node? place with _ | node
  · rw [hnode] at hplace
    cases hplace
  · rw [hnode] at hplace
    refine ⟨node, ?_, by simpa using hplace⟩
    rw [find, h]
    dsimp only [nodeAt?]
    rw [hnode]

/-- **What is found** stands at the spot that the path leads to. -/
theorem exists_nodeAt?_of_find {p : Path} {node : Node} (h : w.find true p = .ok node) :
    ∃ spot, w.locate true p = .ok spot ∧ w.nodeAt? spot = some node := by
  unfold find at h
  rcases hspot : w.locate true p with e | spot
  · rw [hspot] at h
    cases h
  · rw [hspot] at h
    dsimp only at h
    rcases hnode : w.nodeAt? spot with _ | found
    · rw [hnode] at h
      cases h
    · rw [hnode] at h
      cases h
      exact ⟨spot, rfl, hnode⟩

theorem exists_locate_of_find {p : Path} {node : Node} (h : w.find true p = .ok node) :
    ∃ spot, w.locate true p = .ok spot :=
  (exists_nodeAt?_of_find h).imp fun _ hspot => hspot.1

theorem exists_of_find {p : Path} (hp : w.LeadsToPlace p) {node : Node}
    (h : w.find true p = .ok node) (hkind : node.kind = .directory) :
    ∃ place, w.locate true p = .ok (.place place) ∧ w.isDirectory place = true := by
  obtain ⟨spot, hspot, hnode⟩ := exists_nodeAt?_of_find h
  obtain ⟨place, rfl⟩ := hp _ hspot
  refine ⟨place, hspot, ?_⟩
  dsimp only [nodeAt?] at hnode
  rw [isDirectory, hnode]
  simpa using hkind

/-! ### What a walk comes upon -/

/-- How an entry is arrived at in a world that stands still. -/
theorem run_arrive (inside : List Path) (path : Path) (listed : Kind) :
    (arrive (.still w) inside path listed).run =
      if listed ≠ .link then .ok (listed, false)
      else
        match w.stat path with
        | .error e => .error (.refused (some path) e)
        | .ok s =>
          if s.kind = .directory then
            match w.locate true path with
            | .error e => .error (.refused none e)
            | .ok spot =>
              (findLoop (.still w) path spot inside).run.map fun _ => (s.kind, true)
          else .ok (s.kind, true) := by
  unfold arrive
  by_cases hlisted : listed ≠ .link
  · rw [if_pos hlisted, if_pos hlisted]
    rfl
  · have hstat : (Calls.still w).stat path = (pure (w.stat path) : Id _) := rfl
    have hidentify : (Calls.still w).identify path = (pure (w.locate true path) : Id _) := rfl
    rw [if_neg hlisted, if_neg hlisted, hstat, liftM_pure, pure_bind]
    rcases w.stat path with e | s
    · rfl
    · dsimp only
      split_ifs
      · rw [hidentify, liftM_pure, pure_bind]
        rcases w.locate true path with e | spot
        · rfl
        · dsimp only
          rw [bind_pure_comp, ExceptT.run_map]
          rfl
      · rfl

/-- A directory that is still there has not vanished. -/
theorem isVanished_of_findLoop {child : Path} {spot : Spot} {inside : List Path}
    (hinside : ∀ a ∈ inside, ∃ s, w.locate true a = .ok s) {fault : WalkFault}
    (h : (findLoop (.still w) child spot inside).run = Except.error fault) :
    fault.isVanished = false := by
  induction inside with
  | nil => cases h
  | cons a inside ih =>
    obtain ⟨other, hother⟩ := hinside a (by simp)
    have hidentify : (Calls.still w).identify a = (pure (.ok other) : Id _) := hother
    rw [findLoop, hidentify, liftM_pure, pure_bind] at h
    dsimp only at h
    split_ifs at h
    · cases h
      rfl
    · exact ih (fun b hb => hinside b (List.mem_cons_of_mem _ hb)) h

/-- **An entry that is passed over** has led nowhere from the beginning. -/
theorem find_of_reach_vanished {inside : List Path} {here : Path} {names : List Bytes}
    {entry : Bytes × Kind} (hinside : ∀ a ∈ inside, ∃ s, w.locate true a = .ok s)
    {fault : WalkFault} (h : w.reach inside here names entry = .error fault)
    (hfault : fault.isVanished = true) : w.find true (here.child entry.1) = .error .notFound := by
  unfold reach at h
  rw [run_arrive] at h
  rcases hfind : w.find true (here.child entry.1) with e | node
  · rw [World.stat, hfind] at h
    by_cases hlisted : entry.2 ≠ .link
    · rw [if_pos hlisted] at h
      cases h
    · rw [if_neg hlisted] at h
      cases h
      simpa [WalkFault.isVanished] using hfault
  · -- Something is there, so only a loop can stop the walk, and a loop is no vanished entry.
    obtain ⟨spot, hspot⟩ := exists_locate_of_find hfind
    rw [World.stat, hfind, hspot] at h
    dsimp only [Except.map] at h
    split_ifs at h
    rcases hloop : (findLoop (.still w) (here.child entry.1) spot inside).run with fault' | _
    · rw [hloop] at h
      cases h
      rw [isVanished_of_findLoop hinside hloop] at hfault
      cases hfault
    · rw [hloop] at h
      cases h

/-- How an entry is arrived at: as it was listed, or by following a link. -/
theorem arrived_of_reach {inside : List Path} {here : Path} {names : List Bytes}
    {entry : Bytes × Kind} {e : Reached} (h : w.reach inside here names entry = .ok e) :
    (entry.2 ≠ .link ∧ e.kind = entry.2 ∧ e.isFollowed = false) ∨
      (entry.2 = .link ∧ e.isFollowed = true ∧ ∃ s, w.stat e.path = .ok s ∧ e.kind = s.kind) := by
  unfold reach at h
  rw [run_arrive] at h
  by_cases hlisted : entry.2 ≠ .link
  · rw [if_pos hlisted] at h
    cases h
    exact Or.inl ⟨hlisted, rfl, rfl⟩
  · rw [if_neg hlisted] at h
    rcases hstat : w.stat (here.child entry.1) with cause | s
    · rw [hstat] at h
      cases h
    · rw [hstat] at h
      dsimp only at h
      refine Or.inr ⟨not_not.1 hlisted, ?_⟩
      split_ifs at h
      · rcases hspot : w.locate true (here.child entry.1) with cause | spot
        · rw [hspot] at h
          cases h
        · rw [hspot] at h
          dsimp only at h
          rcases hloop : (findLoop (.still w) (here.child entry.1) spot inside).run with fault | _
          · rw [hloop] at h
            cases h
          · rw [hloop] at h
            cases h
            exact ⟨rfl, s, hstat, rfl⟩
      · cases h
        exact ⟨rfl, s, hstat, rfl⟩

/-- **An entry is what its path leads to**, and that is what is seen of it, unless the system
refuses the path. -/
theorem node_of_reach (hw : w.IsWellNamed) {inside : List Path} {here : Path} {names : List Bytes}
    {place : Place} (hhere : w.locate true here = .ok (.place place))
    (hplace : w.isDirectory place = true) {entry : Bytes × Kind} (hentry : entry ∈ w.children place)
    {e : Reached} (h : w.reach inside here names entry = .ok e) :
    (∃ cause, cause ≠ .notFound ∧ w.look e = .error cause) ∨
      ∃ node, w.find true e.path = .ok node ∧ w.look e = .ok node.status ∧ e.kind = node.kind := by
  obtain ⟨node, hnode, hkind⟩ := mem_children.1 hentry
  obtain ⟨hpath, -⟩ := names_of_reach h
  rcases arrived_of_reach h with ⟨hlisted, hek, hfollowed⟩ | ⟨-, hfollowed, s, hstat, hek⟩
  · -- No link was listed, so the path leads to the same whether links are followed or not.
    have hlook : w.look e = w.linkStat (here.child entry.1) := by
      rw [look, hfollowed, hpath]
      rfl
    rw [hlook, hpath]
    rcases locate_child hhere hplace (hw place entry.1 node hnode) hnode (hkind ▸ hlisted) with
      ⟨cause, hcause, hlocate⟩ | hlocate
    · refine Or.inl ⟨cause, hcause, ?_⟩
      rw [linkStat, find, hlocate]
      rfl
    · have hfind : ∀ followLast, w.find followLast (here.child entry.1) = .ok node := by
        intro followLast
        rw [find, hlocate]
        dsimp only [nodeAt?]
        rw [hnode]
      refine Or.inr ⟨node, hfind true, ?_, hek.trans hkind.symm⟩
      rw [linkStat, hfind]
      rfl
  · have hlook : w.look e = w.stat e.path := by
      rw [look, hfollowed]
      rfl
    obtain ⟨found, hfind, rfl⟩ := exists_find_of_stat hstat
    exact Or.inr ⟨found, hfind, hlook.trans hstat, hek.trans found.kind_status⟩

/-! ### What is reported covers everything -/

/-- An entry of the full walk is reported as what it is. -/
theorem covers_entryCourse {root : Path} {e : Reached} (hnames : ∀ n ∈ e.names, n.IsName)
    (hpath : e.path = root.below e.names) {node : Node} (hnode : w.find true e.path = .ok node)
    (hlook : w.look e = .ok node.status) (hkind : e.kind = node.kind) :
    (w.entryCourse e).Covers w root (· = e.names) := by
  unfold entryCourse
  rw [hlook]
  dsimp only
  rcases hseen : Metadata.ofStatus node.status with failure | seen
  · exact Course.covers_fail failure
  rcases hrelative : RelativePath.ofPath (e.kind ≠ .directory) (.ofNames e.names)
    with err | relative
  · exact Course.covers_fail _
  · obtain ⟨hfile, hrnames⟩ := RelativePath.names_of_ofPath hnames hrelative
    have hof : ∀ isDirectory : Bool, e.kind = (if isDirectory then .directory else .file) →
        (⟨isDirectory, e.path, relative, seen⟩ : Report).IsOf w root e.names := by
      intro isDirectory hk
      refine ⟨hpath, hrnames, ?_, node, hpath ▸ hnode, hkind ▸ hk, hseen⟩
      rw [hfile, hk]
      cases isDirectory <;> rfl
    cases hk : e.kind with
    | directory => exact Course.covers_one (hof true hk)
    | file => exact Course.covers_one (hof false hk)
    | link => exact Course.covers_fail _
    | special => exact Course.covers_fail _

/-- What reaches down are names. -/
theorem isName_of_reaches (hw : w.IsWellNamed) {p : Path} {ns : List Bytes}
    (h : w.Reaches p ns) : ∀ n ∈ ns, n.IsName := by
  induction ns generalizing p with
  | nil => exact List.forall_mem_nil _
  | cons n ns ih =>
    obtain ⟨⟨listed, kind, hlist, hmem⟩, hrest⟩ := h
    exact List.forall_mem_cons.2 ⟨isName_of_list hw hlist _ hmem, ih hrest⟩

/-- Only a directory has something below it. -/
theorem kind_of_reaches {p : Path} (hp : w.LeadsToPlace p) {node : Node}
    (hnode : w.find true p = .ok node) {ext : List Bytes} (hext : ext ≠ [])
    (h : w.Reaches p ext) : node.kind = .directory := by
  obtain ⟨n, rest, rfl⟩ := List.exists_cons_of_ne_nil hext
  obtain ⟨⟨listed, kind, hlist, -⟩, -⟩ := h
  obtain ⟨place, hlocate, hplace, -⟩ := exists_of_list hp hlist
  obtain ⟨node', hnode', hkind⟩ := find_of_locate hlocate hplace
  rw [hnode] at hnode'
  cases hnode'
  exact hkind

/-- An entry covers itself and what reaches down from it, if what is reported further down covers
that. -/
theorem covers_reachedCourse {root : Path} (hroot : root.toString?.isSome = true)
    {further : Reached → Course} {e : Reached} (hnames : ∀ n ∈ e.names, n.IsName)
    (hpath : e.path = root.below e.names) (hleads : w.LeadsToPlace e.path)
    (hnode : (∃ cause, cause ≠ .notFound ∧ w.look e = .error cause) ∨
      ∃ node, w.find true e.path = .ok node ∧ w.look e = .ok node.status ∧ e.kind = node.kind)
    (hfurther : e.path.toString?.isSome = true →
      (∃ place, w.locate true e.path = .ok (.place place) ∧ w.isDirectory place = true) →
      (further e).Covers w root fun ns => ∃ ext, ext ≠ [] ∧ ns = e.names ++ ext ∧
        w.Reaches e.path ext) :
    (w.reachedCourse (.all root) further (.ok e)).Covers w root fun ns =>
      ∃ ext, ns = e.names ++ ext ∧ w.Reaches e.path ext := by
  rcases htext : e.path.toString? with _ | text
  · rw [reachedCourse_of_not_text htext]
    refine Course.covers_nothing ?_
    rintro ns ⟨ext, rfl, -⟩ hns
    have hsome := Path.isSome_toString?_below hroot fun n hn => hns n (List.mem_append_left _ hn)
    rw [← hpath, htext] at hsome
    cases hsome
  · rw [reachedCourse_all (by rw [htext]; rfl)]
    rcases hnode with ⟨cause, hcause, hlook⟩ | ⟨node, hnode, hlook, hkind⟩
    · obtain ⟨err, hfail⟩ : ∃ err, w.entryCourse e = .fail err := by
        rw [entryCourse, hlook]
        cases cause <;> first | exact absurd rfl hcause | exact ⟨_, rfl⟩
      rw [hfail]
      exact Course.covers_fail err
    · have hdeeper : (if e.kind = .directory then further e else .nothing).Covers w root fun ns =>
          ∃ ext, ext ≠ [] ∧ ns = e.names ++ ext ∧ w.Reaches e.path ext := by
        split_ifs with hdirectory
        · exact hfurther (by rw [htext]; rfl) (exists_of_find hleads hnode (hkind ▸ hdirectory))
        · refine Course.covers_nothing ?_
          rintro ns ⟨ext, hext, -, hreaches⟩
          exact absurd (hkind.trans (kind_of_reaches hleads hnode hext hreaches)) hdirectory
      refine (Course.covers_andThen (covers_entryCourse hnames hpath hnode hlook hkind) hdeeper
        ?_).congr fun ns => ?_
      · -- The directory comes before what is below it.
        rintro ns ms rfl ⟨ext, hext, rfl, -⟩
        exact Bytes.compare_append_of_ne_nil _ hext
      · constructor
        · rintro (rfl | ⟨ext, -, hns, hreaches⟩)
          · exact ⟨[], (List.append_nil _).symm, trivial⟩
          · exact ⟨ext, hns, hreaches⟩
        · rintro ⟨ext, hns, hreaches⟩
          by_cases hext : ext = []
          · rw [hext, List.append_nil] at hns
            exact Or.inl hns
          · exact Or.inr ⟨ext, hext, hns, hreaches⟩

/-- So does whatever a walk comes upon under a name that is listed. -/
theorem covers_reach (hw : w.IsWellNamed) {root : Path} (hroot : root.toString?.isSome = true)
    {further : Reached → Course} {inside : List Path} {here : Path} {names : List Bytes}
    (hnames : ∀ n ∈ names, n.IsName) (hhere : here = root.below names)
    (hinside : ∀ a ∈ inside, ∃ s, w.locate true a = .ok s) {place : Place}
    (hlocate : w.locate true here = .ok (.place place)) (hplace : w.isDirectory place = true)
    {entry : Bytes × Kind} (hentry : entry ∈ w.children place)
    (hfurther : ∀ e, w.reach inside here names entry = .ok e →
      (∃ place, w.locate true e.path = .ok (.place place) ∧ w.isDirectory place = true) →
      (further e).Covers w root fun ns => ∃ ext, ext ≠ [] ∧ ns = e.names ++ ext ∧
        w.Reaches e.path ext) :
    (w.reachedCourse (.all root) further (w.reach inside here names entry)).Covers w root fun ns =>
      ∃ ext, ns = names ++ entry.1 :: ext ∧ w.Reaches (here.child entry.1) ext := by
  have hname : entry.1.IsName := isName_of_list hw (list_of_locate hlocate hplace) entry hentry
  have hchild : w.LeadsToPlace (here.child entry.1) := leadsToPlace_child hlocate hplace hname
  rcases hreach : w.reach inside here names entry with fault | e
  · rw [reachedCourse, faultCourse]
    split_ifs with hvanished
    · -- A link that leads nowhere: it has nothing below it either.
      have hfind := find_of_reach_vanished hinside hreach hvanished
      refine Course.covers_nothing ?_
      rintro ns ⟨ext, rfl, hreaches⟩ -
      by_cases hext : ext = []
      · rw [hext, Path.below_append, ← hhere]
        exact hfind
      · obtain ⟨n, rest, rfl⟩ := List.exists_cons_of_ne_nil hext
        obtain ⟨⟨listed, kind, hlist, -⟩, -⟩ := hreaches
        obtain ⟨place', hlocate', hplace', -⟩ := exists_of_list hchild hlist
        obtain ⟨node, hnode, -⟩ := find_of_locate hlocate' hplace'
        rw [hfind] at hnode
        cases hnode
    · exact Course.covers_fail _
  · obtain ⟨hpath, henames⟩ := names_of_reach hreach
    refine (covers_reachedCourse hroot (isName_of_reach hnames hname hreach)
      (path_of_reach hhere hreach) (hpath ▸ hchild) (node_of_reach hw hlocate hplace hentry hreach)
      (fun _ => hfurther e hreach)).congr fun ns => ?_
    rw [henames, hpath]
    simp only [List.append_assoc, List.singleton_append]

/-- **Whatever reaches down from a directory is covered** by what is reported below it. -/
theorem covers_belowCourse (hw : w.IsWellNamed) {root : Path}
    (hroot : root.toString?.isSome = true) {levels : Nat} {inside : List Path} {here : Path}
    {names : List Bytes} (hnames : ∀ n ∈ names, n.IsName) (hhere : here = root.below names)
    (hlevels : maxPath ≤ levels + here.bytes.length)
    (hinside : ∀ a ∈ inside, ∃ s, w.locate true a = .ok s) {place : Place}
    (hlocate : w.locate true here = .ok (.place place)) (hplace : w.isDirectory place = true) :
    (w.belowCourse (.all root) levels inside here names (w.list here)).Covers w root fun ns =>
      ∃ ext, ext ≠ [] ∧ ns = names ++ ext ∧ w.Reaches here ext := by
  obtain ⟨-, hshort, -⟩ := follow_of_locate hlocate
  induction levels generalizing inside here names place with
  | zero =>
    -- A path that leads somewhere is shorter than the levels would have to be.
    omega
  | succ levels ih =>
    have hlist := list_of_locate hlocate hplace
    rw [hlist, belowCourse]
    have hcovers : ∀ entry ∈ inOrder (w.children place),
        (w.reachedCourse (.all root) (fun e => w.belowCourse (.all root) levels (e.path :: inside)
          e.path e.names (w.list e.path)) (w.reach inside here names entry)).Covers w root fun ns =>
          ∃ ext, ns = names ++ entry.1 :: ext ∧ w.Reaches (here.child entry.1) ext := by
      intro entry hentry
      rw [inOrder, List.mem_mergeSort] at hentry
      have hname : entry.1.IsName := isName_of_list hw hlist entry hentry
      refine covers_reach hw hroot hnames hhere hinside hlocate hplace hentry ?_
      rintro e hreach ⟨place', hlocate', hplace'⟩
      obtain ⟨hpath, -⟩ := names_of_reach hreach
      obtain ⟨-, hshort', -⟩ := follow_of_locate hlocate'
      -- One level less is enough, as the path has become longer.
      have hlonger : here.bytes.length < e.path.bytes.length :=
        hpath ▸ Path.length_lt_length_child here hname.1
      exact ih (isName_of_reach hnames hname hreach) (path_of_reach hhere hreach) (by omega)
        (List.forall_mem_cons.2 ⟨⟨_, hlocate'⟩, hinside⟩) hlocate' hplace' hshort'
    refine (Course.covers_all hcovers ?_).congr fun ns => ?_
    · -- What is below one name comes before what is below the next.
      refine (inOrder_sorted (w.children_distinct place)).imp fun {a b} hab => ?_
      rintro ns ms ⟨ext, rfl, -⟩ ⟨ext', rfl, -⟩
      exact Bytes.compare_append_cons names hab ext ext'
    · constructor
      · rintro ⟨entry, hentry, ext, rfl, hreaches⟩
        rw [inOrder, List.mem_mergeSort] at hentry
        exact ⟨entry.1 :: ext, List.cons_ne_nil _ _, rfl, ⟨_, entry.2, hlist, hentry⟩, hreaches⟩
      · rintro ⟨ext, hext, rfl, hreaches⟩
        obtain ⟨n, rest, rfl⟩ := List.exists_cons_of_ne_nil hext
        obtain ⟨⟨listed, kind, hlisted, hmem⟩, hrest⟩ := hreaches
        rw [hlist] at hlisted
        cases hlisted
        exact ⟨(n, kind), List.mem_mergeSort.2 hmem, rest, rfl, hrest⟩

/-- The walk through a directory begins below its root, whether links lead there or not. -/
theorem course_of_directory (t : DirectoryTree) {node : Node}
    (hnode : w.find true t.root = .ok node) (hkind : node.kind = .directory)
    {spot : Spot} (hlocate : w.locate true t.root = .ok spot) :
    w.course t = w.belowCourse t maxPath [t.root] t.root [] (w.list t.root) := by
  have hstat : w.stat t.root = .ok node.status := by
    rw [World.stat, hnode]
    rfl
  have hlink : ∃ s, w.linkStat t.root = .ok s ∧ (s.kind = .directory ∨ s.kind = .link) := by
    rcases find_false hnode with hfalse | ⟨target, hfalse⟩
    · refine ⟨node.status, ?_, Or.inl (node.kind_status.trans hkind)⟩
      rw [linkStat, hfalse]
      rfl
    · refine ⟨(Node.link target).status, ?_, Or.inr rfl⟩
      rw [linkStat, hfalse]
      rfl
  obtain ⟨s, hlinkStat, hs⟩ := hlink
  have harrive : ∃ isFollowed, (arrive (.still w) [] t.root s.kind).run
      = Except.ok (.directory, isFollowed) := by
    rcases hs with hs | hs
    · exact ⟨false, by rw [run_arrive, hs]; exact if_pos nofun⟩
    · refine ⟨true, ?_⟩
      rw [run_arrive, hs, if_neg (not_not.2 rfl), hstat]
      dsimp only
      rw [Node.kind_status, hkind, if_pos rfl, hlocate]
      rfl
  obtain ⟨isFollowed, harrived⟩ := harrive
  unfold course directoryCourse
  rw [hstat]
  dsimp only
  rw [if_neg (by rw [Node.kind_status, hkind]; nofun), hlinkStat]
  dsimp only
  rw [harrived]
  exact if_pos rfl

/-- **A walk through a whole directory leaves nothing out**, unless it breaks off, and what it
reports is right. -/
theorem covers_course (hw : w.IsWellNamed) {root : Path} (hroot : root.toString?.isSome = true)
    (hleads : w.LeadsToPlace root) {node : Node} (hnode : w.find true root = .ok node)
    (hkind : node.kind = .directory) :
    (w.course (.all root)).Covers w root fun ns => ns ≠ [] ∧ w.Reaches root ns := by
  obtain ⟨place, hlocate, hplace⟩ := exists_of_find hleads hnode hkind
  rw [course_of_directory (.all root) hnode hkind hlocate]
  refine (covers_belowCourse hw hroot (List.forall_mem_nil _) rfl (Nat.le_add_right _ _)
    (List.forall_mem_singleton.2 ⟨_, hlocate⟩) hlocate hplace).congr fun ns => ?_
  constructor
  · rintro ⟨ext, hext, rfl, hreaches⟩
    exact ⟨hext, hreaches⟩
  · rintro ⟨hne, hreaches⟩
    exact ⟨ns, hne, rfl, hreaches⟩

/-! ### What is there besides directories that can be walked -/

/-- The reports of a walk below a directory lie in a directory that can be listed. -/
theorem exists_place_of_mem_belowCourse {t : DirectoryTree} {levels : Nat} {inside : List Path}
    {here : Path} {names : List Bytes} {r : Report}
    (h : r ∈ (w.belowCourse t levels inside here names (w.list here)).reports) :
    ∃ place, w.locate true here = .ok (.place place) ∧ w.isDirectory place = true := by
  cases levels with
  | zero => cases h
  | succ levels =>
    rcases hlist : w.list here with e | listed
    · rw [hlist] at h
      exact absurd h (notMem_faultCourse t _ r)
    · rw [hlist] at h
      rcases cases_of_list hlist with ⟨place, hlocate, hplace, -⟩ | ⟨level, -, rfl⟩
      · exact ⟨place, hlocate, hplace⟩
      · simp [belowCourse, inOrder, Course.all, Course.nothing] at h

/-- Where nothing is text, nothing is reported. -/
theorem notMem_belowCourse_of_not_text {root : Path} {levels : Nat} {inside : List Path}
    {here : Path} (htext : here.toString? = none) {names : List Bytes} {listing : Listing}
    {r : Report} : r ∉ (w.belowCourse (.all root) levels inside here names listing).reports := by
  intro h
  cases levels with
  | zero => cases h
  | succ levels =>
    cases listing with
    | error e => exact absurd h (notMem_faultCourse _ _ r)
    | ok listed =>
      obtain ⟨c, hc, hr⟩ := Course.exists_of_mem_all h
      obtain ⟨entry, -, rfl⟩ := List.mem_map.1 hc
      rcases hreach : w.reach inside here names entry with fault | e
      · rw [hreach] at hr
        exact absurd hr (notMem_faultCourse _ _ r)
      · rw [hreach] at hr
        have hnone : e.path.toString? = none := by
          rw [(names_of_reach hreach).1, Option.eq_none_iff_forall_ne_some]
          intro text hsome
          have := Path.isSome_toString?_of_child (Option.isSome_iff_exists.2 ⟨text, hsome⟩)
          rw [htext] at this
          cases this
        rw [reachedCourse_of_not_text hnone] at hr
        cases hr

/-- What is reported of a root that is not a file lies below a directory. -/
theorem exists_of_mem_directoryCourse {root : Path} {r : Report}
    (h : r ∈ (w.directoryCourse (.all root)).reports) :
    root.toString?.isSome = true ∧
      ∃ place, w.locate true root = .ok (.place place) ∧ w.isDirectory place = true := by
  have hbelow := mem_reports_directoryCourse h
  refine ⟨?_, exists_place_of_mem_belowCourse hbelow⟩
  rcases htext : root.toString? with _ | text
  · exact absurd hbelow (notMem_belowCourse_of_not_text htext)
  · rfl

end World

end SnapStore
