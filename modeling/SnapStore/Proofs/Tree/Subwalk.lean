import SnapStore.Proofs.Tree.Complete

/-!
# Walks that begin further down

A walk through a directory goes through every directory below it. There it is inside of all the
directories on the way, and a link that leads to one of them ends the walk, while a walk that begins
there is not inside of any of them. So the one comes to its end if the other does
(`SnapStore.World.ending_course_below`).

It is shown that a walk comes to its end inside of some of the directories if it does inside of all
of them (`SnapStore.World.ending_belowCourse_of_subset`), and then a walk is followed down to where
the other begins (`SnapStore.World.exists_ending_belowCourse_below`). In either case the levels of
the longer walk do not run out, as in `SnapStore.World.covers_belowCourse`.
-/

namespace SnapStore.World

open DirectoryTree

variable {w : World}

/-! ### When a course comes to its end -/

/-- Texts make names with text segments. -/
theorem exists_map_encode {ns : List Bytes} (h : ∀ n ∈ ns, (Utf8.decode? n).isSome = true) :
    ∃ segments : List String, segments.map Utf8.encode = ns := by
  refine Utf8.exists_map_encode_iff.2 fun n hn => ?_
  obtain ⟨s, hs⟩ := Option.isSome_iff_exists.1 (h n hn)
  exact ⟨s, Utf8.encode_of_decode? hs⟩

/-- An entry can be reported if it is a directory or a file under names that are text and its time
has a date, and it need not be if it has vanished. -/
theorem ending_entryCourse_iff {e : Reached} (hnames : ∀ n ∈ e.names, n.IsName) :
    (w.entryCourse e).ending = none ↔ w.look e = .error .notFound ∨
      (∃ s seen, w.look e = .ok s ∧ Metadata.ofStatus s = .ok seen) ∧
      (∀ n ∈ e.names, (Utf8.decode? n).isSome = true) ∧
        (e.kind = .directory ∨ e.kind = .file) := by
  unfold entryCourse
  rcases hlook : w.look e with cause | s
  · cases cause <;> simp [Course.nothing, Course.fail]
  · dsimp only
    constructor
    · intro h
      rcases hseen : Metadata.ofStatus s with failure | seen
      · rw [hseen] at h
        cases h
      rw [hseen] at h
      rcases hrelative : RelativePath.ofPath (e.kind ≠ .directory) (.ofNames e.names) with err | r
      · rw [hrelative] at h
        cases h
      · rw [hrelative] at h
        obtain ⟨-, hr⟩ := RelativePath.names_of_ofPath hnames hrelative
        refine Or.inr ⟨⟨s, seen, rfl, hseen⟩, fun n hn => ?_, ?_⟩
        · rw [← hr] at hn
          obtain ⟨segment, -, rfl⟩ := List.mem_map.1 hn
          rw [Utf8.decode?_encode]
          rfl
        · cases hkind : e.kind with
          | directory => exact Or.inl rfl
          | file => exact Or.inr rfl
          | link => simp [hkind, Course.fail] at h
          | special => simp [hkind, Course.fail] at h
    · rintro (hvanished | ⟨⟨s', seen, hs, hseen⟩, htext, hkind⟩)
      · cases hvanished
      · obtain ⟨segments, hsegments⟩ := exists_map_encode htext
        have hrelative : RelativePath.ofPath (e.kind ≠ .directory) (.ofNames e.names) =
            .ok ⟨e.kind ≠ .directory, segments⟩ := by
          rw [← hsegments]
          refine RelativePath.ofPath_ofNames fun s hs => hnames _ ?_
          rw [← hsegments]
          exact List.mem_map_of_mem hs
        cases hs
        rw [hseen, hrelative]
        rcases hkind with hkind | hkind <;> rw [hkind] <;> rfl

/-- What a walk comes upon does not end it if nothing is wrong with it or it has vanished. -/
theorem ending_reachedCourse_iff {root : Path} {further : Reached → Course}
    {x : Except WalkFault Reached} : (w.reachedCourse (.all root) further x).ending = none ↔
      (∀ fault, x = .error fault → fault.isVanished = true) ∧
        ∀ e, x = .ok e → e.path.toString?.isSome = true →
          (w.entryCourse e).ending = none ∧ (e.kind = .directory → (further e).ending = none) := by
  rcases x with fault | e
  · rw [reachedCourse, faultCourse]
    by_cases hvanished : fault.isVanished = true
    · rw [if_pos hvanished]
      simp [hvanished, Course.nothing]
    · rw [if_neg hvanished]
      simp [hvanished, Course.fail]
  · rcases htext : e.path.toString? with _ | text
    · rw [reachedCourse_of_not_text htext]
      simp [htext, Course.nothing]
    · rw [reachedCourse_all (by rw [htext]; rfl), Course.ending_andThen]
      split_ifs with hkind <;> simp [hkind, htext, Course.nothing]

/-! ### Fewer directories around -/

section Subset

variable {inside inside' : List Path} (hinside : ∀ a ∈ inside, ∃ s, w.locate true a = .ok s)
  (hsub : inside' ⊆ inside)

theorem run_findLoop_eq_ok_iff {child : Path} {spot : Spot} {inside : List Path} :
    (findLoop (.still w) child spot inside).run = Except.ok () ↔
      ∀ a ∈ inside, ∃ other, w.locate true a = .ok other ∧ other ≠ spot := by
  induction inside with
  | nil => exact ⟨fun _ => List.forall_mem_nil _, fun _ => rfl⟩
  | cons a inside ih =>
    have hidentify : (Calls.still w).identify a = (pure (w.locate true a) : Id _) := rfl
    rw [findLoop, hidentify, liftM_pure, pure_bind, List.forall_mem_cons]
    rcases w.locate true a with e | other
    · constructor
      · intro h
        cases h
      · rintro ⟨⟨other, h, -⟩, -⟩
        cases h
    · dsimp only
      split_ifs with hsame
      · constructor
        · intro h
          cases h
        · rintro ⟨⟨_, ⟨⟩, hne⟩, -⟩
          exact absurd hsame hne
      · rw [ih]
        exact ⟨fun h => ⟨⟨other, rfl, hsame⟩, h⟩, fun h => h.2⟩

include hinside hsub

/-- **Inside of fewer directories the same is come upon**, unless the walk ends there. -/
theorem reach_of_subset {here : Path} {names names' : List Bytes} {entry : Bytes × Kind}
    (h : ∀ fault, w.reach inside here names entry = .error fault → fault.isVanished = true) :
    w.reach inside' here names' entry =
      (w.reach inside here names entry).map fun e => { e with names := names' ++ [entry.1] } := by
  unfold reach at h ⊢
  rw [run_arrive] at h ⊢
  rw [run_arrive]
  by_cases hlisted : entry.2 ≠ .link
  · rw [if_pos hlisted, if_pos hlisted]
    rfl
  · rw [if_neg hlisted] at h ⊢
    rw [if_neg hlisted]
    rcases hstat : w.stat (here.child entry.1) with cause | s
    · rfl
    · rw [hstat] at h
      dsimp only at h ⊢
      by_cases hkind : s.kind = .directory
      · rw [if_pos hkind] at h ⊢
        rw [if_pos hkind]
        rcases hspot : w.locate true (here.child entry.1) with cause | spot
        · rfl
        · rw [hspot] at h
          dsimp only at h ⊢
          -- Only here it matters what the walk is inside of.
          rcases hloop : (findLoop (.still w) (here.child entry.1) spot inside).run with fault | _
          · rw [hloop] at h
            have hvanished := h fault rfl
            rw [isVanished_of_findLoop hinside hloop] at hvanished
            cases hvanished
          · have hloop' : (findLoop (.still w) (here.child entry.1) spot inside').run = .ok () :=
              run_findLoop_eq_ok_iff.2 fun a ha => run_findLoop_eq_ok_iff.1 hloop a (hsub ha)
            rw [hloop']
            rfl
      · rw [if_neg hkind, if_neg hkind]
        rfl

end Subset

/-- What does not end a walk is there, under names that are text, and it is what it was listed
as. -/
theorem node_of_ending_entryCourse (hw : w.IsWellNamed) {inside : List Path} {here : Path}
    {names : List Bytes} {place : Place} (hlocate : w.locate true here = .ok (.place place))
    (hplace : w.isDirectory place = true) {entry : Bytes × Kind} (hentry : entry ∈ w.children place)
    {e : Reached} (h : w.reach inside here names entry = .ok e) (hnames : ∀ n ∈ e.names, n.IsName)
    (hending : (w.entryCourse e).ending = none) :
    (∃ node, w.find true e.path = .ok node ∧ e.kind = node.kind) ∧
      (∃ s seen, w.look e = .ok s ∧ Metadata.ofStatus s = .ok seen) ∧
      (∀ n ∈ e.names, (Utf8.decode? n).isSome = true) ∧ (e.kind = .directory ∨ e.kind = .file) := by
  rw [ending_entryCourse_iff hnames] at hending
  rcases node_of_reach hw hlocate hplace hentry h with ⟨cause, hcause, hlook⟩ |
    ⟨node, hnode, hlook, hkind⟩
  · -- What is refused ends the walk.
    rw [hlook] at hending
    rcases hending with hvanished | ⟨⟨s, seen, hs, -⟩, -⟩
    · exact absurd (Except.error.inj hvanished) hcause
    · cases hs
  · rw [hlook] at hending ⊢
    rcases hending with hvanished | ⟨hseen, hrest⟩
    · cases hvanished
    · exact ⟨⟨node, hnode, hkind⟩, hseen, hrest⟩

/-- **A walk comes to its end inside of some directories if it does inside of more**, whatever its
root is and how many levels it may go down. -/
theorem ending_belowCourse_of_subset (hw : w.IsWellNamed) {root root' : Path} {levels levels' : Nat}
    {inside inside' : List Path} {here : Path} {names names' : List Bytes}
    (hlevels : maxPath ≤ levels + here.bytes.length) (hnames : ∀ n ∈ names, n.IsName)
    (hnames' : ∀ n ∈ names', n.IsName) (htext' : ∀ n ∈ names', (Utf8.decode? n).isSome = true)
    (hinside : ∀ a ∈ inside, ∃ s, w.locate true a = .ok s) (hsub : inside' ⊆ inside) {place : Place}
    (hlocate : w.locate true here = .ok (.place place)) (hplace : w.isDirectory place = true)
    (h : (w.belowCourse (.all root) levels inside here names (w.list here)).ending = none) :
    (w.belowCourse (.all root') levels' inside' here names' (w.list here)).ending = none := by
  obtain ⟨-, hshort, -⟩ := follow_of_locate hlocate
  induction levels generalizing levels' inside inside' here names names' place with
  | zero =>
    -- A path that leads somewhere is shorter than the levels would have to be.
    omega
  | succ levels ih =>
    cases levels' with
    | zero => rfl
    | succ levels' =>
      have hlist := list_of_locate hlocate hplace
      rw [hlist, belowCourse, Course.ending_all, List.forall_mem_map] at h ⊢
      intro entry hentry
      obtain ⟨hfault, hreached⟩ := ending_reachedCourse_iff.1 (h entry hentry)
      rw [inOrder, List.mem_mergeSort] at hentry
      have hname : entry.1.IsName := isName_of_list hw hlist entry hentry
      have hisname' : ∀ n ∈ names' ++ [entry.1], n.IsName := by
        simpa only [List.forall_mem_append, List.forall_mem_singleton] using ⟨hnames', hname⟩
      rw [reach_of_subset hinside hsub hfault]
      rcases hreach : w.reach inside here names entry with fault | e
      · refine ending_reachedCourse_iff.2 ⟨fun _ hsame => hfault _ (hreach.trans hsame), ?_⟩
        rintro _ ⟨⟩
      · rw [ending_reachedCourse_iff]
        refine ⟨by rintro _ ⟨⟩, ?_⟩
        rintro _ ⟨⟩ htext
        obtain ⟨hpath, henames⟩ := names_of_reach hreach
        have hisname := isName_of_reach hnames hname hreach
        obtain ⟨hending, hfurther⟩ := hreached e hreach htext
        obtain ⟨⟨node, hnode, hsame⟩, hlook, htexts, hkinds⟩ :=
          node_of_ending_entryCourse hw hlocate hplace hentry hreach hisname hending
        have htexts' : ∀ n ∈ names' ++ [entry.1], (Utf8.decode? n).isSome = true := by
          rw [List.forall_mem_append]
          exact ⟨htext', fun n hn => htexts n (henames ▸ List.mem_append_right _ hn)⟩
        refine ⟨(ending_entryCourse_iff hisname').2 (Or.inr ⟨hlook, htexts', hkinds⟩),
          fun hkind => ?_⟩
        obtain ⟨place', hlocate', hplace'⟩ := exists_of_find
          (hpath ▸ leadsToPlace_child hlocate hplace hname) hnode (hsame ▸ hkind)
        obtain ⟨-, hshort', -⟩ := follow_of_locate hlocate'
        -- One level less is enough, as the path has become longer.
        have hlonger : here.bytes.length < e.path.bytes.length :=
          hpath ▸ Path.length_lt_length_child here hname.1
        have hlevels' : maxPath ≤ levels + e.path.bytes.length := by omega
        exact ih hlevels' hisname hisname' htexts' (List.forall_mem_cons.2 ⟨⟨_, hlocate'⟩, hinside⟩)
          (List.cons_subset_cons _ hsub) hlocate' hplace' (hfurther hkind) hshort'

/-! ### Going down -/

/-- What reaches down to a directory goes through directories. -/
theorem exists_place_of_reaches {p : Path} (hleads : w.LeadsToPlace p) {ns : List Bytes}
    (h : w.Reaches p ns)
    (hend : ∃ place, w.locate true (p.below ns) = .ok (.place place) ∧ w.isDirectory place = true) :
    ∃ place, w.locate true p = .ok (.place place) ∧ w.isDirectory place = true := by
  cases ns with
  | nil => exact hend
  | cons n ns =>
    obtain ⟨⟨listed, kind, hlist, -⟩, -⟩ := h
    obtain ⟨place, hlocate, hplace, -⟩ := exists_of_list hleads hlist
    exact ⟨place, hlocate, hplace⟩

/-- **A walk that comes to its end goes through every directory below it**, and comes to its end
there, too, being inside of all that leads there. -/
theorem exists_ending_belowCourse_below (hw : w.IsWellNamed) {root : Path} {levels : Nat}
    {inside : List Path} {here : Path} {names : List Bytes}
    (hlevels : maxPath ≤ levels + here.bytes.length) (hnames : ∀ n ∈ names, n.IsName)
    (hinside : ∀ a ∈ inside, ∃ s, w.locate true a = .ok s) (hhere : here ∈ inside)
    (htext : here.toString?.isSome = true) {place : Place}
    (hlocate : w.locate true here = .ok (.place place)) (hplace : w.isDirectory place = true)
    (h : (w.belowCourse (.all root) levels inside here names (w.list here)).ending = none)
    {ns : List Bytes} (hreaches : w.Reaches here ns)
    (htexts : ∀ n ∈ ns, (Utf8.decode? n).isSome = true)
    (hend : ∃ place, w.locate true (here.below ns) = .ok (.place place) ∧
      w.isDirectory place = true) :
    ∃ levels' inside', maxPath ≤ levels' + (here.below ns).bytes.length ∧
      (∀ a ∈ inside', ∃ s, w.locate true a = .ok s) ∧ here.below ns ∈ inside' ∧
      (w.belowCourse (.all root) levels' inside' (here.below ns) (names ++ ns)
        (w.list (here.below ns))).ending = none := by
  induction ns generalizing levels inside here names place with
  | nil =>
    rw [List.append_nil]
    exact ⟨levels, inside, hlevels, hinside, hhere, h⟩
  | cons n ns ih =>
    obtain ⟨⟨listed, kind, hlisted, hmem⟩, hrest⟩ := hreaches
    have hlist := list_of_locate hlocate hplace
    obtain rfl : listed = w.children place := Except.ok.inj (hlisted.symm.trans hlist)
    have hname : n.IsName := isName_of_list hw hlist (n, kind) hmem
    have hleads : w.LeadsToPlace (here.child n) := leadsToPlace_child hlocate hplace hname
    obtain ⟨place', hlocate', hplace'⟩ := exists_place_of_reaches hleads hrest hend
    obtain ⟨node, hnode, hkind⟩ := find_of_locate hlocate' hplace'
    obtain ⟨-, hshort, -⟩ := follow_of_locate hlocate
    cases levels with
    | zero => omega
    | succ levels =>
      rw [hlist, belowCourse, Course.ending_all, List.forall_mem_map] at h
      obtain ⟨hfault, hreached⟩ :=
        ending_reachedCourse_iff.1 (h (n, kind) (List.mem_mergeSort.2 hmem))
      rcases hreach : w.reach inside here names (n, kind) with fault | e
      · -- What is there has not vanished.
        have hvanished := find_of_reach_vanished hinside hreach (hfault fault hreach)
        rw [hnode] at hvanished
        cases hvanished
      · obtain ⟨hpath, henames⟩ := names_of_reach hreach
        have hisname := isName_of_reach hnames hname hreach
        have htext' : e.path.toString?.isSome = true :=
          hpath ▸ Path.isSome_toString?_child htext (htexts n List.mem_cons_self)
        obtain ⟨hending, hfurther⟩ := hreached e hreach htext'
        obtain ⟨⟨node', hnode', hsame⟩, -⟩ :=
          node_of_ending_entryCourse hw hlocate hplace hmem hreach hisname hending
        have hdirectory : e.kind = .directory := by
          rw [hpath, hnode] at hnode'
          rw [hsame, ← Except.ok.inj hnode', hkind]
        have hlonger : here.bytes.length < e.path.bytes.length :=
          hpath ▸ Path.length_lt_length_child here hname.1
        have hdeeper := ih (by omega) hisname
          (List.forall_mem_cons.2 ⟨⟨_, hpath ▸ hlocate'⟩, hinside⟩) List.mem_cons_self htext'
          (hpath ▸ hlocate') hplace' (hfurther hdirectory) (hpath ▸ hrest)
          (fun m hm => htexts m (List.mem_cons_of_mem _ hm)) (hpath ▸ hend)
        rw [hpath, henames, List.append_assoc] at hdeeper
        exact hdeeper

/-- **If a walk through a directory comes to its end, then so does one through any directory that it
goes through.** -/
theorem ending_course_below (hw : w.IsWellNamed) {root : Path}
    (htext : root.toString?.isSome = true) {place : Place}
    (hlocate : w.locate true root = .ok (.place place))
    (hplace : w.isDirectory place = true) (h : (w.course (.all root)).ending = none)
    {ns : List Bytes} (hreaches : w.Reaches root ns)
    (htexts : ∀ n ∈ ns, (Utf8.decode? n).isSome = true) {place' : Place}
    (hlocate' : w.locate true (root.below ns) = .ok (.place place'))
    (hplace' : w.isDirectory place' = true) :
    (w.course (.all (root.below ns))).ending = none := by
  obtain ⟨node, hnode, hkind⟩ := find_of_locate hlocate hplace
  obtain ⟨node', hnode', hkind'⟩ := find_of_locate hlocate' hplace'
  rw [course_of_directory (.all root) hnode hkind hlocate] at h
  rw [course_of_directory (.all (root.below ns)) hnode' hkind' hlocate']
  obtain ⟨levels, inside, hlevels, hinside, hhere, hending⟩ :=
    exists_ending_belowCourse_below hw (Nat.le_add_right _ _) (List.forall_mem_nil _)
      (List.forall_mem_singleton.2 ⟨_, hlocate⟩) List.mem_cons_self htext hlocate hplace h hreaches
      htexts ⟨place', hlocate', hplace'⟩
  rw [List.nil_append] at hending
  -- The walk that begins further down is inside of where it begins and nothing else.
  exact ending_belowCourse_of_subset hw hlevels (isName_of_reaches hw hreaches)
    (List.forall_mem_nil _) (List.forall_mem_nil _) hinside
    (List.cons_subset.2 ⟨hhere, List.nil_subset _⟩) hlocate' hplace' hending

end SnapStore.World
