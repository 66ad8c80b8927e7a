import SnapStore.Proofs.Session.Directories
import SnapStore.Proofs.Session.Forgetful
import SnapStore.Proofs.Tree.Subwalk

/-!
# Elements that add nothing

An entry of the tree of a directory has a path of its own, and a collection can have this path for
one more element. It is expanded to the entry of the path and, if this is that of a directory, to
the tree of a walk that begins there. All of these paths have come up with the tree of the first
directory (`SnapStore.World.exists_expandElement_of_mem_tree`), and only the first entry of a path
counts. So where the directory comes before, the element adds nothing
(`SnapStore.Session.snapshotCollection_absorbs`).

That the second walk comes to its end if the first one has is the business of
`SnapStore.Proofs.Tree.Subwalk`.
-/

namespace SnapStore

/-! ### Elements one after the other -/

namespace Host

variable {w : World}

/-- The elements of a collection can be expanded in two parts. -/
theorem bareHost_expand_append (es es' : List (Element Id)) :
    (w.bareHost.expand (es ++ es')).run =
      Except.bind (w.bareHost.expand es).run fun first =>
        Except.map (first ++ ·) (w.bareHost.expand es').run := by
  have hcons : ∀ (e : Element Id) es, (w.bareHost.expand (e :: es)).run =
      Except.bind (w.bareHost.expandElement e).run fun first =>
        Except.map (first ++ ·) (w.bareHost.expand es).run := by
    intro e es
    rcases he : (w.bareHost.expandElement e).run with error | first
    · change ExceptT.bindCont (m := Id) _ (w.bareHost.expandElement e).run = _
      rw [he]
      rfl
    · rcases hes : (w.bareHost.expand es).run with error | rest
      · exact (run_bind_ok he).trans (by
          change ExceptT.bindCont (m := Id) _ (w.bareHost.expand es).run = _
          rw [hes]
          rfl)
      · exact (run_bind_ok he).trans (run_bind_ok hes)
  induction es with
  | nil =>
    rw [List.nil_append]
    rcases (w.bareHost.expand es').run with error | rest <;> rfl
  | cons e es ih =>
    rw [List.cons_append, hcons, hcons, ih]
    rcases (w.bareHost.expandElement e).run with error | first
    · rfl
    · rcases (w.bareHost.expand es).run with error | second
      · rfl
      · rcases (w.bareHost.expand es').run with error | rest
        · rfl
        · exact congrArg Except.ok (List.append_assoc first second rest).symm

/-- The entries of an element are among those of the collection. -/
theorem subset_of_bareHost_expand {es : List (Element Id)} {entries : List Entry}
    (h : (w.bareHost.expand es).run = Except.ok entries) {e : Element Id} (he : e ∈ es) :
    ∃ part, (w.bareHost.expandElement e).run = Except.ok part ∧ part ⊆ entries := by
  obtain ⟨parts, hparts, rfl⟩ := bareHost_expand_eq_ok_iff.1 h
  obtain ⟨⟨i, hi⟩, rfl⟩ := List.mem_iff_get.1 he
  have hi' : i < parts.length := hparts.length_eq ▸ hi
  exact ⟨_, hparts.get hi hi', fun _ hmem => List.mem_flatten.2 ⟨_, List.getElem_mem hi', hmem⟩⟩

/-- **An element adds nothing** if it can be expanded and all of its paths have come up before.
Whether the rest of the collection can be expanded does not matter. -/
theorem bareHost_snapshotCollection_insert (how : Strategy) {es es' : List (Element Id)}
    {e : Element Id} {more : List Entry} (hmore : (w.bareHost.expandElement e).run = Except.ok more)
    (hpaths : ∀ entries, (w.bareHost.expand es).run = Except.ok entries →
      ∀ entry ∈ more, entry.path ∈ entries.map Entry.path) :
    (w.bareHost.snapshotCollection how (es ++ e :: es')).run =
      (w.bareHost.snapshotCollection how (es ++ es')).run := by
  have hcombine : ∀ es, (w.bareHost.snapshotCollection how es).run =
      Except.map how.combine (w.bareHost.expand es).run := by
    intro es
    rcases hes : (w.bareHost.expand es).run with error | entries
    · change ExceptT.bindCont (m := Id) _ (w.bareHost.expand es).run = _
      rw [hes]
      rfl
    · exact run_bind_ok hes
  have hsingle : (w.bareHost.expand [e]).run = Except.ok more :=
    bareHost_expand_eq_ok_iff.2 ⟨[more], .cons hmore .nil, by simp⟩
  have hsplit : e :: es' = [e] ++ es' := rfl
  rw [hcombine, hcombine, bareHost_expand_append, bareHost_expand_append, hsplit,
    bareHost_expand_append, hsingle]
  rcases hfirst : (w.bareHost.expand es).run with error | first
  · rfl
  · rcases (w.bareHost.expand es').run with error | rest
    · rfl
    · exact congrArg Except.ok (Strategy.combine_append_of_subset how (hpaths first hfirst))

end Host

/-! ### What is below an entry of a tree -/

namespace World

variable {w : World} {c : String}

/-- What is held further down is held from further up. -/
theorem Holds.append {root : Path} {ns ms : List Bytes} {a : Option FileSnapshot}
    (hns : w.Holds root ns none) (h : w.Holds (root.below ns) ms a) (hms : ms ≠ []) :
    w.Holds root (ns ++ ms) a := by
  cases hns with
  | below htext hlocate hplace hbelow ha =>
    cases h with
    | alone hname hnode => exact absurd rfl hms
    | below htext' hlocate' hplace' hbelow' ha' =>
      obtain ⟨-, hreaches, htexts, -⟩ := hbelow
      obtain ⟨-, hreaches', htexts', hfound⟩ := hbelow'
      rw [← Path.below_append] at hfound ha'
      refine .below htext hlocate hplace ⟨by simp [hms], reaches_append.2 ⟨hreaches, hreaches'⟩, ?_,
        hfound⟩ ha'
      exact fun n hn => (List.mem_append.1 hn).elim (htexts n) (htexts' n)

variable (hw : w.IsWellNamed) (hc : (Path.ofString c).canonical w.workingDirectory = .ok c)
  {t : TreeSnapshot} (ht : (w.bareHost.snapshotTree (.all (.ofString c))).run = Except.ok t)

include hw hc ht

/-- Where a tree has a directory, there is one. -/
theorem exists_place_of_mem_tree {e : Entry} (he : e ∈ t.entries)
    (hkind : e.fileType = .directory) :
    ∃ place, w.locate true (.ofString e.path) = .ok (.place place) ∧
      w.isDirectory place = true := by
  rw [bareHost_snapshotTree_of_canonical w hc] at ht
  obtain ⟨-, -, hentries⟩ := of_treeOf w ht
  obtain ⟨r, hr, hre⟩ := exists_of_mem_mapM hentries he
  obtain ⟨hstands, path, hpath, hcanonical⟩ := standsAtPath_of_mem_course hw hc hr
  have hdirectory : r.isDirectory = true := by
    rw [← Bool.not_eq_false]
    intro hfile
    -- What is no directory makes an entry of another kind.
    unfold entryOf at hre
    rw [hpath, keyOf_eq_ok_iff.2 hcanonical, hfile] at hre
    dsimp only [Bind.bind, Except.bind] at hre
    rcases hhashed : w.hashed (.ofString path) with error | digest
    · rw [hhashed] at hre
      cases error <;> cases hre
      cases hkind
    · rw [hhashed] at hre
      cases hre
      cases hkind
  obtain ⟨rfl, -⟩ := rightEntry_of_standsAtPath hpath hcanonical hstands hre
  obtain ⟨node, hnode, hnodeKind, -⟩ := hstands.exists_node
  rw [hdirectory] at hnodeKind
  rw [hpath] at hnode
  exact exists_of_find (leadsToPlace_of_canonical hcanonical) hnode hnodeKind

/-- A directory in a tree is held by the root, and a walk that begins there comes to its end. -/
theorem exists_holds_of_mem_tree {e : Entry} (he : e ∈ t.entries)
    (hkind : e.fileType = .directory) :
    ∃ ns, Path.ofString e.path = (Path.ofString c).below ns ∧ w.Holds (.ofString c) ns none ∧
      (w.course (.all (.ofString e.path))).ending = none := by
  obtain ⟨place, hlocate, hplace⟩ := exists_place_of_mem_tree hw hc ht he hkind
  obtain ⟨ns, a, hholds, hat⟩ := (listsHeld_of_snapshotTree hc ht hw).exists_holds he
  have hpath : Path.ofString e.path = (Path.ofString c).below ns := hat.ofString_path
  obtain rfl : a = none := by
    cases a with
    | none => rfl
    | some snapshot =>
      cases hat <;> cases hkind
  rw [bareHost_snapshotTree_of_canonical w hc] at ht
  obtain ⟨hcourse, -⟩ := of_treeOf w ht
  refine ⟨ns, hpath, hholds, ?_⟩
  cases hholds with
  | below htext hlocate' hplace' hbelow ha =>
    obtain ⟨-, hreaches, htexts, -⟩ := hbelow
    rw [hpath] at hlocate ⊢
    exact ending_course_below hw htext hlocate' hplace' hcourse hreaches htexts hlocate hplace

/-- It has a tree of its own, and the paths in it are among those of the tree. -/
theorem exists_snapshotTree_of_mem_tree {e : Entry} (he : e ∈ t.entries)
    (hkind : e.fileType = .directory)
    (hcanonical : (Path.ofString e.path).canonical w.workingDirectory = .ok e.path) :
    ∃ t', (w.bareHost.snapshotTree (.all (.ofString e.path))).run = Except.ok t' ∧
      ∀ e' ∈ t'.entries, e'.path ∈ t.entries.map Entry.path := by
  obtain ⟨place, hlocate, hplace⟩ := exists_place_of_mem_tree hw hc ht he hkind
  obtain ⟨ns, hpath, hholds, hending⟩ := exists_holds_of_mem_tree hw hc ht he hkind
  rcases treeOf_course hw hcanonical with ⟨error, herror, -⟩ | ⟨entries, -, htree, hlists'⟩
  · rw [hending] at herror
    cases herror
  · refine ⟨⟨some e.path, entries⟩, ?_, fun e' he' => ?_⟩
    · rw [bareHost_snapshotTree_of_canonical w hcanonical]
      exact htree
    · obtain ⟨ms, a', hholds', hat'⟩ := hlists'.exists_holds he'
      -- The second walk begins at a directory, so it reports nothing but what is below.
      have hms : ms ≠ [] := by
        cases hholds' with
        | alone hname hnode => exact absurd hplace (not_isDirectory_of_file hnode hlocate)
        | below htext hlocate' hplace' hbelow ha => exact hbelow.1
      rw [hpath] at hholds'
      obtain ⟨e'', he'', hat''⟩ :=
        (listsHeld_of_snapshotTree hc ht hw).exists_mem (hholds.append hholds' hms)
      have hsame : Path.ofString e''.path = Path.ofString e'.path := by
        rw [hat''.ofString_path, hat'.ofString_path, hpath, Path.below_append]
      exact List.mem_map.2 ⟨e'', he'', Utf8.encode_injective (congrArg Path.bytes hsame)⟩

/-- **The path of an entry of a tree can be expanded**, and all the paths that it is expanded to are
among those of the tree. -/
theorem exists_expandElement_of_mem_tree {e : Entry} (he : e ∈ t.entries) :
    (Path.ofString e.path).canonical w.workingDirectory = .ok e.path ∧
      ∃ more, (w.bareHost.expandElement (.path (.ofString e.path))).run = Except.ok more ∧
        ∀ e' ∈ more, e'.path ∈ t.entries.map Entry.path := by
  have htree := ht
  rw [bareHost_snapshotTree_of_canonical w hc] at htree
  obtain ⟨hcanonical, hright⟩ := rightEntry_of_mem_treeOf hw hc htree he
  refine ⟨hcanonical, ?_⟩
  have hself : (w.bareHost.snapshotSelf (.ofString e.path)).run = Except.ok e.takenOut := by
    rw [bareHost_snapshotSelf_of_canonical w hcanonical]
    exact hright
  have hmem : e.takenOut.path ∈ t.entries.map Entry.path := by
    rw [Entry.path_takenOut]
    exact List.mem_map_of_mem he
  by_cases hkind : e.fileType = .directory
  · obtain ⟨t', ht', hpaths⟩ := exists_snapshotTree_of_mem_tree hw hc ht he hkind hcanonical
    refine ⟨e.takenOut :: t'.entries, ?_, List.forall_mem_cons.2 ⟨hmem, hpaths⟩⟩
    refine (Host.run_bind_ok hself).trans ?_
    cases e with
    | directory path relative isRoot => exact Host.run_bind_ok ht'
    | _ => cases hkind
  · refine ⟨[e.takenOut], ?_, List.forall_mem_singleton.2 hmem⟩
    refine (Host.run_bind_ok hself).trans ?_
    cases e with
    | directory path relative isRoot => exact absurd rfl hkind
    | _ => rfl

/-- A root of a collection that takes in all of a directory: its path, or all that is below it. -/
inductive TakesIn (w : World) (c : String) : Member → Prop
  /-- The path of a directory. -/
  | path {modified : Timestamp} (hnode : w.find true (.ofString c) = .ok (.directory modified)) :
    TakesIn w c (.path (.ofString c))
  /-- All that is below it. -/
  | directory : TakesIn w c (.directory (.all (.ofString c)))

omit hw in
/-- If it is expanded, then to the entries of the tree, and perhaps one of its own. -/
theorem TakesIn.subset_of_expandElement {r : Member} (h : w.TakesIn c r) {es : List Entry}
    (hes : (w.bareHost.expandElement (Session.bareElement w r)).run = Except.ok es) :
    t.entries ⊆ es := by
  cases h with
  | path hnode =>
    obtain ⟨relative, -, hexpand⟩ := exists_expandElement_of_directory hc ht hnode
    have hes := hexpand.symm.trans hes
    unfold ifDated at hes
    split_ifs at hes
    obtain rfl := Except.ok.inj hes
    exact List.subset_cons_self _ _
  | directory =>
    have hexpand : (w.bareHost.expandElement (.directory (.all (.ofString c)))).run =
        Except.ok t.entries := Host.run_bind_ok ht
    obtain rfl := Except.ok.inj (hexpand.symm.trans hes)
    exact List.Subset.refl _

end World

/-! ### Answers of a session -/

namespace Session

/-- **A session whose answers for a collection rest on the world alone**: all that its cache holds
is right and the roots of the collection are spelled canonically, or its cache keeps nothing. -/
inductive RestsOn (w : World) (st : Strategy) (c : List Member) (s : Session) : Prop
  /-- The cache is right, and the roots are spelled canonically. -/
  | right (hs : s.IsStill w (HoldsRight w st)) (hc : ∀ r ∈ c, IsCanonicalMember w r) :
    RestsOn w st c s
  /-- Nothing is kept. -/
  | forgetful (hs : s.IsStill w Cache.IsForgetful) : RestsOn w st c s

variable {w : World} {st st' : Strategy} {c : List Member} {s s' : Session}

/-- It answers as the bare host does, for canonical roots and those of the collection. -/
theorem RestsOn.snapshotCollection_eq (h : RestsOn w st c s) (how : Strategy) {c' : List Member}
    (hc' : ∀ r ∈ c', r ∈ c ∨ IsCanonicalMember w r) :
    (snapshotCollection how c' s).1 =
      (w.bareHost.snapshotCollection how (c'.map (bareElement w))).run := by
  cases h with
  | right hs hc =>
    exact (rel_snapshotCollection how (fun r hr => (hc' r hr).elim (hc r) id) s hs).1
  | forgetful hs => exact (rel_snapshotCollection_of_forgetful how c' s hs).1

theorem RestsOn.snapshotTree_eq (h : RestsOn w st c s) {d : String}
    (hd : (Path.ofString d).canonical w.workingDirectory = .ok d) :
    (snapshotTree (.all (.ofString d)) s).1 =
      (w.bareHost.snapshotTree (.all (.ofString d))).run := by
  cases h with
  | right hs hc => exact (rel_snapshotTree (Or.inr (World.isCanonical_ofString hd)) s hs).1
  | forgetful hs => exact (rel_snapshotTree_of_forgetful _ s hs).1

/-- **An element that a directory takes in adds nothing.** Anywhere after a directory whose tree can
be taken, the path of an entry of the tree can be put into a collection without any difference to
the aggregate, whatever the strategy is and whatever else is in the collection. What is kept of
other spellings of directories must not come in: other roots are spelled canonically, or nothing is
kept. -/
theorem snapshotCollection_absorbs (hw : w.IsWellNamed) {front middle back : List Member}
    (hs : RestsOn w st (front ++ middle ++ back) s)
    (hs' : RestsOn w st' (front ++ middle ++ back) s') {d : String}
    (hd : (Path.ofString d).canonical w.workingDirectory = .ok d) {root : Member}
    (hroot : w.TakesIn d root) {t : TreeSnapshot}
    (ht : (snapshotTree (.all (.ofString d)) s).1 = .ok t) {e : Entry} (he : e ∈ t.entries)
    (how : Strategy) :
    (snapshotCollection how (front ++ root :: (middle ++ .path (.ofString e.path) :: back)) s).1 =
      (snapshotCollection how (front ++ root :: (middle ++ back)) s').1 := by
  have hbare := (hs.snapshotTree_eq hd).symm.trans ht
  obtain ⟨hcanonical, more, hmore, hpaths⟩ := World.exists_expandElement_of_mem_tree hw hd hbare he
  have hrootCanonical : IsCanonicalMember w root := by
    cases hroot with
    | path hnode => exact World.isCanonical_ofString hd
    | directory => exact Or.inr (World.isCanonical_ofString hd)
  have hothers : ∀ r ∈ front ++ root :: (middle ++ .path (.ofString e.path) :: back),
      r ∈ front ++ middle ++ back ∨ IsCanonicalMember w r := by
    intro r hr
    simp only [List.mem_append, List.mem_cons] at hr ⊢
    rcases hr with hr | rfl | hr | rfl | hr
    · exact Or.inl (Or.inl (Or.inl hr))
    · exact Or.inr hrootCanonical
    · exact Or.inl (Or.inl (Or.inr hr))
    · exact Or.inr (World.isCanonical_ofString hcanonical)
    · exact Or.inl (Or.inr hr)
  have hothers' : ∀ r ∈ front ++ root :: (middle ++ back),
      r ∈ front ++ middle ++ back ∨ IsCanonicalMember w r := by
    intro r hr
    refine hothers r ?_
    simp only [List.mem_append, List.mem_cons] at hr ⊢
    tauto
  rw [hs.snapshotCollection_eq how hothers, hs'.snapshotCollection_eq how hothers']
  -- Everything up to the new element, and what comes after it.
  have hsplit : ∀ rest : List Member, (front ++ root :: (middle ++ rest)).map (bareElement w) =
      (front ++ root :: middle).map (bareElement w) ++ rest.map (bareElement w) := by
    simp
  rw [hsplit, hsplit, List.map_cons]
  refine Host.bareHost_snapshotCollection_insert how hmore fun entries hentries e' he' => ?_
  have hmem : bareElement w root ∈ (front ++ root :: middle).map (bareElement w) :=
    List.mem_map_of_mem (by simp)
  obtain ⟨part, hpart, hsubset⟩ := Host.subset_of_bareHost_expand hentries hmem
  have htree := hroot.subset_of_expandElement hd hbare hpart
  obtain ⟨e'', he'', hsame⟩ := List.mem_map.1 (hpaths e' he')
  exact List.mem_map.2 ⟨e'', hsubset (htree he''), hsame⟩

/-- A directory that a link leads to, as an element of its own after the directory with the link. -/
theorem snapshotCollection_absorbs_of_link :
    let w := (((World.empty.apply (.makeDirectory (.ofString "/e/x"))).world.apply
      (.makeDirectory (.ofString "/d"))).world.apply
      (.link (.ofString "/e") (.ofString "/d/l"))).world
    let s := startOn w .all false false
    let s' := startOn w .none false false
    w.IsWellNamed ∧ RestsOn w .default [.path (.ofString "/f"), .path (.ofString "/e")] s ∧
      RestsOn w .default [.path (.ofString "/f"), .path (.ofString "/e")] s' ∧
      ∃ t, (snapshotTree (.all (.ofString "/d")) s).1 = .ok t ∧
        ∃ e ∈ t.entries, e.path = "/d/l" ∧ e.fileType = .directory ∧
          (snapshotCollection ⟨.ordered, .relative⟩ [.path (.ofString "/f"), .path (.ofString "/d"),
            .path (.ofString "/e"), .path (.ofString e.path)] s).1 =
          (snapshotCollection ⟨.ordered, .relative⟩ [.path (.ofString "/f"), .path (.ofString "/d"),
            .path (.ofString "/e")] s').1 := by
  intro w s s'
  have hw : w.IsWellNamed := ((World.isWellNamed_empty.apply _).apply _).apply _
  have hs : RestsOn w .default [.path (.ofString "/f"), .path (.ofString "/e")] s := by
    refine .right (isStill_startOn (holdsRight_empty _ _ _) _ _) fun r hr => ?_
    rcases List.mem_pair.1 hr with rfl | rfl
    · exact World.isCanonical_ofString (p := .ofString "/f") rfl
    · exact World.isCanonical_ofString (p := .ofString "/e") rfl
  have hs' : RestsOn w .default [.path (.ofString "/f"), .path (.ofString "/e")] s' :=
    .forgetful (isStill_startOn .empty _ _)
  have hanswer : ((snapshotTree (.all (.ofString "/d")) s).1.toOption.bind fun t =>
      t.entries.find? fun e =>
        Utf8.encode e.path = Utf8.encode "/d/l" ∧ e.fileType = .directory).isSome = true := by
    decide +kernel
  have hnode : w.find true (.ofString "/d") = .ok (.directory .epoch) := by
    decide +kernel
  obtain ⟨e, hfound⟩ := Option.isSome_iff_exists.1 hanswer
  obtain ⟨t, ht, hfound⟩ := Option.bind_eq_some_iff.1 hfound
  have hok : (snapshotTree (.all (.ofString "/d")) s).1 = .ok t := eq_ok_of_toOption ht
  have he : e ∈ t.entries := List.mem_of_find?_eq_some hfound
  have hfacts := List.find?_some hfound
  obtain ⟨hpath, htype⟩ := of_decide_eq_true hfacts
  have habsorbs : (snapshotCollection ⟨.ordered, .relative⟩ ([.path (.ofString "/f")] ++
        .path (.ofString "/d") ::
          ([.path (.ofString "/e")] ++ .path (.ofString e.path) :: [])) s).1 =
      (snapshotCollection ⟨.ordered, .relative⟩ ([.path (.ofString "/f")] ++
        .path (.ofString "/d") :: ([.path (.ofString "/e")] ++ [])) s').1 :=
    snapshotCollection_absorbs hw hs hs' rfl (.path hnode) hok he _
  exact ⟨hw, hs, hs', t, hok, e, he, Utf8.encode_injective hpath, htype, habsorbs⟩

end Session

end SnapStore
