import SnapStore.Proofs.Session.Directories

/-!
# What a relative aggregate tells

An aggregate that goes by relative paths and not by order is made of the name of a directory and of
what is below it, with all of the relative paths. Since the name stands among them as one more path,
it cannot always be told from them. Two directories are taken for each other if and only if they
have the same name and the same is below them, or else if each has an empty directory with the name
of the other, and for the rest the same is below them (`SnapStore.Entry.Exchanged`,
`SnapStore.Session.relative_pairs_eq_iff`). Either of these does occur
(`SnapStore.Session.relative_pairs_not_injective`).
-/

namespace SnapStore

/-! ### Lists with one more member -/

/-- Lists that are permutations of each other after a map are so before, if the map takes no two
of their members to the same. -/
theorem perm_of_perm_map {α β : Type} {f : α → β} {xs ys : List α}
    (hf : ∀ x ∈ xs, ∀ y ∈ ys, f x = f y → x = y) (h : (xs.map f).Perm (ys.map f)) : xs.Perm ys := by
  have himage : List.Forall₂ (fun b x => b = f x ∧ x ∈ xs) (xs.map f) xs := by
    rw [List.forall₂_map_left_iff, List.forall₂_same]
    exact fun x hx => ⟨rfl, hx⟩
  obtain ⟨zs, hzs, hperm⟩ := List.perm_comp_forall₂ h.symm himage
  rw [List.forall₂_map_left_iff] at hzs
  have hsame : List.Forall₂ Eq zs ys := by
    refine List.forall₂_iff_get.2 ⟨hzs.length_eq.symm, fun i hi hi' => ?_⟩
    obtain ⟨hvalue, hmem⟩ := hzs.get hi' hi
    exact hf _ hmem _ (List.get_mem ys ⟨i, hi'⟩) hvalue.symm
  rw [List.forall₂_eq_eq_eq] at hsame
  exact hsame ▸ hperm.symm

/-- Two lists without repetitions, each with one more member, are permutations of each other if they
agree in both, or else if each contains the other's one and they agree in what there is besides. -/
theorem perm_cons_cons_iff {α : Type} [DecidableEq α] {a b : α} {xs ys : List α} (hxs : xs.Nodup)
    (hys : ys.Nodup) : (a :: xs).Perm (b :: ys) ↔
      (a = b ∧ ∀ x, x ∈ xs ↔ x ∈ ys) ∨
        (a ≠ b ∧ b ∈ xs ∧ a ∈ ys ∧ ∀ x, x ∈ xs ∧ x ≠ b ↔ x ∈ ys ∧ x ≠ a) := by
  by_cases hab : a = b
  · subst hab
    rw [List.perm_cons, List.perm_ext_iff_of_nodup hxs hys]
    simp
  · have herase : (xs.erase b).Perm (ys.erase a) ↔ ∀ x, x ∈ xs ∧ x ≠ b ↔ x ∈ ys ∧ x ≠ a := by
      rw [List.perm_ext_iff_of_nodup (hxs.erase b) (hys.erase a)]
      simp only [hxs.mem_erase_iff, hys.mem_erase_iff, and_comm]
    constructor
    · intro h
      have hb : b ∈ xs :=
        (List.mem_cons.1 (h.mem_iff.2 List.mem_cons_self)).resolve_left (Ne.symm hab)
      have ha : a ∈ ys := (List.mem_cons.1 (h.mem_iff.1 List.mem_cons_self)).resolve_left hab
      have hfirst : xs.Perm (b :: ys.erase a) := by
        have h' := h.erase a
        rwa [List.erase_cons_head, List.erase_cons_tail (by simpa using Ne.symm hab)] at h'
      have hboth := hfirst.erase b
      rw [List.erase_cons_head] at hboth
      exact Or.inr ⟨hab, hb, ha, herase.1 hboth⟩
    · rintro (⟨heq, -⟩ | ⟨-, hb, ha, hrest⟩)
      · exact absurd heq hab
      · calc List.Perm (a :: xs) (a :: b :: xs.erase b) := (List.perm_cons_erase hb).cons a
          List.Perm _ (a :: b :: ys.erase a) := ((herase.2 hrest).cons b).cons a
          List.Perm _ (b :: a :: ys.erase a) := .swap b a _
          List.Perm _ (b :: ys) := (List.perm_cons_erase ha).symm.cons b

/-! ### What is shown of marks -/

/-- Whether a relative path consists of names. There is one other that goes by the final name of a
path: that of a root that has none. -/
def RelativePath.IsNamed (r : RelativePath) : Prop :=
  r.segments = [""] ∨ r.segments ≠ [] ∧ ∀ n ∈ r.names, n.IsName

/-- What is shown of names tells them. -/
theorem RelativePath.segments_eq_of_display {r r' : RelativePath} (h : r.IsNamed) (h' : r'.IsNamed)
    (hdisplay : r.display = r'.display) : r.segments = r'.segments := by
  have hcomponents : (Path.ofNames r.names).components = (Path.ofNames r'.names).components := by
    rw [← ofString_display, ← ofString_display, hdisplay]
  -- There is no component in the path of a root without a name.
  have hnone : ∀ {r : RelativePath}, r.segments = [""] →
      (Path.ofNames r.names).components = [] := by
    intro r hr
    rw [names, hr]
    rfl
  have hsome : ∀ {r : RelativePath}, r.segments ≠ [] → (∀ n ∈ r.names, n.IsName) →
      (Path.ofNames r.names).components ≠ [] := by
    intro r hr hnames hnil
    rw [Path.components_ofNames hnames, List.map_eq_nil_iff] at hnil
    exact hr (List.map_eq_nil_iff.1 hnil)
  rcases h with hroot | ⟨hne, hnames⟩
  · rcases h' with hroot' | ⟨hne', hnames'⟩
    · rw [hroot, hroot']
    · exact absurd (hcomponents.symm.trans (hnone hroot)) (hsome hne' hnames')
  · rcases h' with hroot' | ⟨hne', hnames'⟩
    · exact absurd (hcomponents.trans (hnone hroot')) (hsome hne hnames)
    · rw [Path.components_ofNames hnames, Path.components_ofNames hnames'] at hcomponents
      have hinjective : Function.Injective Component.name := fun _ _ h => Component.name.inj h
      exact Entry.IsAt.map_encode_injective (List.map_injective_iff.2 hinjective hcomponents)

namespace Entry

namespace Mark

/-- The mark of a directory directly below the root. -/
def directory (name : String) : Mark := (some ⟨false, [name]⟩, .directory)

/-- What is left of an entry with this mark when relative paths count. -/
def shown (m : Mark) : Strategy.Pair := ((m.1.map RelativePath.display).getD "", m.2)

/-- Whether an entry can have the mark: it has names, and it is a directory or a file. -/
def IsProper (m : Mark) : Prop :=
  ∃ r : RelativePath, m.1 = some r ∧ r.IsNamed ∧ (r.isFile = true ↔ m.2 ≠ .directory)

/-- **What is shown of a mark tells it.** -/
theorem IsProper.eq_of_shown {m m' : Mark} (h : m.IsProper) (h' : m'.IsProper)
    (hshown : m.shown = m'.shown) : m = m' := by
  obtain ⟨relative, content⟩ := m
  obtain ⟨relative', content'⟩ := m'
  obtain ⟨⟨isFile, segments⟩, hr, hnamed, hfile⟩ := h
  obtain ⟨⟨isFile', segments'⟩, hr', hnamed', hfile'⟩ := h'
  dsimp only at hr hr' hfile hfile'
  subst hr hr'
  obtain ⟨hdisplay, hcontent⟩ := Prod.ext_iff.1 hshown
  obtain rfl : content = content' := hcontent
  obtain rfl : segments = segments' := RelativePath.segments_eq_of_display hnamed hnamed' hdisplay
  obtain rfl : isFile = isFile' := Bool.eq_iff_iff.2 (hfile.trans hfile'.symm)
  rfl

theorem shown_directory (name : String) : (directory name).shown = (name, .directory) := by
  have hdisplay : RelativePath.display ⟨false, [name]⟩ = name := String.intercalate_singleton
  exact congrArg (fun text => (text, Content.directory)) hdisplay

theorem isProper_directory {name : String} (h : name = "" ∨ (Utf8.encode name).IsName) :
    (directory name).IsProper := by
  refine ⟨_, rfl, ?_, by simp [directory]⟩
  rcases h with rfl | hname
  · exact Or.inl rfl
  · exact Or.inr ⟨by simp, by simpa [RelativePath.names] using hname⟩

theorem directory_injective {name name' : String} (h : directory name = directory name') :
    name = name' := by
  simpa [directory] using h

end Mark

section IsAt

variable {c : String} {ns : List Bytes} {a : Option FileSnapshot} {e : Entry}

theorem IsAt.isProper_mark (h : e.IsAt c ns a) (hne : ns ≠ []) : e.mark.IsProper := by
  cases h with
  | alone hname => exact absurd rfl hne
  | below hne' hnames hpath =>
    cases a with
    | none => exact ⟨_, rfl, Or.inr ⟨hne', hnames⟩, by simp [mark, found, content]⟩
    | some snapshot => exact ⟨_, rfl, Or.inr ⟨hne', hnames⟩, by simp [mark, found, content]⟩

theorem IsAt.left?_relative (h : e.IsAt c ns a) :
    Strategy.left? .relative e.mark = some e.mark.shown := by
  cases h with
  | alone hname => cases a <;> rfl
  | below hne hnames hpath => cases a <;> rfl

end IsAt

/-- **Two directories with exchanged names.** Each has an empty directory with the name of the
other, and for the rest the same is below them. -/
structure Exchanged (name name' : String) (ms ms' : List Mark) : Prop where
  /-- The names differ. -/
  ne : name ≠ name'
  /-- The one has a directory with the name of the other. -/
  mem : Mark.directory name' ∈ ms
  /-- So has the other. -/
  mem' : Mark.directory name ∈ ms'
  /-- Nothing is below the directory in the one. -/
  empty : ∀ isFile rest content, rest ≠ [] → (some ⟨isFile, name' :: rest⟩, content) ∉ ms
  /-- Nor in the other. -/
  empty' : ∀ isFile rest content, rest ≠ [] → (some ⟨isFile, name :: rest⟩, content) ∉ ms'
  /-- For the rest they are the same. -/
  rest : ∀ m, m ∈ ms ∧ m ≠ Mark.directory name' ↔ m ∈ ms' ∧ m ≠ Mark.directory name

/-- Marks such that whatever lies below a name lies in a directory that is among them. -/
def AreClosed (ms : List Mark) : Prop :=
  ∀ isFile name rest content, rest ≠ [] → (some ⟨isFile, name :: rest⟩, content) ∈ ms →
    Mark.directory name ∈ ms

/-- Then the directories that are exchanged have to be empty: what is below one of them would be
below a directory that the other does not have. -/
theorem exchanged_of_areClosed {name name' : String} {ms ms' : List Mark} (hms : AreClosed ms)
    (hms' : AreClosed ms') (hne : name ≠ name') (hmem : Mark.directory name' ∈ ms)
    (hmem' : Mark.directory name ∈ ms')
    (hrest : ∀ m, m ∈ ms ∧ m ≠ Mark.directory name' ↔ m ∈ ms' ∧ m ≠ Mark.directory name) :
    Exchanged name name' ms ms' := by
  refine ⟨hne, hmem, hmem', fun isFile rest content hlonger hm => ?_,
    fun isFile rest content hlonger hm => ?_, hrest⟩
  · have hother := (hrest _).1 ⟨hm, by simp [Mark.directory, hlonger]⟩
    have hparent := hms' _ _ _ _ hlonger hother.1
    exact ((hrest _).2 ⟨hparent, fun h => hne (Mark.directory_injective h).symm⟩).2 rfl
  · have hother := (hrest _).2 ⟨hm, by simp [Mark.directory, hlonger]⟩
    have hparent := hms _ _ _ _ hlonger hother.1
    exact ((hrest _).1 ⟨hparent, fun h => hne (Mark.directory_injective h)⟩).2 rfl

end Entry

/-! ### The pairs that are hashed -/

namespace Strategy

open Entry

variable {c c' : String} {es es' : List Entry} {cwd cwd' : Except OsError Path} {p p' : Path}
  {r r' : RelativePath}

/-- What is left of a directory and the entries below it, when relative paths count. -/
theorem normalized_relative_of_areBelow (hc : p.canonical cwd = .ok c) (h : AreBelow c es)
    (how : Comparison) :
    normalized ⟨how, .relative⟩ (.directory c r true :: es) =
      (Mark.directory r.name :: es.map mark).map Mark.shown := by
  have hshown : (es.map mark).filterMap (left? .relative) =
      (es.map mark).filterMap (some ∘ Mark.shown) := by
    refine List.filterMap_congr fun m hm => ?_
    obtain ⟨e, he, rfl⟩ := List.mem_map.1 hm
    obtain ⟨ns, a, -, hat⟩ := h.isAt e he
    exact hat.left?_relative
  have hrelative : Normalization.relative ≠ .absolute := nofun
  rw [normalized_cons_of_areBelow hc h hrelative rfl, hshown, List.filterMap_eq_map, List.map_cons,
    Mark.shown_directory]
  rfl

/-- **The pairs of two directories agree** if and only if their names and what is below them do, or
else if each has a directory with the name of the other and they agree in what there is besides. -/
theorem relative_pairs_eq_iff_of_areBelow (hc : p.canonical cwd = .ok c)
    (hc' : p'.canonical cwd' = .ok c') (h : AreBelow c es) (h' : AreBelow c' es')
    (hr : r.name = "" ∨ (Utf8.encode r.name).IsName)
    (hr' : r'.name = "" ∨ (Utf8.encode r'.name).IsName) :
    pairs ⟨.unordered, .relative⟩ (.directory c r true :: es) =
        pairs ⟨.unordered, .relative⟩ (.directory c' r' true :: es') ↔
      (r.name = r'.name ∧ ∀ m, m ∈ es.map mark ↔ m ∈ es'.map mark) ∨
        (r.name ≠ r'.name ∧ Mark.directory r'.name ∈ es.map mark ∧
          Mark.directory r.name ∈ es'.map mark ∧ ∀ m,
            m ∈ es.map mark ∧ m ≠ Mark.directory r'.name ↔
              m ∈ es'.map mark ∧ m ≠ Mark.directory r.name) := by
  have hproper : ∀ {c : String} {es : List Entry} {r : RelativePath}, AreBelow c es →
      (r.name = "" ∨ (Utf8.encode r.name).IsName) →
      ∀ m ∈ Mark.directory r.name :: es.map mark, m.IsProper := by
    intro c es r h hr
    refine List.forall_mem_cons.2 ⟨Mark.isProper_directory hr, fun m hm => ?_⟩
    obtain ⟨e, he, rfl⟩ := List.mem_map.1 hm
    obtain ⟨ns, a, hne, hat⟩ := h.isAt e he
    exact hat.isProper_mark hne
  have hperm : ((Mark.directory r.name :: es.map mark).map Mark.shown).Perm
      ((Mark.directory r'.name :: es'.map mark).map Mark.shown) ↔
      (Mark.directory r.name :: es.map mark).Perm (Mark.directory r'.name :: es'.map mark) := by
    refine ⟨perm_of_perm_map fun m hm m' hm' => ?_, fun h => h.map _⟩
    exact (hproper h hr m hm).eq_of_shown (hproper h' hr' m' hm')
  have hname : Mark.directory r.name = Mark.directory r'.name ↔ r.name = r'.name :=
    ⟨Mark.directory_injective, congrArg Mark.directory⟩
  rw [pairs_eq_iff_perm, normalized_relative_of_areBelow hc h,
    normalized_relative_of_areBelow hc' h', hperm,
    perm_cons_cons_iff h.nodup_mark h'.nodup_mark, ne_eq, ne_eq, hname]

end Strategy

/-! ### Directories on the way -/

namespace World

variable {w : World} {c : String} (hw : w.IsWellNamed)
  (hc : (Path.ofString c).canonical w.workingDirectory = .ok c)

include hw hc

/-- **What lies on the way to something that is held is a directory that is held.** -/
theorem Holds.of_append {front : List String} {ext : List Bytes} {a : Option FileSnapshot}
    (h : w.Holds (.ofString c) (front.map Utf8.encode ++ ext) a) (hfront : front ≠ [])
    (hext : ext ≠ []) : w.Holds (.ofString c) (front.map Utf8.encode) none := by
  generalize hns : front.map Utf8.encode ++ ext = ns at h
  cases h with
  | alone hname hnode => exact absurd (List.append_eq_nil_iff.1 hns).2 hext
  | below htext hlocate hplace hbelow ha =>
    subst hns
    obtain ⟨-, hall, htexts, -⟩ := hbelow
    obtain ⟨hreaches, hfurther⟩ := reaches_append.1 hall
    have hnames := isName_of_reaches hw hreaches
    obtain ⟨path, hpath⟩ := exists_ofString_below c front
    have hleads := leadsToPlace_of_canonical (Path.canonical_below hc hnames hpath)
    -- Something is listed there, so it is a directory.
    obtain ⟨n, rest, rfl⟩ := List.exists_cons_of_ne_nil hext
    obtain ⟨⟨listed, kind, hlist, -⟩, -⟩ := hfurther
    obtain ⟨place', hlocate', hplace', -⟩ := exists_of_list hleads hlist
    obtain ⟨node, hnode, hkind⟩ := find_of_locate hlocate' hplace'
    refine .below htext hlocate hplace ⟨mt List.map_eq_nil_iff.1 hfront, hreaches,
      fun m hm => htexts m (List.mem_append_left _ hm), by rw [hnode]; nofun⟩ ?_
    rw [snapshotAt, hnode]
    cases node with
    | directory modified => rfl
    | _ => cases hkind

/-- The marks of a tree are closed. -/
theorem areClosed_of_snapshotTree {t : TreeSnapshot}
    (ht : (w.bareHost.snapshotTree (.all (.ofString c))).run = Except.ok t) {modified : Timestamp}
    (hnode : w.find true (.ofString c) = .ok (.directory modified)) :
    Entry.AreClosed (t.entries.map Entry.mark) := by
  intro isFile name rest content hrest hmem
  obtain ⟨e, he, hmark⟩ := List.mem_map.1 hmem
  have hlists := listsHeld_of_snapshotTree hc ht hw
  have hbelow := areBelow_of_snapshotTree hc ht hnode hw
  obtain ⟨ns, a, hholds, hat⟩ := hlists.exists_holds he
  have hnames : ns = [name].map Utf8.encode ++ rest.map Utf8.encode := by
    obtain ⟨ns', a', hne', hat'⟩ := hbelow.isAt e he
    rw [(hat.inj hat').1, ← hat'.names_mark hne', hmark]
    rfl
  rw [hnames] at hholds
  have hparent := hholds.of_append hw hc (List.cons_ne_nil _ _) (mt List.map_eq_nil_iff.1 hrest)
  obtain ⟨e', he', hat'⟩ := hlists.exists_mem hparent
  refine List.mem_map.2 ⟨e', he', ?_⟩
  generalize hsingle : [name].map Utf8.encode = single at hat'
  cases hat' with
  | alone hname => cases hsingle
  | below hne hnames' hpath =>
    obtain rfl := Entry.IsAt.map_encode_injective hsingle
    rfl

end World

/-! ### What a session hashes -/

namespace Session

open Strategy Entry

variable {w w' : World} {s s' : Session} {p q : String}

/-- **What a relative aggregate tells of a directory**: its name, and the relative paths and
contents of all that is below it, but for an exchange of names. Of two directories, in whatever
worlds, the aggregates are made of the same pairs if and only if this is the same, or else the names
are exchanged. There are aggregates unless the time of a directory itself has no date. -/
theorem relative_pairs_eq_iff (hw : w.IsWellNamed) (hw' : w'.IsWellNamed)
    (hs : s.IsStill w (HoldsRight w ⟨.unordered, .relative⟩))
    (hs' : s'.IsStill w' (HoldsRight w' ⟨.unordered, .relative⟩))
    (hp : (Path.ofString p).canonical w.workingDirectory = .ok p)
    (hq : (Path.ofString q).canonical w'.workingDirectory = .ok q) {modified modified' : Timestamp}
    (hnode : w.find true (.ofString p) = .ok (.directory modified))
    (hnode' : w'.find true (.ofString q) = .ok (.directory modified')) {t t' : TreeSnapshot}
    (ht : (snapshotTree (.all (.ofString p)) s).1 = .ok t)
    (ht' : (snapshotTree (.all (.ofString q)) s').1 = .ok t') :
    ∃ es es', (expand [.path (.ofString p)] s).1 = w.ifDated (.ofString p) es ∧
      (expand [.path (.ofString q)] s').1 = w'.ifDated (.ofString q) es' ∧
      (snapshotAll ⟨.unordered, .relative⟩ (.ofString p) s).1 =
        w.ifDated (.ofString p) (combine ⟨.unordered, .relative⟩ es) ∧
      (snapshotAll ⟨.unordered, .relative⟩ (.ofString q) s').1 =
        w'.ifDated (.ofString q) (combine ⟨.unordered, .relative⟩ es') ∧
      (pairs ⟨.unordered, .relative⟩ es = pairs ⟨.unordered, .relative⟩ es' ↔
        ((Path.ofString p).finalName = (Path.ofString q).finalName ∧
            ∀ m, m ∈ t.entries.map mark ↔ m ∈ t'.entries.map mark) ∨
          Exchanged (Path.ofString p).finalName (Path.ofString q).finalName (t.entries.map mark)
            (t'.entries.map mark)) := by
  have hbare := bareHost_snapshotTree_of_snapshotTree hp hs ht
  have hbare' := bareHost_snapshotTree_of_snapshotTree hq hs' ht'
  obtain ⟨r, hr, hes⟩ := World.exists_expandElement_of_directory hp hbare hnode
  obtain ⟨r', hr', hes'⟩ := World.exists_expandElement_of_directory hq hbare' hnode'
  refine ⟨_, _, expand_of_expandElement hp hs hes, expand_of_expandElement hq hs' hes',
    snapshotAll_of_expandElement hp hs hes, snapshotAll_of_expandElement hq hs' hes', ?_⟩
  have hbelow := World.areBelow_of_snapshotTree hp hbare hnode hw
  have hbelow' := World.areBelow_of_snapshotTree hq hbare' hnode' hw'
  have hname := Path.finalName_eq_empty_or_isName hp
  have hname' := Path.finalName_eq_empty_or_isName hq
  rw [← hr] at hname
  rw [← hr'] at hname'
  rw [← hr, ← hr', relative_pairs_eq_iff_of_areBelow hp hq hbelow hbelow' hname hname']
  refine or_congr_right ⟨fun ⟨hne, hmem, hmem', hrest⟩ => ?_,
    fun h => ⟨h.ne, h.mem, h.mem', h.rest⟩⟩
  exact exchanged_of_areClosed (World.areClosed_of_snapshotTree hw hp hbare hnode)
    (World.areClosed_of_snapshotTree hw' hq hbare' hnode') hne hmem hmem' hrest

/-- Two directories with exchanged names, each with nothing else in it. -/
theorem relative_pairs_eq_iff_of_exchanged :
    let w := ((World.empty.apply (.makeDirectory (.ofString "/x/a/b"))).world.apply
      (.makeDirectory (.ofString "/y/b/a"))).world
    let s := startOn w .all false false
    ∃ t t', (snapshotTree (.all (.ofString "/x/a")) s).1 = .ok t ∧
      (snapshotTree (.all (.ofString "/y/b")) s).1 = .ok t' ∧
      Exchanged "a" "b" (t.entries.map mark) (t'.entries.map mark) ∧
      ∃ es es', (expand [.path (.ofString "/x/a")] s).1 = .ok es ∧
        (expand [.path (.ofString "/y/b")] s).1 = .ok es' ∧
        pairs ⟨.unordered, .relative⟩ es = pairs ⟨.unordered, .relative⟩ es' := by
  intro w s
  have hw : w.IsWellNamed := (World.isWellNamed_empty.apply _).apply _
  have hs : s.IsStill w (HoldsRight w ⟨.unordered, .relative⟩) :=
    isStill_startOn (holdsRight_empty _ _ _) _ _
  have hmarks : (snapshotTree (.all (.ofString "/x/a")) s).1.toOption.map (·.entries.map mark) =
        some [Mark.directory "b"] ∧
      (snapshotTree (.all (.ofString "/y/b")) s).1.toOption.map (·.entries.map mark) =
        some [Mark.directory "a"] := by
    decide +kernel
  obtain ⟨t, ht, hleft⟩ := Option.map_eq_some_iff.1 hmarks.1
  obtain ⟨t', ht', hleft'⟩ := Option.map_eq_some_iff.1 hmarks.2
  have hok := eq_ok_of_toOption ht
  have hok' := eq_ok_of_toOption ht'
  have hexchanged : Exchanged "a" "b" (t.entries.map mark) (t'.entries.map mark) := by
    have hempty : ∀ name isFile rest content, rest ≠ [] →
        ((some ⟨isFile, name :: rest⟩, content) : Mark) ∉ [Mark.directory name] := by
      simp +contextual [Mark.directory]
    rw [hleft, hleft']
    exact ⟨by decide, by simp, by simp, hempty "b", hempty "a", by simp⟩
  have hdirectory : ∀ c ∈ ["/x/a", "/y/b"],
      w.find true (.ofString c) = .ok (.directory .epoch) := by
    decide +kernel
  obtain ⟨es, es', hes, hes', -, -, hiff⟩ := relative_pairs_eq_iff hw hw hs hs rfl rfl
    (hdirectory "/x/a" (by simp)) (hdirectory "/y/b" (by simp)) hok hok'
  have hdated : ∀ c ∈ ["/x/a", "/y/b"], w.IsDated (.ofString c) := fun c hc =>
    (World.isDated_iff_of_find (hdirectory c hc)).2 (by decide)
  rw [World.ifDated_of_isDated (hdated "/x/a" (by simp))] at hes
  rw [World.ifDated_of_isDated (hdated "/y/b" (by simp))] at hes'
  exact ⟨t, t', hok, hok', hexchanged, es, es', hes, hes', hiff.2 (Or.inr hexchanged)⟩

/-- **Directories of different names can have the same relative aggregate**: here each is empty but
for an empty directory that has the name of the other. -/
theorem relative_pairs_not_injective :
    let w := ((World.empty.apply (.makeDirectory (.ofString "/x/a/b"))).world.apply
      (.makeDirectory (.ofString "/y/b/a"))).world
    let s := startOn w .all false false
    (Path.ofString "/x/a").canonical w.workingDirectory = .ok "/x/a" ∧
      (Path.ofString "/y/b").canonical w.workingDirectory = .ok "/y/b" ∧
      ∃ t t' es es', (snapshotTree (.all (.ofString "/x/a")) s).1 = .ok t ∧
        (snapshotTree (.all (.ofString "/y/b")) s).1 = .ok t' ∧
        (expand [.path (.ofString "/x/a")] s).1 = .ok es ∧
        (expand [.path (.ofString "/y/b")] s).1 = .ok es' ∧
        pairs ⟨.unordered, .relative⟩ es = pairs ⟨.unordered, .relative⟩ es' ∧
        ¬ ((Path.ofString "/x/a").fileName? = (Path.ofString "/y/b").fileName? ∧
          ∀ m, m ∈ t.entries.map mark ↔ m ∈ t'.entries.map mark) := by
  intro w s
  have htrees : ∀ c ∈ ["/x/a", "/y/b"],
      (snapshotTree (.all (.ofString c)) s).1.toOption.isSome = true := by
    decide +kernel
  obtain ⟨t, ht⟩ := Option.isSome_iff_exists.1 (htrees "/x/a" (by simp))
  obtain ⟨t', ht'⟩ := Option.isSome_iff_exists.1 (htrees "/y/b" (by simp))
  -- What is left of the entries, the root first, and then in the order of pairs.
  have hleft : (expand [.path (.ofString "/x/a")] s).1.toOption.map
        (normalized ⟨.unordered, .relative⟩) = some [("a", .directory), ("b", .directory)] ∧
      (expand [.path (.ofString "/y/b")] s).1.toOption.map
        (normalized ⟨.unordered, .relative⟩) = some [("b", .directory), ("a", .directory)] := by
    decide +kernel
  obtain ⟨es, hes, hnormalized⟩ := Option.map_eq_some_iff.1 hleft.1
  obtain ⟨es', hes', hnormalized'⟩ := Option.map_eq_some_iff.1 hleft.2
  refine ⟨rfl, rfl, t, t', es, es', eq_ok_of_toOption ht, eq_ok_of_toOption ht',
    eq_ok_of_toOption hes, eq_ok_of_toOption hes', ?_, ?_⟩
  · rw [pairs_eq_iff_perm, hnormalized, hnormalized']
    exact .swap _ _ _
  · rintro ⟨hname, -⟩
    exact absurd hname (by decide)

end Session

end SnapStore
