import SnapStore.Proofs.Path.Canonical
import SnapStore.Proofs.Session.Agreement
import SnapStore.Proofs.Tree.Memory
import SnapStore.Proofs.Tree.Plain

/-!
# Trees in memory and on disk

The same files can be held in memory or lie on disk (`SnapStore.MemoryTree.IsOnDisk`). A tree in
memory brings its directories up as it comes to the files below them, a walk on disk finds them
listed; what the two report is the same, and in the same order. Their snapshots differ in nothing
but modification times (`SnapStore.Session.snapshotSource_memory`). On disk these must have dates.

Modification times do not count when entries are combined (`SnapStore.Strategy.combine_undated`).
-/

namespace SnapStore

/-! ### Entries without times -/

/-- The snapshot of a file whose time is not known. -/
def FileSnapshot.undated (s : FileSnapshot) : FileSnapshot := ⟨s.digest, ""⟩

namespace Entry

/-- The entry without the time of its file. -/
def undated : Entry → Entry
  | missing p n => missing p n
  | file p r isRoot s => file p r isRoot s.undated
  | directory p r isRoot => directory p r isRoot

@[simp] theorem path_undated (e : Entry) : e.undated.path = e.path := by cases e <;> rfl

@[simp] theorem content_undated (e : Entry) : e.undated.content = e.content := by cases e <;> rfl

@[simp] theorem apply_undated (n : Normalization) (e : Entry) : n.apply e.undated = n.apply e := by
  cases e <;> cases n <;> rfl

theorem distinctFrom_undated (seen : List String) (es : List Entry) :
    distinctFrom seen (es.map undated) = (distinctFrom seen es).map undated := by
  induction es generalizing seen with
  | nil => rfl
  | cons e es ih =>
    rw [List.map_cons, distinctFrom, distinctFrom, path_undated, ih, ih]
    split_ifs <;> rfl

/-- The entry of something on disk, without its time, is the entry of it without its time. -/
theorem IsAt.undated {c : String} {ns : List Bytes} {a : Option FileSnapshot} {e : Entry}
    (h : e.IsAt c ns a) : e.undated.IsAt c ns (a.map FileSnapshot.undated) := by
  have hfound : ∀ path segments, (found path segments a).undated =
      found path segments (a.map FileSnapshot.undated) := by
    intro path segments
    cases a <;> rfl
  cases h with
  | alone hname =>
    rw [hfound]
    exact .alone hname
  | below hne hnames hpath =>
    rw [hfound]
    exact .below hne hnames hpath

theorem forall₂_undated {α : Type} {c : String} {names : α → List Bytes}
    {a : α → Option FileSnapshot} {xs : List α} {es : List Entry}
    (h : List.Forall₂ (fun x e => IsAt c (names x) (a x) e) xs es) :
    List.Forall₂ (fun y e => IsAt c y.1 y.2 e)
      (xs.map fun x => (names x, (a x).map FileSnapshot.undated)) (es.map undated) := by
  rw [List.forall₂_map_left_iff, List.forall₂_map_right_iff]
  exact h.imp fun _ _ he => he.undated

end Entry

/-- **Times do not count** when entries are combined. -/
theorem Strategy.combine_undated (how : Strategy) (es : List Entry) :
    how.combine (es.map Entry.undated) = how.combine es := by
  have hnormalized : how.normalized (es.map Entry.undated) = how.normalized es := by
    rw [normalized, normalized, Entry.distinct, Entry.distinctFrom_undated, List.filterMap_map]
    simp [Entry.distinct]
  rw [combine, combine, pairs, pairs, hnormalized]

namespace MemoryTree

/-! ### The entries of a tree in memory -/

/-- The names of what is reported. -/
def Item.names (x : Item) : List Bytes := x.1.map Utf8.encode

/-- The snapshot of a file in memory. -/
def snapshot (content : Bytes) : FileSnapshot := ⟨.ofMessage content, Timestamp.epoch.text⟩

theorem pathOf_eq_below (t : MemoryTree) (segments : List String) :
    t.pathOf segments = t.root.below (segments.map Utf8.encode) := by
  rw [pathOf, Path.below, List.foldl_map]

theorem isName_of_isPlain {s : String} (h : RelativePath.IsPlain s) : (Utf8.encode s).IsName := by
  obtain ⟨hempty, hdot, hdotdot, hslash, -⟩ := h
  exact Path.isSegment_iff_isName.1 ⟨hempty, hdot, hdotdot, hslash⟩

variable {w : World} {t : MemoryTree} {c : String}

/-- What is reported lies below the root, under names. -/
theorem isName_of_mem_items (ht : t.IsWellFormed) {x : Item} (hx : x ∈ items [] t.files) :
    x.1 ≠ [] ∧ ∀ n ∈ x.names, n.IsName := by
  have hplain : x.1 ≠ [] ∧ ∀ s ∈ x.1, RelativePath.IsPlain s := by
    rcases mem_items.1 hx with ⟨f, hf, rfl⟩ | ⟨-, -, f, hf, habove⟩
    · exact ⟨ht.ne_nil f hf, ht.plain f hf⟩
    · obtain ⟨hne, hbegins, -⟩ := mem_above.1 habove
      exact ⟨hne, fun s hs => ht.plain f hf s (hbegins.subset hs)⟩
  refine ⟨hplain.1, fun n hn => ?_⟩
  obtain ⟨s, hs, rfl⟩ := List.mem_map.1 hn
  exact isName_of_isPlain (hplain.2 s hs)

/-- An entry is made of what is reported. -/
theorem run_tell (hroot : t.root = .ofString c)
    (hc : (Path.ofString c).canonical w.workingDirectory = .ok c) {x : Item}
    (hnames : ∀ n ∈ x.names, n.IsName) {path : String}
    (hpath : Path.ofString path = (Path.ofString c).below x.names) (seen : List Entry) :
    ((t.tell w.bareHost.collector x).run seen : Id _) =
      (.ok (), .found path x.1 (x.2.map snapshot) :: seen) := by
  obtain ⟨segments, content⟩ := x
  have hkey : (w.bareHost.key (t.pathOf segments)).run = .ok path := by
    rw [Host.bareHost_key, pathOf_eq_below, hroot]
    exact World.keyOf_eq_ok_iff.2 (Path.canonical_below hc hnames hpath)
  cases content with
  | none =>
    refine (World.run_lift_bind (w.bareHost.key (t.pathOf segments)).run _ seen).trans ?_
    rw [hkey]
    rfl
  | some content =>
    refine (World.run_lift_bind (w.bareHost.key (t.pathOf segments)).run _ seen).trans ?_
    rw [hkey]
    -- The content is read from memory and hashed aside.
    have hdigest := Reader.digest_ofBytes (t.pathOf segments).display content
    have hbind : ∀ f : Except Error Digest → ExceptT Failure (Collecting Id) Unit,
        (ExceptT.lift ((t.details ⟨true, segments⟩ content).digest
          w.bareHost.hasher.lift).run >>= f).run seen =
        (f (.ok (.ofMessage content))).run seen := by
      intro f
      rw [← hdigest]
      rfl
    exact hbind _

/-- Entries are made of all that is reported. -/
theorem run_forM_tell (hroot : t.root = .ofString c)
    (hc : (Path.ofString c).canonical w.workingDirectory = .ok c) {xs : List Item}
    (hxs : ∀ x ∈ xs, x.1 ≠ [] ∧ ∀ n ∈ x.names, n.IsName) (seen : List Entry) :
    ∃ entries, ((xs.forM (t.tell w.bareHost.collector)).run seen : Id _) =
        (.ok (), entries.reverse ++ seen) ∧
      List.Forall₂ (fun x e => e.IsAt c x.names (x.2.map snapshot)) xs entries := by
  induction xs generalizing seen with
  | nil => exact ⟨[], rfl, .nil⟩
  | cons x xs ih =>
    obtain ⟨⟨hne, hnames⟩, hxs⟩ := List.forall_mem_cons.1 hxs
    obtain ⟨path, hpath⟩ := World.exists_ofString_below c x.1
    obtain ⟨entries, hrun, hentries⟩ := ih hxs (.found path x.1 (x.2.map snapshot) :: seen)
    refine ⟨.found path x.1 (x.2.map snapshot) :: entries, ?_,
      .cons (.below hne hnames hpath) hentries⟩
    have htell := run_tell hroot hc hnames hpath seen
    have hcons : (x :: xs).forM (t.tell w.bareHost.collector) =
        t.tell w.bareHost.collector x >>= fun _ => xs.forM (t.tell w.bareHost.collector) := rfl
    rw [hcons, run_bind_of_ok htell]
    refine hrun.trans ?_
    rw [List.reverse_cons, List.append_assoc]
    rfl

/-- **The snapshot of a tree in memory** has an entry for all that is reported. -/
theorem bareHost_snapshotSource (ht : t.IsWellFormed) (hroot : t.root = .ofString c)
    (hc : (Path.ofString c).canonical w.workingDirectory = .ok c) :
    ∃ entries, (w.bareHost.snapshotSource t.visit).run = Except.ok ⟨none, entries⟩ ∧
      List.Forall₂ (fun x e => e.IsAt c x.names (x.2.map snapshot)) (items [] t.files) entries := by
  obtain ⟨entries, hrun, hentries⟩ := run_forM_tell hroot hc
    (fun x hx => isName_of_mem_items ht hx) []
  refine ⟨entries, ?_, hentries⟩
  have hvisit : ((t.visit w.bareHost.collector).run.run [] : Id _) =
      (.ok (), entries.reverse ++ []) := by
    rw [visit_eq_forM ht]
    exact hrun
  change (w.bareHost.walk none t.visit).run = _
  rw [World.run_walk, hvisit]
  simp

/-! ### The same files on disk -/

/-- The files of a tree in memory lie below its root on disk, and nothing else but the directories
above them does. All of it can be looked up from the root. -/
structure IsOnDisk (t : MemoryTree) (w : World) (place : Place) : Prop where
  /-- The root leads to the place. -/
  located : w.locate true t.root = .ok (.place place)
  /-- There is a directory. -/
  isDirectory : w.isDirectory place = true
  /-- The files are there, with their contents. -/
  file : ∀ f ∈ t.files, ∃ modified,
    w.node? (place ++ f.1.map Utf8.encode) = some (.file f.2 modified)
  /-- So are the directories above them. -/
  above : ∀ f ∈ t.files, ∀ d ∈ above f.1, w.isDirectory (place ++ d.map Utf8.encode) = true
  /-- Nothing else is. -/
  only : ∀ ns, ns ≠ [] → (w.node? (place ++ ns)).isSome → ∃ f ∈ t.files, ns <+: f.1.map Utf8.encode
  /-- Names can stand on disk. -/
  name : ∀ f ∈ t.files, ∀ s ∈ f.1, (Utf8.encode s).length ≤ World.maxName ∧ 0 ∉ Utf8.encode s
  /-- Paths are not too long. -/
  path : ∀ f ∈ t.files, (t.pathOf f.1).bytes.length < World.maxPath

/-- Whether nothing else is there can be read off the nodes of the world. -/
theorem exists_file_of_nodes {place : Place}
    (h : ∀ e ∈ w.nodes, place <+: e.1 → ∃ f ∈ t.files, e.1 <+: place ++ f.1.map Utf8.encode)
    {ns : List Bytes} (hne : ns ≠ []) (hnode : (w.node? (place ++ ns)).isSome) :
    ∃ f ∈ t.files, ns <+: f.1.map Utf8.encode := by
  obtain ⟨node, hnode⟩ := Option.isSome_iff_exists.1 hnode
  rw [World.node?_of_ne_nil _ (List.append_ne_nil_of_right_ne_nil _ hne),
    World.lookup_eq_some_iff w.distinct] at hnode
  obtain ⟨f, hf, hbegins⟩ := h _ hnode (List.prefix_append _ _)
  exact ⟨f, hf, (List.prefix_append_right_inj _).1 hbegins⟩

namespace IsOnDisk

variable {place : Place} (h : t.IsOnDisk w place)

include h

/-- No file lies below another one. -/
theorem not_mem_above {f g : List String × Bytes} (hf : f ∈ t.files) (hg : g ∈ t.files) :
    f.1 ∉ MemoryTree.above g.1 := by
  intro habove
  obtain ⟨modified, hnode⟩ := h.file f hf
  have hdirectory := h.above g hg _ habove
  rw [World.isDirectory, hnode] at hdirectory
  cases hdirectory

/-- **What stands below the root is what is reported**: a directory, or a file with its content. -/
theorem exists_item {ns : List Bytes} (hne : ns ≠ []) (hnode : (w.node? (place ++ ns)).isSome) :
    ∃ x ∈ items [] t.files, ns = x.names := by
  obtain ⟨f, hf, hbegins⟩ := h.only ns hne hnode
  rw [List.prefix_iff_eq_take, ← List.map_take] at hbegins
  rw [hbegins] at hne ⊢
  by_cases hself : f.1.take ns.length = f.1
  · exact ⟨(f.1, some f.2), mem_items.2 (Or.inl ⟨f, hf, rfl⟩), congrArg _ hself⟩
  · have habove : f.1.take ns.length ∈ MemoryTree.above f.1 :=
      mem_above.2 ⟨mt List.map_eq_nil_iff.2 hne, List.take_prefix _ _, hself⟩
    exact ⟨(f.1.take ns.length, none),
      mem_items.2 (Or.inr ⟨rfl, List.not_mem_nil, f, hf, habove⟩), rfl⟩

/-- What is reported stands below the root. -/
theorem exists_node {x : Item} (hx : x ∈ items [] t.files) :
    ∃ node, w.node? (place ++ x.names) = some node ∧
      match x.2 with
      | none => node.kind = .directory
      | some content => ∃ modified, node = .file content modified := by
  rcases mem_items.1 hx with ⟨f, hf, rfl⟩ | ⟨hnone, -, f, hf, habove⟩
  · obtain ⟨modified, hnode⟩ := h.file f hf
    exact ⟨_, hnode, modified, rfl⟩
  · obtain ⟨node, hnode, hkind⟩ := World.exists_node_of_isDirectory (h.above f hf _ habove)
    refine ⟨node, hnode, ?_⟩
    rw [hnone]
    exact hkind

/-- A path to what is reported is one that can be looked up. -/
theorem fits {f : List String × Bytes} (hf : f ∈ t.files) {segments : List String}
    (hbegins : segments <+: f.1) (hplain : ∀ s ∈ f.1, RelativePath.IsPlain s) :
    t.root.Fits (segments.map Utf8.encode) where
  text := ⟨segments, rfl⟩
  name n hn := by
    obtain ⟨s, hs, rfl⟩ := List.mem_map.1 hn
    exact (h.name f hf s (hbegins.subset hs)).1
  zero hzero := by
    rcases Path.mem_bytes_below hzero with hroot | hslash | ⟨n, hn, hname⟩
    · exact World.zero_notMem_of_locate h.located hroot
    · cases hslash
    · obtain ⟨s, hs, rfl⟩ := List.mem_map.1 hn
      exact (h.name f hf s (hbegins.subset hs)).2 hname
  path := by
    have hfile := h.path f hf
    obtain ⟨ext, hext⟩ := hbegins
    rw [pathOf_eq_below, ← hext, List.map_append, Path.below_append] at hfile
    by_cases hne : ext = []
    · rwa [hne] at hfile
    · have hlonger := Path.length_lt_length_below (t.root.below (segments.map Utf8.encode))
        (mt List.map_eq_nil_iff.1 hne) fun n hn => by
          obtain ⟨s, hs, rfl⟩ := List.mem_map.1 hn
          exact (isName_of_isPlain (hplain s (hext ▸ List.mem_append_right _ hs))).1
      omega

/-- The root holds files and directories only, and all of it can be looked up. -/
theorem isPlainBelow (ht : t.IsWellFormed) : w.IsPlainBelow t.root place where
  located := h.located
  kind ns node hnode := by
    by_cases hne : ns = []
    · rw [hne, List.append_nil] at hnode
      obtain ⟨found, hfound, hkind⟩ := World.exists_node_of_isDirectory h.isDirectory
      rw [hnode] at hfound
      cases hfound
      exact Or.inr hkind
    · obtain ⟨x, hx, rfl⟩ := h.exists_item hne (by rw [hnode]; rfl)
      obtain ⟨found, hfound, hkind⟩ := h.exists_node hx
      rw [hnode] at hfound
      cases hfound
      rcases hcontent : x.2 with _ | content
      · rw [hcontent] at hkind
        exact Or.inr hkind
      · rw [hcontent] at hkind
        obtain ⟨modified, rfl⟩ := hkind
        exact Or.inl rfl
  directory ns n hnode := by
    rw [List.append_assoc] at hnode
    obtain ⟨f, hf, hbegins⟩ := h.only _ (by simp) hnode
    by_cases hne : ns = []
    · rw [hne, List.append_nil]
      exact h.isDirectory
    · -- What lies above a prefix of a file is a directory above the file.
      have hns : ns = (f.1.take ns.length).map Utf8.encode := by
        rw [List.map_take]
        exact List.prefix_iff_eq_take.1 ((List.prefix_append _ _).trans hbegins)
      have hlength := hbegins.length_le
      rw [List.length_append, List.length_singleton, List.length_map] at hlength
      rw [hns] at hne ⊢
      refine h.above f hf _ (mem_above.2 ⟨mt List.map_eq_nil_iff.2 hne, List.take_prefix _ _, ?_⟩)
      intro hself
      have := congrArg List.length hself
      rw [List.length_take] at this
      omega
  fits ns hne hnode := by
    obtain ⟨f, hf, hbegins⟩ := h.only ns hne hnode
    rw [List.prefix_iff_eq_take, ← List.map_take] at hbegins
    rw [hbegins]
    exact h.fits hf (List.take_prefix _ _) (ht.plain f hf)

variable (hw : w.IsWellNamed) (ht : t.IsWellFormed)

include hw ht

/-- What is found of a file on disk has the digest of the content in memory. -/
theorem undated_snapshotAt {x : Item} (hx : x ∈ items [] t.files) :
    (w.snapshotAt (t.root.below x.names)).map FileSnapshot.undated =
      (x.2.map snapshot).map FileSnapshot.undated := by
  obtain ⟨node, hnode, hkind⟩ := h.exists_node hx
  have hne : x.names ≠ [] := mt List.map_eq_nil_iff.1 (isName_of_mem_items ht hx).1
  rw [World.snapshotAt, (h.isPlainBelow ht).find_below hw hne hnode]
  rcases hcontent : x.2 with _ | content
  · rw [hcontent] at hkind
    cases node with
    | directory modified => rfl
    | file | link | special => cases hkind
  · rw [hcontent] at hkind
    obtain ⟨modified, rfl⟩ := hkind
    rw [Option.map_some, Option.map_some, Option.map_some, FileSnapshot.undated,
      FileSnapshot.undated, snapshot]

/-- **What the root holds is what is reported**, in the same order, but for the times. -/
theorem held_eq (hroot : t.root.toString?.isSome = true)
    {held : List (List Bytes × Option FileSnapshot)}
    (hsorted : held.Pairwise fun x y => compare x.1 y.1 = .lt)
    (hheld : ∀ x, x ∈ held ↔ w.Holds t.root x.1 x.2) :
    held.map (fun x => (x.1, x.2.map FileSnapshot.undated)) =
      (items [] t.files).map fun x => (x.names, (x.2.map snapshot).map FileSnapshot.undated) := by
  have hplain := h.isPlainBelow ht
  have hitems : (items [] t.files).Pairwise fun x y => compare x.names y.names = .lt :=
    sorted_items ht.sorted fun f hf g hg => h.not_mem_above hf hg
  refine Bytes.eq_of_mem_iff Prod.fst (List.pairwise_map.2 hsorted) (List.pairwise_map.2 hitems)
    fun y => ?_
  rw [List.mem_map, List.mem_map]
  constructor
  · rintro ⟨⟨ns, a⟩, hmem, rfl⟩
    rcases (hheld _).1 hmem with ⟨-, hnode⟩ | ⟨-, -, -, hbelow, ha⟩
    · exact absurd h.isDirectory (World.not_isDirectory_of_file hnode h.located)
    · obtain ⟨hne, hnode⟩ := (hplain.isBelow_iff hw h.isDirectory).1 hbelow
      obtain ⟨x, hx, rfl⟩ := h.exists_item hne hnode
      exact ⟨x, hx, Prod.ext rfl (by rw [ha, h.undated_snapshotAt hw ht hx])⟩
  · rintro ⟨x, hx, rfl⟩
    obtain ⟨node, hnode, -⟩ := h.exists_node hx
    have hne : x.names ≠ [] := mt List.map_eq_nil_iff.1 (isName_of_mem_items ht hx).1
    have hbelow := (hplain.isBelow_iff hw h.isDirectory).2 ⟨hne, by rw [hnode]; rfl⟩
    refine ⟨(x.names, w.snapshotAt (t.root.below x.names)), ?_,
      Prod.ext rfl (h.undated_snapshotAt hw ht hx)⟩
    exact (hheld _).2 (.below hroot h.located h.isDirectory hbelow rfl)

/-- **The tree of the files on disk** lists what the root holds, unless a time has no date. -/
theorem treeOf_cases (hroot : t.root.canonical w.workingDirectory = .ok c)
    (htext : t.root.toString?.isSome = true) :
    (w.IsDatedBelow t.root ∧ ∃ listed,
      w.treeOf (some c) (w.course (.all t.root)) = .ok ⟨some c, listed⟩ ∧
        w.ListsHeld t.root c listed) ∨
    ¬ w.IsDatedBelow t.root ∧ w.treeOf (some c) (w.course (.all t.root)) = .error .panic := by
  rcases (h.isPlainBelow ht).ending_course hw htext h.isDirectory with ⟨hdated, hending⟩ |
    ⟨hdated, hending⟩
  · rcases World.treeOf_course hw hroot with ⟨e, hfails, -⟩ | ⟨listed, -, htree, hlists⟩
    · cases hending.symm.trans hfails
    · exact Or.inl ⟨hdated, listed, htree, hlists⟩
  · rcases World.treeOf_course hw hroot with ⟨e, hfails, htree⟩ | ⟨listed, hends, -⟩
    · cases hending.symm.trans hfails
      exact Or.inr ⟨hdated, htree⟩
    · cases hending.symm.trans hends

end IsOnDisk

end MemoryTree

namespace Session

/-- **A tree in memory and the same files on disk have the same snapshot**, but for modification
times, and so they have the same aggregates. No file can lie below another one here, since on disk
it would have to lie in a directory. If the time of something on disk has no date, there is a panic
in place of the one snapshot. -/
theorem snapshotSource_memory {w : World} (hw : w.IsWellNamed) {st : Strategy} {c : String}
    (hc : (Path.ofString c).canonical w.workingDirectory = .ok c) {files : List (String × Bytes)}
    {t : MemoryTree} (ht : MemoryTree.ofFiles (.ofString c) files = .ok t) {place : Place}
    (hdisk : t.IsOnDisk w place) {s s' : Session} (hs : s.IsStill w (HoldsRight w st))
    (hs' : s'.IsStill w (HoldsRight w st)) :
    ∃ inMemory, (snapshotSource (.memory t) s).1 = .ok inMemory ∧
      (w.IsDatedBelow (.ofString c) →
        ∃ onDisk, (snapshotTree (.all (.ofString c)) s').1 = .ok onDisk ∧
          inMemory.entries.map Entry.undated = onDisk.entries.map Entry.undated ∧
          ∀ how : Strategy, how.combine inMemory.entries = how.combine onDisk.entries) ∧
      (¬ w.IsDatedBelow (.ofString c) →
        (snapshotTree (.all (.ofString c)) s').1 = .error .panic) := by
  obtain ⟨hformed, hroot⟩ := MemoryTree.isWellFormed_of_ofFiles ht
  have htext : t.root.toString?.isSome = true := by
    rw [hroot]
    simp
  obtain ⟨entries, hmemory, hentries⟩ := MemoryTree.bareHost_snapshotSource hformed hroot hc
  have hsource : (snapshotSource (.memory t) s).1 = .ok ⟨none, entries⟩ :=
    (rel_snapshotSource (.memory t) s hs).1.trans hmemory
  have hwalked : (snapshotTree (.all (.ofString c)) s').1 =
      w.treeOf (some c) (w.course (.all (.ofString c))) :=
    (rel_snapshotTree (Or.inr (World.isCanonical_ofString hc)) s' hs').1.trans
      (World.bareHost_snapshotTree_of_canonical w hc)
  have htreeOf := hdisk.treeOf_cases hw hformed (hroot ▸ hc) htext
  rw [← hroot] at hwalked ⊢
  rcases htreeOf with ⟨hdated, listed, htree, held, hsorted, hheld, hlisted⟩ | ⟨hdated, htree⟩
  rotate_left
  · exact ⟨_, hsource, fun h => absurd h hdated, fun _ => hwalked.trans htree⟩
  have hsame : entries.map Entry.undated = listed.map Entry.undated := by
    have hleft := Entry.forall₂_undated hentries
    rw [← hdisk.held_eq hw hformed htext hsorted hheld] at hleft
    exact List.right_unique_forall₂' (fun _ _ _ he he' => he.eq he') hleft
      (Entry.forall₂_undated hlisted)
  refine ⟨_, hsource, fun _ => ⟨_, hwalked.trans htree, hsame, fun how => ?_⟩, (absurd hdated ·)⟩
  rw [← how.combine_undated entries, hsame, how.combine_undated]

/-- Files whose names sort between a directory and what is in it. -/
theorem snapshotSource_memory_of_siblings :
    let w := (((World.empty.apply (.write (.ofString "/d/a/x") [] .epoch)).world.apply
      (.write (.ofString "/d/a-b") [] .epoch)).world.apply
      (.write (.ofString "/d/a.txt") [] .epoch)).world
    let files : List (String × Bytes) := [("a.txt", []), ("a/x", []), ("a-b", [])]
    let t : MemoryTree := ⟨.ofString "/d", [(["a", "x"], []), (["a-b"], []), (["a.txt"], [])]⟩
    let s := startOn w .all false false
    w.IsWellNamed ∧ (Path.ofString "/d").canonical w.workingDirectory = .ok "/d" ∧
      MemoryTree.ofFiles (.ofString "/d") files = .ok t ∧ t.IsOnDisk w [Utf8.encode "d"] ∧
      s.IsStill w (HoldsRight w .default) ∧ w.IsDatedBelow (.ofString "/d") ∧
      ∃ inMemory onDisk, (snapshotSource (.memory t) s).1 = .ok inMemory ∧
        (snapshotTree (.all (.ofString "/d")) s).1 = .ok onDisk ∧
        inMemory.entries.map Entry.undated = onDisk.entries.map Entry.undated ∧
        ∀ how : Strategy, how.combine inMemory.entries = how.combine onDisk.entries := by
  intro w files t s
  have hw : w.IsWellNamed := ((World.isWellNamed_empty.apply _).apply _).apply _
  have hc : (Path.ofString "/d").canonical w.workingDirectory = .ok "/d" := by rfl
  have ht : MemoryTree.ofFiles (.ofString "/d") files = .ok t := by rfl
  have hdisk : t.IsOnDisk w [Utf8.encode "d"] :=
    { located := by rfl
      isDirectory := by decide +kernel
      file := by
        have hfiles : ∀ f ∈ t.files, w.node? ([Utf8.encode "d"] ++ f.1.map Utf8.encode) =
            some (.file f.2 .epoch) := by
          decide +kernel
        exact fun f hf => ⟨_, hfiles f hf⟩
      above := by decide +kernel
      only := fun ns => MemoryTree.exists_file_of_nodes (by decide +kernel)
      name := by decide +kernel
      path := by decide +kernel }
  have hs : s.IsStill w (HoldsRight w .default) := isStill_startOn (holdsRight_empty _ _ _) _ _
  have hnodes : ∀ e ∈ w.nodes, e.2.status.modified.Representable := by decide
  have hdated : w.IsDatedBelow (.ofString "/d") :=
    ((hdisk.isPlainBelow (MemoryTree.isWellFormed_of_ofFiles ht).1).isDatedBelow_iff hw
      hdisk.isDirectory).2 fun _ _ hne => World.representable_of_nodes hnodes hne
  obtain ⟨inMemory, hmemory, hsame, -⟩ := snapshotSource_memory hw hc ht hdisk hs hs
  obtain ⟨onDisk, hwalked, hentries, hcombine⟩ := hsame hdated
  exact ⟨hw, hc, ht, hdisk, hs, hdated, inMemory, onDisk, hmemory, hwalked, hentries, hcombine⟩

/-- **A file on disk whose time has no date** has no tree, and in memory it has one. -/
theorem snapshotSource_memory_of_undated :
    let modified : Timestamp := ⟨10000000000000000000000⟩
    let w := (World.empty.apply (.write (.ofString "/d/x") [] modified)).world
    let t : MemoryTree := ⟨.ofString "/d", [(["x"], [])]⟩
    let s := startOn w .all false false
    w.IsWellNamed ∧ MemoryTree.ofFiles (.ofString "/d") [("x", [])] = .ok t ∧
      t.IsOnDisk w [Utf8.encode "d"] ∧
      (∃ inMemory, (snapshotSource (.memory t) s).1 = .ok inMemory) ∧
      (snapshotTree (.all (.ofString "/d")) s).1 = .error .panic := by
  intro modified w t s
  have hw : w.IsWellNamed := World.isWellNamed_empty.apply _
  have hc : (Path.ofString "/d").canonical w.workingDirectory = .ok "/d" := by rfl
  have ht : MemoryTree.ofFiles (.ofString "/d") [("x", [])] = .ok t := by rfl
  have hnode : w.node? ([Utf8.encode "d"] ++ [Utf8.encode "x"]) = some (.file [] modified) := by
    rfl
  have hdisk : t.IsOnDisk w [Utf8.encode "d"] :=
    { located := by rfl
      isDirectory := by rfl
      file := fun f hf => ⟨modified, List.mem_singleton.1 hf ▸ hnode⟩
      above := by decide
      only := fun ns => MemoryTree.exists_file_of_nodes (by decide)
      name := by decide
      path := by decide }
  have hs : s.IsStill w (HoldsRight w .default) := isStill_startOn (holdsRight_empty _ _ _) _ _
  obtain ⟨hformed, -⟩ := MemoryTree.isWellFormed_of_ofFiles ht
  obtain ⟨entries, hmemory, -⟩ := MemoryTree.bareHost_snapshotSource hformed rfl hc
  refine ⟨hw, ht, hdisk, ⟨_, (rel_snapshotSource (.memory t) s hs).1.trans hmemory⟩, ?_⟩
  have hundated : ¬ w.IsDatedBelow (.ofString "/d") := by
    rw [(hdisk.isPlainBelow hformed).isDatedBelow_iff hw hdisk.isDirectory]
    exact fun hdated => absurd (hdated _ _ (by simp) hnode) (by decide)
  have htext : (Path.ofString "/d").toString?.isSome = true := by simp
  have htree := (hdisk.treeOf_cases hw hformed hc htext).resolve_left fun h => hundated h.1
  exact (rel_snapshotTree (Or.inr (World.isCanonical_ofString hc)) s hs).1.trans
    ((World.bareHost_snapshotTree_of_canonical w hc).trans htree.2)

end Session

end SnapStore
