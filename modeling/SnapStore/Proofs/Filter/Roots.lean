import SnapStore.Filter
import SnapStore.Proofs.Path.Canonical

/-!
# What rules about paths cover

A rule about a path covers what lies at it or below, and its path is meant from the base of the
tree. No base is looked up for it, though. A rule is kept as it was written, and its components are
compared with those of the path that a walk has come to (`SnapStore.Filter.level_denyPath`,
`SnapStore.Filter.level_allowPath`).

For a rule that goes down from the base (`SnapStore.Path.GoesDown`) that comes to the same: it
covers what lies at the canonical form of its path or below (`SnapStore.Filter.level_iff_isWithin`),
as components are blind to slashes and to a `.` further on in a path. It does not for a rule that a
`.` opens or that has a `..` in it. These are components like any other, no walk comes to a path
that has one, and so such a rule covers nothing (`SnapStore.Filter.level_of_not_goesDown`), whatever
lies at the canonical form of its path (`SnapStore.Filter.level_of_other_spelling`).
-/

namespace SnapStore

open Bytes (slash dot)

namespace Path

/-! ### Paths that go down -/

/-- Whether a path goes nowhere but down: it does not begin at the root, no `.` opens it, and there
is no `..` in it. -/
def GoesDown (p : Path) : Prop :=
  .root ∉ p.components ∧ .current ∉ p.components ∧ .parent ∉ p.components

instance (p : Path) : Decidable p.GoesDown := by
  unfold GoesDown; infer_instance

/-- Components that are names are written from those. -/
theorem exists_map_name {cs : List Component} (h : ∀ c ∈ cs, ∃ n, c = .name n) :
    ∃ ns : List Bytes, cs = ns.map .name := by
  induction cs with
  | nil => exact ⟨[], rfl⟩
  | cons c cs ih =>
    obtain ⟨n, rfl⟩ := h c List.mem_cons_self
    obtain ⟨ns, rfl⟩ := ih fun c hc => h c (List.mem_cons_of_mem _ hc)
    exact ⟨n :: ns, rfl⟩

/-- Such a path has only names for its components. -/
theorem GoesDown.exists_names {p : Path} (h : p.GoesDown) :
    ∃ ns : List Bytes, p.components = ns.map .name := by
  obtain ⟨hroot, hcurrent, hparent⟩ := h
  refine exists_map_name fun c hc => ?_
  cases c with
  | root => exact absurd hc hroot
  | current => exact absurd hc hcurrent
  | parent => exact absurd hc hparent
  | name n => exact ⟨n, rfl⟩

/-- It is read in the same way when it is joined on. -/
theorem GoesDown.flatMap_stepsOfPiece {p : Path} (h : p.GoesDown) :
    p.bytes.split.flatMap stepsOfPiece = p.components := by
  obtain ⟨hroot, hcurrent, -⟩ := h
  rcases hsplit : p.bytes.split with _ | ⟨first, rest⟩
  · rw [components, hsplit]
    rfl
  · have hcomponents : p.components =
        stepsOfFirst first (!rest.isEmpty) ++ rest.flatMap stepsOfPiece := by
      rw [components, hsplit]
    rw [hcomponents] at hroot hcurrent ⊢
    rw [List.flatMap_cons]
    congr 1
    unfold stepsOfFirst at hroot hcurrent ⊢
    split_ifs at hroot hcurrent ⊢
    · exact absurd List.mem_cons_self hroot
    · exact absurd List.mem_cons_self hcurrent
    · rfl

theorem GoesDown.isAbsolute_eq_false {p : Path} (h : p.GoesDown) : p.isAbsolute = false := by
  rw [← Bool.not_eq_true]
  intro habs
  obtain ⟨b⟩ := p
  obtain ⟨tail, rfl⟩ : ∃ tail, b = slash :: tail :=
    List.head?_eq_some_iff.1 (of_decide_eq_true habs)
  have hcomponents := components_append_slash [] tail
  exact h.1 (hcomponents ▸ List.mem_cons_self)

/-- Names go down. -/
theorem goesDown_ofNames {ns : List Bytes} (h : ∀ n ∈ ns, n.IsName) : (ofNames ns).GoesDown := by
  unfold GoesDown
  rw [components_ofNames h]
  simp

/-- What opens a path that goes down goes down itself. -/
theorem GoesDown.of_startsWith {p q : Path} (hp : p.GoesDown) (h : p.startsWith q = true) :
    q.GoesDown := by
  rw [startsWith, List.isPrefixOf_iff_prefix] at h
  obtain ⟨hroot, hcurrent, hparent⟩ := hp
  exact ⟨fun hmem => hroot (h.subset hmem), fun hmem => hcurrent (h.subset hmem),
    fun hmem => hparent (h.subset hmem)⟩

/-! ### What is within what -/

/-- Whether a path is at another one or below it, by their canonical forms. -/
def IsWithin (cwd : Except OsError Path) (p q : Path) : Prop :=
  ∃ c d, p.canonical cwd = .ok c ∧ q.canonical cwd = .ok d ∧
    (ofString c).startsWith (ofString d) = true

theorem startsWith_iff_of_names {p q : Path} {cs : List Component} {ns ms : List Bytes}
    (hp : p.components = cs ++ ns.map .name) (hq : q.components = cs ++ ms.map .name) :
    p.startsWith q = true ↔ ms <+: ns := by
  rw [startsWith, List.isPrefixOf_iff_prefix, hp, hq, List.prefix_append_right_inj,
    List.prefix_map_iff_of_injective fun _ _ h => Component.name.inj h]

theorem components_of_canonical {cwd : Except OsError Path} {p : Path} {ns : List Bytes}
    {s : String} (hp : absoluteNames cwd p = .ok ns) (hs : p.canonical cwd = .ok s) :
    (ofString s).components = [.root] ++ ns.map .name := by
  obtain ⟨ms, hms, hnames, hform⟩ := exists_names_of_canonical hs
  obtain rfl : ms = ns := Except.ok.inj (hms.symm.trans hp)
  rw [hform, components_absoluteOfNames hnames]
  rfl

/-- What goes down and is joined on comes after the names that are there. -/
theorem absoluteNames_join {cwd : Except OsError Path} {base p : Path} {ms ns : List Bytes}
    (hbase : absoluteNames cwd base = .ok ms) (hp : p.GoesDown)
    (hns : p.components = ns.map .name) : absoluteNames cwd (base.join p) = .ok (ms ++ ns) := by
  rw [join, if_neg (by simp [hp.isAbsolute_eq_false]), absoluteNames_child_eq hbase,
    hp.flatMap_stepsOfPiece, hns, foldl_descend_name]

/-- Segments that are joined on to a path with a canonical form leave it one. -/
theorem exists_canonical_join {cwd : Except OsError Path} {base p : Path} {c : String}
    (hbase : base.canonical cwd = .ok c) (hp : p.GoesDown) {segments : List String}
    (hsegments : p.components = (segments.map Utf8.encode).map .name) :
    ∃ s, (base.join p).canonical cwd = .ok s := by
  obtain ⟨ms, hms, hnames, hc⟩ := exists_names_of_canonical hbase
  have hns : ∀ n ∈ segments.map Utf8.encode, n.IsName := fun n hn =>
    isName_of_mem_components (hsegments ▸ List.mem_map_of_mem hn)
  have htext : ((ofString c).below (segments.map Utf8.encode)).toString?.isSome = true :=
    isSome_toString?_below (by simp) (by simp [Utf8.decode?_encode])
  obtain ⟨s, hs⟩ := Option.isSome_iff_exists.1 htext
  rw [hc, absoluteOfNames_below hnames hns] at hs
  refine ⟨s, ?_⟩
  rw [canonical_eq, absoluteNames_join hms hp hsegments]
  change textOfNames _ = _
  rw [textOfNames, hs]

/-- **What a path that goes down covers**, when paths are joined on to a base: those that begin with
its components. -/
theorem isWithin_join_iff {cwd : Except OsError Path} {base : Path} {c : String}
    (hbase : base.canonical cwd = .ok c) {p q : Path} (hp : p.GoesDown) {segments : List String}
    (hsegments : p.components = (segments.map Utf8.encode).map .name) (hq : q.GoesDown) :
    IsWithin cwd (base.join p) (base.join q) ↔ p.startsWith q = true := by
  obtain ⟨ms, hms, -, -⟩ := exists_names_of_canonical hbase
  obtain ⟨rs, hrs⟩ := hq.exists_names
  rw [startsWith_iff_of_names (show p.components = [] ++ _ from hsegments) hrs]
  -- Both canonical forms begin with the names of the base.
  have hforms : ∀ {s d}, (base.join p).canonical cwd = .ok s → (base.join q).canonical cwd = .ok d →
      ((ofString s).startsWith (ofString d) = true ↔ rs <+: segments.map Utf8.encode) := by
    intro s d hs hd
    rw [startsWith_iff_of_names (components_of_canonical (absoluteNames_join hms hp hsegments) hs)
      (components_of_canonical (absoluteNames_join hms hq hrs) hd), List.prefix_append_right_inj]
  constructor
  · rintro ⟨s, d, hs, hd, hstarts⟩
    exact (hforms hs hd).1 hstarts
  · intro hprefix
    obtain ⟨front, -, rfl⟩ := List.prefix_map_iff.1 hprefix
    obtain ⟨s, hs⟩ := exists_canonical_join hbase hp hsegments
    obtain ⟨d, hd⟩ := exists_canonical_join hbase hq hrs
    exact ⟨s, d, hs, hd, (hforms hs hd).2 hprefix⟩

/-- Paths that go down from a base to the same place have the same components. -/
theorem components_eq_of_canonical {cwd : Except OsError Path} {base : Path} {c : String}
    (hbase : base.canonical cwd = .ok c) {p q : Path} (hp : p.GoesDown) (hq : q.GoesDown)
    {d : String} (hpd : (base.join p).canonical cwd = .ok d)
    (hqd : (base.join q).canonical cwd = .ok d) :
    p.components = q.components := by
  obtain ⟨ms, hms, -, -⟩ := exists_names_of_canonical hbase
  obtain ⟨ns, hns⟩ := hp.exists_names
  obtain ⟨rs, hrs⟩ := hq.exists_names
  have hsame := (components_of_canonical (absoluteNames_join hms hp hns) hpd).symm.trans
    (components_of_canonical (absoluteNames_join hms hq hrs) hqd)
  rw [List.map_append, List.map_append] at hsame
  rw [hns, hrs]
  exact List.append_cancel_left (List.append_cancel_left hsame)

end Path

namespace Filter

/-! ### Rules -/

/-- **A rule that excludes a path** covers what begins with its components. -/
theorem level_denyPath (r p : Path) (isDirectory : Bool) :
    (empty.denyPath r).level p isDirectory = if p.startsWith r then .deny else .allow := by
  have hexcluded : (empty.denyPath r).isExcluded p = p.startsWith r := Bool.or_false _
  have hrest : (empty.denyPath r).isIncluded p = true ∧ (empty.denyPath r).hasFileRules = false ∧
    (empty.denyPath r).extensionMatches p = true ∧ (empty.denyPath r).fileNameMatches p = true :=
    ⟨rfl, rfl, rfl, rfl⟩
  obtain ⟨hincluded, hrules, hextension, hname⟩ := hrest
  rw [level, hexcluded, hincluded, hrules, hextension, hname]
  cases isDirectory <;> rfl

/-- **A rule that includes a path** covers what begins with its components, and a directory is gone
through on the way there. -/
theorem level_allowPath (r p : Path) (isDirectory : Bool) :
    (empty.allowPath r).level p isDirectory =
      if p.startsWith r then .allow
      else if isDirectory && r.startsWith p then .traverse
      else .deny := by
  have hincluded : (empty.allowPath r).isIncluded p = p.startsWith r := Bool.or_false _
  have hleads : (empty.allowPath r).leadsToRoot p = r.startsWith p := Bool.or_false _
  rw [level, hincluded, hleads]
  cases isDirectory <;> rfl

/-- **A rule about a path that goes down covers what lies at it or below.** The canonical form of
what a walk has come to is at the canonical form of the rule or below it, when both are joined on to
the base, if and only if the rule applies: it leaves out a path of either kind if it excludes, and
it is the only one to let a file through if it includes. So two of these rules that come to the same
canonical form are one rule. -/
theorem level_iff_isWithin {cwd : Except OsError Path} {base : Path} {c : String}
    (hbase : base.canonical cwd = .ok c) {r : Path} (hr : r.GoesDown) {segments : List String}
    (hsegments : ∀ s ∈ segments, Path.IsSegment s) :
    let p := Path.ofNames (segments.map Utf8.encode)
    (∀ isDirectory, (empty.denyPath r).level p isDirectory = .deny ↔
      Path.IsWithin cwd (base.join p) (base.join r)) ∧
      ((empty.allowPath r).level p false = .allow ↔ Path.IsWithin cwd (base.join p) (base.join r)) ∧
      ∀ r' d, r'.GoesDown → (base.join r).canonical cwd = .ok d →
        (base.join r').canonical cwd = .ok d →
        (empty.denyPath r).level = (empty.denyPath r').level ∧
          (empty.allowPath r).level = (empty.allowPath r').level := by
  intro p
  have hnames : ∀ n ∈ segments.map Utf8.encode, n.IsName :=
    List.forall_mem_map.2 fun s hs => Path.isSegment_iff_isName.1 (hsegments s hs)
  have hcover : Path.IsWithin cwd (base.join p) (base.join r) ↔ p.startsWith r = true :=
    Path.isWithin_join_iff hbase (Path.goesDown_ofNames hnames) (Path.components_ofNames hnames) hr
  refine ⟨fun isDirectory => ?_, ?_, fun r' d hr' hd hd' => ?_⟩
  · rw [hcover, level_denyPath]
    cases p.startsWith r <;> simp
  · rw [hcover, level_allowPath]
    cases p.startsWith r <;> simp
  · have hsame := Path.components_eq_of_canonical hbase hr hr' hd hd'
    constructor
    · funext q isDirectory
      rw [level_denyPath, level_denyPath, Path.startsWith, hsame]
      rfl
    · funext q isDirectory
      rw [level_allowPath, level_allowPath]
      simp only [Path.startsWith, hsame]
      rfl

/-- A rule whose slashes are doubled and which has a `.` inside and a slash at its end. -/
theorem level_iff_isWithin_of_slashes :
    let base := Path.ofString "/b"
    let r := Path.ofString "lib//./src/."
    let p := Path.ofNames (["lib", "src", "x"].map Utf8.encode)
    r.GoesDown ∧ (empty.denyPath r).level p true = .deny ∧
      (empty.allowPath r).level p false = .allow ∧
      Path.IsWithin (.error .notFound) (base.join p) (base.join r) ∧
      (empty.denyPath r).level = (empty.denyPath (.ofString "lib/src")).level := by
  intro base r p
  have hbase : base.canonical (.error .notFound) = .ok "/b" := by decide +kernel
  have hr : r.GoesDown := by decide +kernel
  obtain ⟨hdeny, hallow, hone⟩ := level_iff_isWithin hbase hr
    (show ∀ s ∈ ["lib", "src", "x"], Path.IsSegment s by decide +kernel)
  have hwithin : Path.IsWithin (.error .notFound) (base.join p) (base.join r) :=
    (hdeny true).1 (by decide +kernel)
  exact ⟨hr, (hdeny true).2 hwithin, hallow.2 hwithin, hwithin, (hone (.ofString "lib/src")
    "/b/lib/src" (by decide +kernel) (by decide +kernel) (by decide +kernel)).1⟩

/-- A rule whose path does not go down covers nothing that does. -/
theorem level_of_not_goesDown {r : Path} (hr : ¬ r.GoesDown) {p : Path} (hp : p.GoesDown) :
    (∀ isDirectory, (empty.denyPath r).level p isDirectory = .allow) ∧
      (empty.allowPath r).level p false = .deny := by
  have hstarts : ¬ p.startsWith r = true := fun h => hr (hp.of_startsWith h)
  refine ⟨fun isDirectory => ?_, ?_⟩
  · rw [level_denyPath, if_neg hstarts]
  · rw [level_allowPath, if_neg hstarts]
    rfl

/-- **Rules depend on how they are spelled.** Of two rules with one canonical form, one that goes
down and one that does not, the former applies to all that lies at that form or below, and the
latter to nothing of it. -/
theorem level_of_other_spelling {cwd : Except OsError Path} {base : Path} {c : String}
    (hbase : base.canonical cwd = .ok c) {r r' : Path} (hr : r.GoesDown) (hr' : ¬ r'.GoesDown)
    {d : String} (hd : (base.join r).canonical cwd = .ok d)
    (hd' : (base.join r').canonical cwd = .ok d) {segments : List String}
    (hsegments : ∀ s ∈ segments, Path.IsSegment s) :
    let p := Path.ofNames (segments.map Utf8.encode)
    Path.IsWithin cwd (base.join p) (base.join r') →
      (∀ isDirectory, (empty.denyPath r).level p isDirectory = .deny ∧
        (empty.denyPath r').level p isDirectory = .allow) ∧
      (empty.allowPath r).level p false = .allow ∧ (empty.allowPath r').level p false = .deny := by
  rintro p ⟨s, e, hs, he, hstarts⟩
  obtain rfl : d = e := Except.ok.inj (hd'.symm.trans he)
  have hnames : ∀ n ∈ segments.map Utf8.encode, n.IsName :=
    List.forall_mem_map.2 fun s hs => Path.isSegment_iff_isName.1 (hsegments s hs)
  have hp : p.GoesDown := Path.goesDown_ofNames hnames
  have hcovered : p.startsWith r = true :=
    (Path.isWithin_join_iff hbase hp (Path.components_ofNames hnames) hr).1 ⟨s, d, hs, hd, hstarts⟩
  obtain ⟨hexcluded, hincluded⟩ := level_of_not_goesDown hr' hp
  refine ⟨fun isDirectory => ⟨?_, hexcluded isDirectory⟩, ?_, hincluded⟩
  · rw [level_denyPath, if_pos hcovered]
  · rw [level_allowPath, if_pos hcovered]

example : (empty.denyPath (.ofString "src")).level (.ofString "src") true = .deny ∧
    (empty.denyPath (.ofString "./src")).level (.ofString "src") true = .allow ∧
    (empty.denyPath (.ofString "lib/../src")).level (.ofString "src") true = .allow := by
  decide

end Filter

end SnapStore
