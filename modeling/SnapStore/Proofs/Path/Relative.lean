import SnapStore.Path.Relative
import SnapStore.Proofs.Path.Names

/-!
# Relative paths and the names they come from

A relative path can be made from a path if there is no `..` among the components of the path and its
names are text, and then it has these names (`SnapStore.RelativePath.ofPath_eq_ok_iff`). All that is
known of `SnapStore.RelativePath.ofPath` is taken from this.

An entry that a walk reports comes with a `SnapStore.RelativePath`, which the walk has made from the
names on the way to it. It can be made whenever the names are text
(`SnapStore.RelativePath.ofPath_ofNames`). The names can be read off it again
(`SnapStore.RelativePath.names_of_ofPath`), and so can the path through them
(`SnapStore.RelativePath.ofString_display`): what a filter is asked about an entry is what it would
be asked about the text that is shown.
-/

namespace SnapStore

/-! ### The names among components -/

/-- The name of an entry that a component is, if it is one. -/
def Component.name? : Component → Option Bytes
  | .name n => some n
  | _ => none

/-- The names among the components of a path. -/
def Path.componentNames (p : Path) : List Bytes := p.components.filterMap Component.name?

theorem Path.mem_componentNames {p : Path} {n : Bytes} :
    n ∈ p.componentNames ↔ .name n ∈ p.components := by
  rw [componentNames, List.mem_filterMap]
  constructor
  · rintro ⟨c, hc, hn⟩
    cases c <;> cases hn
    exact hc
  · exact fun h => ⟨_, h, rfl⟩

theorem Path.componentNames_ofNames {ns : List Bytes} (h : ∀ n ∈ ns, n.IsName) :
    (ofNames ns).componentNames = ns := by
  rw [componentNames, components_ofNames h, List.filterMap_map]
  exact List.filterMap_some

namespace RelativePath

/-- The names along a relative path. -/
def names (r : RelativePath) : List Bytes := r.segments.map Utf8.encode

/-! ### From names to segments and back -/

/-- The segments of some components are their names, read as text. -/
theorem segmentsOf_eq_ok_iff {p : Path} {cs : List Component} {segments : List String} :
    segmentsOf p cs = .ok segments ↔
      .parent ∉ cs ∧ cs.filterMap Component.name? = segments.map Utf8.encode := by
  induction cs generalizing segments with
  | nil => cases segments <;> simp [segmentsOf]
  | cons c cs ih =>
    cases c with
    | root =>
      rw [segmentsOf, ih, List.filterMap_cons_none rfl]
      simp
    | current =>
      rw [segmentsOf, ih, List.filterMap_cons_none rfl]
      simp
    | parent => simp [segmentsOf]
    | name n =>
      have hname : (Component.name n :: cs).filterMap Component.name? =
          n :: cs.filterMap Component.name? := rfl
      rw [hname]
      rcases segments with _ | ⟨t, segments⟩
      · rw [segmentsOf]
        cases Utf8.decode? n <;> cases segmentsOf p cs <;> simp [Except.map]
      · have hcons : segmentsOf p (.name n :: cs) = .ok (t :: segments) ↔
            Utf8.decode? n = some t ∧ segmentsOf p cs = .ok segments := by
          rw [segmentsOf]
          cases Utf8.decode? n <;> cases segmentsOf p cs <;> simp [Except.map]
        rw [hcons, Utf8.decode?_eq_some_iff, ih]
        simp [and_left_comm]

/-- **What becomes a relative path**: a path without `..` whose names are text. They become the
segments. -/
theorem ofPath_eq_ok_iff {isFile : Bool} {p : Path} {r : RelativePath} :
    ofPath isFile p = .ok r ↔
      r.isFile = isFile ∧ .parent ∉ p.components ∧ p.componentNames = r.names := by
  have hsegments : ofPath isFile p = .ok r ↔
      r.isFile = isFile ∧ segmentsOf p p.components = .ok r.segments := by
    obtain ⟨isFile', segments⟩ := r
    unfold ofPath
    cases segmentsOf p p.components <;> simp [Except.map, eq_comm]
  rw [hsegments, segmentsOf_eq_ok_iff]
  rfl

/-- **The names come back from a relative path that was made from them.** -/
theorem names_of_ofPath {isFile : Bool} {ns : List Bytes} (hns : ∀ n ∈ ns, n.IsName)
    {r : RelativePath} (h : ofPath isFile (.ofNames ns) = .ok r) :
    r.isFile = isFile ∧ r.names = ns := by
  obtain ⟨hfile, -, hnames⟩ := ofPath_eq_ok_iff.1 h
  exact ⟨hfile, hnames.symm.trans (Path.componentNames_ofNames hns)⟩

/-- Names that are text make a relative path. -/
theorem ofPath_ofNames {isFile : Bool} {segments : List String}
    (h : ∀ s ∈ segments, (Utf8.encode s).IsName) :
    ofPath isFile (.ofNames (segments.map Utf8.encode)) = .ok ⟨isFile, segments⟩ := by
  have hns : ∀ n ∈ segments.map Utf8.encode, n.IsName := List.forall_mem_map.2 h
  refine ofPath_eq_ok_iff.2 ⟨rfl, ?_, Path.componentNames_ofNames hns⟩
  rw [Path.components_ofNames hns]
  simp

/-- The names along a relative path that is made from a path are names. -/
theorem isName_of_ofPath {isFile : Bool} {p : Path} {r : RelativePath}
    (h : ofPath isFile p = .ok r) : ∀ n ∈ r.names, n.IsName := by
  obtain ⟨-, -, hnames⟩ := ofPath_eq_ok_iff.1 h
  rw [← hnames]
  exact fun n hn => Path.isName_of_mem_components (Path.mem_componentNames.1 hn)

/-! ### What is shown -/

/-- **What is shown of a relative path** is the path through its names. -/
theorem ofString_display (r : RelativePath) : Path.ofString r.display = .ofNames r.names := by
  have hencode : ∀ segments : List String,
      Utf8.encode (String.intercalate "/" segments) = Bytes.joined (segments.map Utf8.encode) := by
    intro segments
    induction segments with
    | nil => rfl
    | cons s segments ih =>
      cases segments with
      | nil =>
        rw [String.intercalate_singleton]
        rfl
      | cons t segments =>
        rw [String.intercalate_cons_cons, Utf8.encode_append, Utf8.encode_append, ih]
        exact List.append_assoc _ _ _
  exact congrArg Path.mk (hencode r.segments)

end RelativePath

end SnapStore
