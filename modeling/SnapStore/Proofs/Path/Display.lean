import SnapStore.Proofs.Path.Canonical

/-!
# Relative paths as texts

A relative path is shown with slashes between its segments, and what is shown can be cut into
segments again. They are the same if each of them can stand between two slashes, and if not then
they cannot be (`SnapStore.RelativePath.ofPath_ofString_display_iff`). There are two ways to make a
relative path, and in either way it has only such segments. So it comes back from its text
(`SnapStore.RelativePath.ofPath_display`).

The two are not the same, since `SnapStore.RelativePath.ofSegments` refuses a backslash. It is
`SnapStore.RelativePath.ofPath` that gives whatever comes back. That refuses a path if there is a
`..` or a name that is no text among its components, and on no other ground
(`SnapStore.RelativePath.exists_ofPath_iff`).
-/

namespace SnapStore.RelativePath

open SnapStore.Path (IsSegment)

variable {isFile : Bool} {p : Path} {r : RelativePath}

/-! ### Segments of relative paths that are made -/

theorem forall_isSegment_of_ofPath (h : ofPath isFile p = .ok r) :
    ∀ s ∈ r.segments, IsSegment s :=
  fun _ hs => Path.isSegment_iff_isName.2 (isName_of_ofPath h _ (List.mem_map_of_mem hs))

/-- The segments that are accepted are fewer: they have no backslash. -/
theorem forall_isSegment_of_ofSegments {segments : List String}
    (h : ofSegments isFile segments = .ok r) : ∀ s ∈ r.segments, IsSegment s := by
  obtain ⟨rfl, hplain⟩ := isPlain_of_ofSegments h
  intro s hs
  obtain ⟨hempty, hdot, hdots, hslash, -⟩ := hplain s hs
  exact ⟨hempty, hdot, hdots, hslash⟩

/-! ### Reading what is shown -/

/-- **A relative path comes back from its text if its segments can stand between slashes**, and
only then. -/
theorem ofPath_ofString_display_iff :
    ofPath r.isFile (.ofString r.display) = .ok r ↔ ∀ s ∈ r.segments, IsSegment s := by
  refine ⟨forall_isSegment_of_ofPath, fun h => ?_⟩
  rw [ofString_display]
  exact ofPath_ofNames fun s hs => Path.isSegment_iff_isName.1 (h s hs)

/-! ### Paths that are refused -/

/-- A relative path can be made if no `..` is in the way and the names are text. -/
theorem exists_ofPath_iff_componentNames :
    (∃ r, ofPath isFile p = .ok r) ↔
      .parent ∉ p.components ∧ ∀ n ∈ p.componentNames, ∃ s, Utf8.encode s = n := by
  rw [← Utf8.exists_map_encode_iff]
  constructor
  · rintro ⟨r, h⟩
    obtain ⟨-, hparent, hnames⟩ := ofPath_eq_ok_iff.1 h
    exact ⟨hparent, r.segments, hnames.symm⟩
  · rintro ⟨hparent, segments, hnames⟩
    exact ⟨⟨isFile, segments⟩, ofPath_eq_ok_iff.2 ⟨rfl, hparent, hnames.symm⟩⟩

/-- **A path becomes a relative path if each component can be kept**: it is no `..` and is text. -/
theorem exists_ofPath_iff :
    (∃ r, ofPath isFile p = .ok r) ↔
      ∀ c ∈ p.components, c ≠ .parent ∧ ∃ s, c.bytes = Utf8.encode s := by
  rw [exists_ofPath_iff_componentNames]
  constructor
  · rintro ⟨hparent, htext⟩ c hc
    refine ⟨fun h => hparent (h ▸ hc), ?_⟩
    cases c with
    | root => exact ⟨"", rfl⟩
    | current => exact ⟨".", rfl⟩
    | parent => exact absurd hc hparent
    | name n =>
      obtain ⟨s, hs⟩ := htext n (Path.mem_componentNames.2 hc)
      exact ⟨s, hs.symm⟩
  · intro h
    refine ⟨fun hparent => (h _ hparent).1 rfl, fun n hn => ?_⟩
    obtain ⟨-, s, hs⟩ := h _ (Path.mem_componentNames.1 hn)
    exact ⟨s, hs.symm⟩

/-- **Relative paths survive their textual form.** Whatever is made of segments or of a path comes
back from what is shown of it. A path is refused if and only if one of its components is `..` or no
text; and if it is not, then each segment of what is made of it can stand between two slashes. -/
theorem ofPath_display :
    (∀ isFile r,
      (∃ segments, ofSegments isFile segments = .ok r) ∨ (∃ p, ofPath isFile p = .ok r) →
        ofPath isFile (.ofString r.display) = .ok r) ∧
      ∀ isFile p,
        ((∃ e, ofPath isFile p = .error e) ↔
          ∃ c ∈ p.components, c = .parent ∨ ∀ s, c.bytes ≠ Utf8.encode s) ∧
        ∀ r, ofPath isFile p = .ok r → ∀ s ∈ r.segments, IsSegment s := by
  refine ⟨fun isFile r hmade => ?_, fun isFile p => ⟨?_, fun r => forall_isSegment_of_ofPath⟩⟩
  · obtain ⟨rfl, hsegments⟩ : r.isFile = isFile ∧ ∀ s ∈ r.segments, IsSegment s := by
      rcases hmade with ⟨segments, h⟩ | ⟨p, h⟩
      · have hfile : r.isFile = isFile := by rw [(isPlain_of_ofSegments h).1]
        exact ⟨hfile, forall_isSegment_of_ofSegments h⟩
      · exact ⟨(ofPath_eq_ok_iff.1 h).1, forall_isSegment_of_ofPath h⟩
    exact ofPath_ofString_display_iff.2 hsegments
  · have hrefused : (∃ e, ofPath isFile p = .error e) ↔ ¬ ∃ r, ofPath isFile p = .ok r := by
      cases ofPath isFile p <;> simp
    rw [hrefused, exists_ofPath_iff]
    simp only [not_forall, not_and_or, not_not, not_exists, exists_prop]

/-- A backslash in a name comes back, and so does the relative path without segments. A `..` is
refused even if it stays below the base, and so is a name that is no text. -/
theorem ofPath_display_of_backslash :
    let p := Path.ofString "/.//a/.b\\c/./"
    let r : RelativePath := ⟨true, ["a", ".b\\c"]⟩
    let base : RelativePath := ⟨false, []⟩
    let climbing := Path.ofString "a/.."
    let bad : Path := ⟨Utf8.encode "a/" ++ [0xff]⟩
    (ofPath true p = .ok r ∧ (∀ s ∈ r.segments, IsSegment s) ∧
        ofPath true (.ofString r.display) = .ok r) ∧
      (ofSegments false [] = .ok base ∧ ofPath false (.ofString base.display) = .ok base) ∧
      (∃ e, ofPath true climbing = .error e) ∧ ∃ e, ofPath true bad = .error e := by
  intro p r base climbing bad
  have hp : ofPath true p = .ok r := by decide
  have hbase : ofSegments false [] = .ok base := rfl
  refine ⟨⟨hp, (ofPath_display.2 true p).2 r hp, ofPath_display.1 true r (Or.inr ⟨p, hp⟩)⟩,
    ⟨hbase, ofPath_display.1 false base (Or.inl ⟨[], hbase⟩)⟩, ?_, ?_⟩
  · exact (ofPath_display.2 true climbing).1.2 ⟨.parent, by decide, Or.inl rfl⟩
  · refine (ofPath_display.2 true bad).1.2 ⟨.name [0xff], by decide, Or.inr fun s hs => ?_⟩
    have hrefused : Utf8.decode? [0xff] = none := by decide
    exact Option.some_ne_none s ((Utf8.decode?_eq_some_iff.2 hs).symm.trans hrefused)

end SnapStore.RelativePath
