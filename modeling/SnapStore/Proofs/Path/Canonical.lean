import SnapStore.Proofs.Path.Relative
import SnapStore.Proofs.Path.Text

/-!
# Canonical paths as texts

What `SnapStore.Path.canonical` gives is a text: a slash, and after it segments with slashes between
them (`SnapStore.Path.IsCanonicalText`). No segment is empty, a dot or two dots, and there need not
be any. Every text of this form is its own canonical form, and there are no others that are
(`SnapStore.Path.isCanonicalText_iff`).

A canonical form can stand in for the path whose form it is wherever something is joined on to it
(`SnapStore.Path.canonical_compositional`): what is joined on is resolved from the names of the
canonical form, which are all that is left of the path by then
(`SnapStore.Path.absoluteNames_child_eq`). A `..` can take away a name that is no text, so that the
longer path may have a canonical form where a shorter one has none; but that name must have been
joined on as well, since the canonical form of the path has only names that are text.
-/

namespace SnapStore

open Bytes (slash dot)

namespace Path

/-! ### Segments -/

/-- Whether a text can stand between two slashes of a canonical path. -/
def IsSegment (s : String) : Prop := s ≠ "" ∧ s ≠ "." ∧ s ≠ ".." ∧ '/' ∉ s.toList

instance (s : String) : Decidable (IsSegment s) := by
  unfold IsSegment; infer_instance

/-- **A segment is a name that is text.** -/
theorem isSegment_iff_isName {s : String} : IsSegment s ↔ (Utf8.encode s).IsName := by
  have hne : ∀ t : String, Utf8.encode s ≠ Utf8.encode t ↔ s ≠ t := fun t =>
    not_congr ⟨fun h => Utf8.encode_injective h, congrArg _⟩
  have hempty : Utf8.encode s ≠ [] ↔ s ≠ "" := hne ""
  have hdot : Utf8.encode s ≠ [dot] ↔ s ≠ "." := hne "."
  have hdotdot : Utf8.encode s ≠ [dot, dot] ↔ s ≠ ".." := hne ".."
  unfold IsSegment Bytes.IsName
  rw [hempty, hdot, hdotdot, Utf8.slash_mem_encode_iff]
  tauto

/-- Names that make up a text are texts, and so are the slashes between them. -/
theorem exists_segments_of_joined {s : String} {ns : List Bytes}
    (h : Utf8.encode s = Bytes.joined ns) :
    ∃ segments : List String,
      segments.map Utf8.encode = ns ∧ s = String.intercalate "/" segments := by
  induction ns generalizing s with
  | nil => exact ⟨[], rfl, Utf8.encode_injective h⟩
  | cons n ns ih =>
    cases ns with
    | nil => exact ⟨[s], congrArg (fun n => [n]) h, String.intercalate_singleton.symm⟩
    | cons m ns =>
      -- The text is cut at the first slash, and the induction is on the names after it.
      obtain ⟨first, rest, rfl, hfirst, hrest⟩ := Utf8.exists_eq_append_of_encode Utf8.encode_slash
        (h : Utf8.encode s = n ++ slash :: Bytes.joined (m :: ns))
      obtain ⟨segments, hsegments, hs⟩ := ih hrest
      obtain ⟨next, segments, rfl⟩ : ∃ next tail, segments = next :: tail :=
        List.exists_cons_of_ne_nil fun hnil => by simp [hnil] at hsegments
      refine ⟨first :: next :: segments, by rw [List.map_cons, hfirst, hsegments], ?_⟩
      rw [String.intercalate_cons_cons, hs]

/-! ### The form of a canonical path -/

/-- **The form of a canonical path**: a slash, and then segments with slashes between them. -/
def IsCanonicalText (c : String) : Prop :=
  ∃ segments : List String, (∀ s ∈ segments, IsSegment s) ∧
    c = "/" ++ String.intercalate "/" segments

/-- The path through some segments from the root. -/
theorem ofString_slash_intercalate (segments : List String) :
    ofString ("/" ++ String.intercalate "/" segments) =
      absoluteOfNames (segments.map Utf8.encode) := by
  have hdisplay := congrArg bytes (RelativePath.ofString_display ⟨false, segments⟩)
  change Utf8.encode (String.intercalate "/" segments) = Bytes.joined _ at hdisplay
  rw [ofString, Utf8.encode_append, hdisplay]
  rfl

/-- What has the form of a canonical path is its own canonical form. -/
theorem IsCanonicalText.canonical_eq {c : String} (h : IsCanonicalText c)
    (cwd : Except OsError Path) : (ofString c).canonical cwd = .ok c := by
  obtain ⟨segments, hsegments, rfl⟩ := h
  have hpath := ofString_slash_intercalate segments
  have hnames : ∀ n ∈ segments.map Utf8.encode, n.IsName :=
    List.forall_mem_map.2 fun s hs => isSegment_iff_isName.1 (hsegments s hs)
  rw [Path.canonical_eq, hpath, absoluteNames_absoluteOfNames cwd hnames]
  change textOfNames _ = _
  rw [textOfNames, ← hpath, toString?_ofString]

/-- **Canonical forms have the form of canonical paths.** -/
theorem isCanonicalText_of_canonical {cwd : Except OsError Path} {p : Path} {c : String}
    (h : p.canonical cwd = .ok c) : IsCanonicalText c := by
  obtain ⟨ns, -, hnames, hc⟩ := exists_names_of_canonical h
  have hbytes : Utf8.encode c = [] ++ slash :: Bytes.joined ns := congrArg bytes hc
  obtain ⟨start, rest, rfl, hstart, hrest⟩ :=
    Utf8.exists_eq_append_of_encode Utf8.encode_slash hbytes
  obtain ⟨segments, rfl, rfl⟩ := exists_segments_of_joined hrest
  obtain rfl : start = "" := Utf8.encode_injective hstart
  refine ⟨segments, fun s hs => ?_, by rw [String.empty_append]⟩
  exact isSegment_iff_isName.2 (hnames _ (List.mem_map_of_mem hs))

/-- **Texts of this form are those that are their own canonical form**, whatever the current
directory. -/
theorem isCanonicalText_iff {c : String} :
    IsCanonicalText c ↔ ∀ cwd : Except OsError Path, (ofString c).canonical cwd = .ok c :=
  ⟨IsCanonicalText.canonical_eq, fun h => isCanonicalText_of_canonical (h (.error .notFound))⟩

/-! ### Joining paths -/

/-- The path `q`, relative to `p` unless it is absolute. -/
def join (p q : Path) : Path := if q.isAbsolute then q else p.child q.bytes

/-- An absolute path has its canonical form whatever the current directory. -/
theorem canonical_of_isAbsolute {p : Path} (hp : p.isAbsolute = true)
    (cwd cwd' : Except OsError Path) : p.canonical cwd = p.canonical cwd' := by
  unfold canonical
  rw [if_pos hp, if_pos hp]

/-- Two paths with the same names are the same to what is joined on to them. -/
theorem canonical_join {cwd cwd' : Except OsError Path} {p p' : Path} {ns : List Bytes}
    (h : absoluteNames cwd p = .ok ns) (h' : absoluteNames cwd' p' = .ok ns) (q : Path) :
    (p.join q).canonical cwd = (p'.join q).canonical cwd' := by
  unfold join
  by_cases hq : q.isAbsolute = true
  · rw [if_pos hq, if_pos hq]
    exact canonical_of_isAbsolute hq cwd cwd'
  · rw [if_neg hq, if_neg hq, canonical_eq, canonical_eq, absoluteNames_child_eq h,
      absoluteNames_child_eq h']

/-- **Canonical paths are a compositional normal form.** A canonical form is a slash and segments
after it; it is its own canonical form, as is every text that looks so and no other text; and it can
stand in for the path in whatever is joined on, whether the longer path has a canonical form or
not. -/
theorem canonical_compositional {cwd : Except OsError Path} {p : Path} {c : String}
    (h : p.canonical cwd = .ok c) :
    IsCanonicalText c ∧ (∀ cwd', (ofString c).canonical cwd' = .ok c) ∧
      (∀ s, IsCanonicalText s ↔ ∀ cwd', (ofString s).canonical cwd' = .ok s) ∧
      ∀ cwd' q, (p.join q).canonical cwd = ((ofString c).join q).canonical cwd' := by
  obtain ⟨ns, hns, hnames, hc⟩ := exists_names_of_canonical h
  have hform := isCanonicalText_of_canonical h
  refine ⟨hform, hform.canonical_eq, fun _ => isCanonicalText_iff, fun cwd' q => ?_⟩
  exact canonical_join hns (hc ▸ absoluteNames_absoluteOfNames cwd' hnames) q

/-- What is joined on may be no text, and the longer path has a canonical form only if that is taken
away again. -/
theorem canonical_compositional_of_not_text :
    let cwd : Except OsError Path := .ok (ofString "/home")
    let p := ofString "..//./a/../b/"
    let bad : Path := ⟨[0xff]⟩
    let mended : Path := ⟨0xff :: Utf8.encode "/..//x/"⟩
    p.canonical cwd = .ok "/b" ∧ (∀ cwd', (ofString "/b").canonical cwd' = .ok "/b") ∧
      (p.join bad).canonical cwd = ((ofString "/b").join bad).canonical cwd ∧
      ((p.join bad).canonical cwd).toBool = false ∧
      (p.join mended).canonical cwd = ((ofString "/b").join mended).canonical cwd ∧
      (p.join mended).canonical cwd = .ok "/b/x" := by
  intro cwd p bad mended
  have hp : p.canonical cwd = .ok "/b" := by decide +kernel
  obtain ⟨-, hfixed, -, hjoin⟩ := canonical_compositional hp
  exact ⟨hp, hfixed, hjoin cwd bad, by decide +kernel, hjoin cwd mended, by decide +kernel⟩

end Path

end SnapStore
