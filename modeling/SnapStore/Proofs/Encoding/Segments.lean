import Mathlib.Data.List.Basic
import SnapStore.Proofs.Encoding.Snapshot
import SnapStore.Proofs.Path.Canonical
import SnapStore.Snapshot.Strategy
import SnapStore.Tree.Memory

/-!
# Segments that are read

A relative path can be read from a value, alone or as a part of an entry or of a tree
(`SnapStore.RelativePath.IsRead`). Reading refuses segments that are `.` or `..`, and no others
(`SnapStore.RelativePath.isRead_iff`): an empty segment and one with a slash pass, which no other
way to make a relative path lets through.

What is shown of a relative path are its pieces, that is, what lies between slashes
(`SnapStore.RelativePath.pieces`). A segment with a slash in it gives several, and no segment is the
same as an empty one. So different paths can be shown alike, and what is shown of two of them tells
them as far as their pieces go (`SnapStore.RelativePath.display_of_read`).
-/

namespace SnapStore

open MemoryTree (cut)
open SnapStore.Path (IsSegment)

/-! ### Texts in pieces -/

theorem MemoryTree.cut_injective {s t : String} (h : cut s = cut t) : s = t := by
  have hpieces := List.map_injective_iff.2 (fun _ _ => String.ofList_injective) h
  rw [← String.toList_inj, ← Pieces.joined_split '/' s.toList, hpieces, Pieces.joined_split]

theorem MemoryTree.cut_append_slash (s t : String) : cut (s ++ "/" ++ t) = cut s ++ cut t := by
  have hslash : (s ++ "/" ++ t).toList = s.toList ++ '/' :: t.toList := by simp
  rw [cut, hslash, Pieces.split_append, List.map_append]
  rfl

theorem MemoryTree.cut_of_notMem {s : String} (h : '/' ∉ s.toList) : cut s = [s] := by
  rw [cut, Pieces.split_of_notMem h, List.map_singleton, String.ofList_toList]

namespace RelativePath

/-- What is shown between slashes. -/
def pieces (r : RelativePath) : List String :=
  if r.segments = [] then [""] else r.segments.flatMap cut

theorem cut_display (r : RelativePath) : cut r.display = r.pieces := by
  obtain ⟨isFile, segments⟩ := r
  change cut (String.intercalate "/" segments) =
    if segments = [] then [""] else segments.flatMap cut
  induction segments with
  | nil => rfl
  | cons s segments ih =>
    cases segments with
    | nil => simp
    | cons t segments =>
      rw [if_neg (List.cons_ne_nil _ _)] at ih ⊢
      rw [String.intercalate_cons_cons, MemoryTree.cut_append_slash, ih]
      rfl

/-- **What is shown tells the pieces**, and nothing more. -/
theorem display_eq_iff {r r' : RelativePath} : r.display = r'.display ↔ r.pieces = r'.pieces := by
  rw [← cut_display, ← cut_display]
  exact ⟨congrArg cut, MemoryTree.cut_injective⟩

/-- Whether each segment is one piece, and not an empty one. -/
def IsSplit (r : RelativePath) : Prop := ∀ s ∈ r.segments, s ≠ "" ∧ '/' ∉ s.toList

instance (r : RelativePath) : Decidable r.IsSplit := inferInstanceAs (Decidable (∀ _ ∈ _, _))

theorem IsSplit.flatMap_cut {r : RelativePath} (h : r.IsSplit) :
    r.segments.flatMap cut = r.segments := by
  rw [List.flatMap_congr fun s hs => MemoryTree.cut_of_notMem (h s hs).2, List.flatMap_singleton']

theorem IsSplit.pieces_eq {r : RelativePath} (h : r.IsSplit) :
    r.pieces = if r.segments = [] then [""] else r.segments := by
  rw [pieces, h.flatMap_cut]

/-- Pieces tell segments that are split. -/
theorem IsSplit.segments_eq {r r' : RelativePath} (h : r.IsSplit) (h' : r'.IsSplit)
    (hpieces : r.pieces = r'.pieces) : r.segments = r'.segments := by
  have hempty : ∀ {r : RelativePath}, r.IsSplit → r.segments ≠ [""] := by
    intro r hr hsegments
    exact (hr "" (by rw [hsegments]; exact List.mem_singleton_self _)).1 rfl
  rw [h.pieces_eq, h'.pieces_eq] at hpieces
  split_ifs at hpieces with hnil hnil' hnil'
  · rw [hnil, hnil']
  · exact absurd hpieces.symm (hempty h')
  · exact absurd hpieces (hempty h)
  · exact hpieces

/-! ### What can be read -/

/-- Whether a relative path can be read, alone or as a part of something else. -/
inductive IsRead : RelativePath → Prop
  /-- It is read by itself. -/
  | alone {v : Value} {r : RelativePath} (h : ofValue v = .ok r) : IsRead r
  /-- It belongs to an entry that is read. -/
  | ofEntry {v : Value} {e : Entry} {r : RelativePath} (h : Entry.ofValue v = .ok e)
    (hr : r ∈ e.relative?) : IsRead r
  /-- It belongs to an entry of a tree that is read. -/
  | ofTree {v : Value} {t : TreeSnapshot} {e : Entry} {r : RelativePath}
    (h : TreeSnapshot.ofValue v = .ok t) (he : e ∈ t.entries) (hr : r ∈ e.relative?) : IsRead r

/-- **What can be read are the paths without dots.** -/
theorem isRead_iff {r : RelativePath} : r.IsRead ↔ r.IsUndotted := by
  constructor
  · rintro (h | ⟨h, hr⟩ | ⟨h, he, hr⟩)
    · exact isUndotted_of_ofValue _ _ h
    · exact Entry.isUndotted_of_ofValue _ _ h _ hr
    · exact TreeSnapshot.isUndotted_of_ofValue _ _ h _ he _ hr
  · exact fun h => .alone (ofValue_toValue h)

/-- What is read is made of names as far as it is split. -/
theorem IsRead.forall_isSegment_iff {r : RelativePath} (h : r.IsRead) :
    (∀ s ∈ r.segments, IsSegment s) ↔ r.IsSplit := by
  obtain ⟨hdot, hdots⟩ := isRead_iff.1 h
  refine forall₂_congr fun s hs => ?_
  have hne : s ≠ "." := fun h => hdot (h ▸ hs)
  have hne' : s ≠ ".." := fun h => hdots (h ▸ hs)
  simp [IsSegment, hne, hne']

end RelativePath

/-! ### What is shown of entries -/

/-- An entry that was found at a relative path, below a root. -/
inductive Entry.IsFoundAt (r : RelativePath) : Entry → Prop
  /-- It is a file. -/
  | file (path : String) (snapshot : FileSnapshot) : IsFoundAt r (.file path r false snapshot)
  /-- It is a directory. -/
  | directory (path : String) : IsFoundAt r (.directory path r false)

theorem Entry.IsFoundAt.apply_relative {r : RelativePath} {e : Entry} (h : e.IsFoundAt r) :
    Normalization.relative.apply e = some r.display := by
  cases h <;> rfl

/-- **What is read as a relative path, and what is shown of it.** It can have any segments but `.`
and `..`, also as a part of an entry or of a tree. Two of them are shown alike if and only if they
have the same pieces, and so are two entries found there if their relative paths count. If each
segment is one piece then the paths are told by what is shown. -/
theorem RelativePath.display_of_read (r r' : RelativePath) :
    (r.IsRead ↔ "." ∉ r.segments ∧ ".." ∉ r.segments) ∧
      (∀ e : Entry, (∃ v, Entry.ofValue v = .ok e) ↔ e.IsUndotted) ∧
      (∀ t : TreeSnapshot, (∃ v, TreeSnapshot.ofValue v = .ok t) ↔ t.IsUndotted) ∧
      (r.IsRead → r'.IsRead → r.isFile = r'.isFile →
        ((∀ s ∈ r.segments, IsSegment s) ↔ r.IsSplit) ∧
        (r.display = r'.display ↔ r.pieces = r'.pieces) ∧
        (∀ e e' : Entry, e.IsFoundAt r → e'.IsFoundAt r' →
          (Normalization.relative.apply e = Normalization.relative.apply e' ↔
            r.pieces = r'.pieces)) ∧
        (r.IsSplit → r'.IsSplit → r.display = r'.display → r = r')) := by
  refine ⟨isRead_iff, fun e => ⟨fun ⟨v, h⟩ => Entry.isUndotted_of_ofValue v e h, fun h =>
    ⟨_, Entry.ofValue_toValue h⟩⟩, fun t => ⟨fun ⟨v, h⟩ => TreeSnapshot.isUndotted_of_ofValue v t h,
    fun h => ⟨_, TreeSnapshot.ofValue_toValue h⟩⟩, fun hr hr' hflag => ?_⟩
  refine ⟨hr.forall_isSegment_iff, display_eq_iff, fun e e' he he' => ?_, fun h h' hdisplay => ?_⟩
  · rw [he.apply_relative, he'.apply_relative, Option.some_inj]
    exact display_eq_iff
  · have hsegments := h.segments_eq h' (display_eq_iff.1 hdisplay)
    obtain ⟨isFile, segments⟩ := r
    obtain ⟨isFile', segments'⟩ := r'
    exact congrArg₂ mk hflag hsegments

/-- One segment with a slash is shown as two segments are, by itself and in entries; a backslash is
a character like others. -/
theorem RelativePath.display_of_read_of_slash :
    let v := Value.object [("is_file", .bool true), ("segments", .array [.string "a/b"])]
    let w := Value.array [.bool true, .array [.string "a", .string "b"]]
    let p : RelativePath := ⟨true, ["a/b"]⟩
    let q : RelativePath := ⟨true, ["a", "b"]⟩
    let r : RelativePath := ⟨true, ["a\\b"]⟩
    let s : FileSnapshot := ⟨.ofMessage [], ""⟩
    (ofValue v = .ok p ∧ ofValue w = .ok q ∧ r.IsRead) ∧ ¬ (∀ s ∈ p.segments, IsSegment s) ∧
      (p ≠ q ∧ p.display = q.display ∧
        Normalization.relative.apply (.file "/d/a/b" p false s) =
          Normalization.relative.apply (.file "/e/a/b" q false s)) ∧ q.display ≠ r.display := by
  intro v w p q r s
  have hv : ofValue v = .ok p := by rfl
  have hw : ofValue w = .ok q := by rfl
  have hr : r.IsRead := (display_of_read r q).1.2 (by decide)
  have hpieces : p.pieces = q.pieces := by decide
  obtain ⟨-, -, -, hshown⟩ := display_of_read p q
  obtain ⟨hsegments, hdisplay, hentries, -⟩ := hshown (.alone hv) (.alone hw) rfl
  obtain ⟨-, -, -, hshown'⟩ := display_of_read q r
  obtain ⟨-, -, -, htold⟩ := hshown' (.alone hw) hr rfl
  refine ⟨⟨hv, hw, hr⟩, fun hall => ?_, ⟨by decide, hdisplay.2 hpieces, ?_⟩, fun hsame => ?_⟩
  · exact absurd (hsegments.1 hall) (by decide)
  · exact (hentries _ _ (.file _ s) (.file _ s)).2 hpieces
  · exact absurd (htold (by decide) (by decide) hsame) (by decide)

end SnapStore
