import Mathlib.Data.List.Basic
import SnapStore.Proofs.Tree.Cover
import SnapStore.Tree.Memory

/-!
# What a tree in memory reports

A tree in memory holds files only, and its directories come up as its files do: each is reported
before the first file below it. `SnapStore.MemoryTree.items` writes down what is reported, and
visiting a tree is telling the visitor of it (`SnapStore.MemoryTree.visit_eq_forM`).

Files are kept in the order of their segments. What is reported is in that order, too
(`SnapStore.MemoryTree.sorted_items`), though directories come up on the way: of the directories
above a file, those that were not reported yet come after every file before. For this no file may
lie below another one.
-/

namespace SnapStore

/-! ### The order of names -/

namespace Bytes

/-- What is before something that it does not begin is before it with more names at its end. -/
theorem compare_append_of_not_prefix {d f : List Bytes} (h : compare d f = .lt)
    (hbegins : ¬ d <+: f) (ext : List Bytes) : compare (d ++ ext) f = .lt := by
  induction d generalizing f with
  | nil => exact absurd List.nil_prefix hbegins
  | cons x d ih =>
    cases f with
    | nil => cases h
    | cons y f =>
      rw [List.compare_cons_cons] at h
      rw [List.cons_append, List.compare_cons_cons]
      rcases hxy : compare x y with _ | _ | _
      · rfl
      · obtain rfl := Std.LawfulEqCmp.eq_of_compare hxy
        rw [hxy] at h
        exact ih h fun hd => hbegins (List.cons_prefix_cons.2 ⟨rfl, hd⟩)
      · rw [hxy] at h
        cases h

end Bytes

/-- Segments come before others in the order of their names. -/
def Precedes (a b : List String) : Prop := compare (a.map Utf8.encode) (b.map Utf8.encode) = .lt

namespace Precedes

variable {a b c : List String}

theorem trans (h : Precedes a b) (h' : Precedes b c) : Precedes a c := Std.TransCmp.lt_trans h h'

theorem of_begins (h : a <+: b) (hne : a ≠ b) : Precedes a b := by
  obtain ⟨ext, rfl⟩ := h
  have hext : ext.map Utf8.encode ≠ [] := fun hnil =>
    hne (by rw [List.map_eq_nil_iff.1 hnil, List.append_nil])
  rw [Precedes, List.map_append]
  exact Bytes.compare_append_of_ne_nil _ hext

theorem prefix_of_map_encode (h : a.map Utf8.encode <+: b.map Utf8.encode) : a <+: b := by
  rw [List.prefix_iff_eq_take, List.length_map, ← List.map_take] at h
  exact List.prefix_iff_eq_take.2
    (List.map_injective_iff.2 (fun _ _ => Utf8.encode_injective) h)

/-- What precedes something in a directory, and does not lie in it, precedes the directory. -/
theorem directory (h : Precedes a c) (hb : b <+: c) (hbegins : ¬ b <+: a) : Precedes a b := by
  obtain ⟨ext, rfl⟩ := hb
  rw [Precedes, List.map_append] at h
  have hbegins' := mt prefix_of_map_encode hbegins
  rcases hcmp : compare (a.map Utf8.encode) (b.map Utf8.encode) with _ | _ | _
  · exact hcmp
  · rw [Std.LawfulEqCmp.eq_of_compare hcmp] at hbegins'
    exact absurd (List.prefix_refl _) hbegins'
  · -- Else the directory would precede it, and so would all that is in the directory.
    have hlt := Bytes.compare_append_of_not_prefix (Std.OrientedCmp.lt_of_gt hcmp) hbegins'
      (ext.map Utf8.encode)
    exact absurd hlt (Std.OrientedCmp.not_lt_of_lt h)

/-- Of different segments, those that are not above the others come first. -/
theorem of_segmentsLe (hne : a ≠ b) (h : RelativePath.segmentsLe a b = true) : Precedes a b := by
  rw [RelativePath.segmentsLe] at h
  rcases hcmp : compare (a.map Utf8.encode) (b.map Utf8.encode) with _ | _ | _
  · exact hcmp
  · exact absurd (List.map_injective_iff.2 (fun _ _ => Utf8.encode_injective)
      (Std.LawfulEqCmp.eq_of_compare hcmp)) hne
  · rw [hcmp] at h
    cases h

theorem of_not_segmentsLe (h : ¬ RelativePath.segmentsLe a b = true) : Precedes b a := by
  rw [RelativePath.segmentsLe, Ordering.isLE_iff_ne_gt, not_not] at h
  exact Std.OrientedCmp.lt_of_gt h

end Precedes

namespace MemoryTree

/-! ### Directories above a file -/

variable {d s : List String}

theorem mem_above : d ∈ above s ↔ d ≠ [] ∧ d <+: s ∧ d ≠ s := by
  rw [above, List.mem_map]
  constructor
  · rintro ⟨i, hi, rfl⟩
    rw [List.mem_range] at hi
    refine ⟨?_, List.take_prefix _ _, fun h => ?_⟩
    · exact List.ne_nil_of_length_pos (by rw [List.length_take]; omega)
    · have hlength := congrArg List.length h
      rw [List.length_take] at hlength
      omega
  · rintro ⟨hne, hbegins, hproper⟩
    have hpos := List.length_pos_iff.2 hne
    have hlt : d.length < s.length :=
      Nat.lt_of_le_of_ne hbegins.length_le fun h => hproper (hbegins.eq_of_length h)
    refine ⟨d.length - 1, List.mem_range.2 (by omega), ?_⟩
    rw [Nat.sub_add_cancel hpos, ← List.prefix_iff_eq_take.1 hbegins]

theorem precedes_of_mem_above (h : d ∈ above s) : Precedes d s := by
  obtain ⟨-, hbegins, hne⟩ := mem_above.1 h
  exact .of_begins hbegins hne

/-- The outermost comes first. -/
theorem sorted_above (s : List String) : (above s).Pairwise Precedes := by
  rw [above, List.pairwise_map]
  refine List.pairwise_lt_range.imp_of_mem fun {i j} hi hj hij => ?_
  rw [List.mem_range] at hi hj
  have hbegins : s.take (i + 1) <+: s.take (j + 1) :=
    List.take_prefix_take_left (by omega)
  refine .of_begins hbegins fun h => ?_
  have hlength := congrArg List.length h
  rw [List.length_take, List.length_take] at hlength
  omega

/-! ### What is reported -/

/-- One thing that is reported: a directory, or a file with its content. -/
abbrev Item := List String × Option Bytes

/-- What is reported of files, given the directories that have been reported before. -/
def items (seen : List (List String)) : List (List String × Bytes) → List Item
  | [] => []
  | f :: fs =>
    let fresh := (above f.1).filter fun d => d ∉ seen
    fresh.map (·, none) ++ (f.1, some f.2) :: items (fresh ++ seen) fs

@[simp] theorem items_nil (seen : List (List String)) : items seen [] = [] := rfl

theorem items_cons (seen : List (List String)) (f : List String × Bytes)
    (fs : List (List String × Bytes)) :
    items seen (f :: fs) = ((above f.1).filter fun d => d ∉ seen).map (·, none) ++
      (f.1, some f.2) :: items ((above f.1).filter (fun d => d ∉ seen) ++ seen) fs := rfl

variable {seen : List (List String)} {fs : List (List String × Bytes)} {x : Item}

/-- **All files are reported, and all directories above them** that have not been. -/
theorem mem_items : x ∈ items seen fs ↔ (∃ f ∈ fs, x = (f.1, some f.2)) ∨
    (x.2 = none ∧ x.1 ∉ seen ∧ ∃ f ∈ fs, x.1 ∈ above f.1) := by
  induction fs generalizing seen with
  | nil => simp
  | cons f fs ih =>
    rw [items_cons, List.mem_append, List.mem_cons, ih, List.mem_map]
    constructor
    · rintro (⟨d, hd, rfl⟩ | rfl | ⟨g, hg, rfl⟩ | ⟨hnone, hseen, g, hg, habove⟩)
      · obtain ⟨habove, hseen⟩ := List.mem_filter.1 hd
        exact Or.inr ⟨rfl, by simpa using hseen, f, List.mem_cons_self, habove⟩
      · exact Or.inl ⟨f, List.mem_cons_self, rfl⟩
      · exact Or.inl ⟨g, List.mem_cons_of_mem _ hg, rfl⟩
      · exact Or.inr ⟨hnone, fun h => hseen (List.mem_append_right _ h), g,
          List.mem_cons_of_mem _ hg, habove⟩
    · rintro (⟨g, hg, rfl⟩ | ⟨hnone, hseen, g, hg, habove⟩)
      · rcases List.mem_cons.1 hg with rfl | hg
        · exact Or.inr (Or.inl rfl)
        · exact Or.inr (Or.inr (Or.inl ⟨g, hg, rfl⟩))
      · -- A directory comes up with the first file below it.
        by_cases hfirst : x.1 ∈ above f.1
        · exact Or.inl ⟨x.1, List.mem_filter.2 ⟨hfirst, by simpa using hseen⟩,
            Prod.ext rfl hnone.symm⟩
        · rcases List.mem_cons.1 hg with rfl | hg
          · exact absurd habove hfirst
          · refine Or.inr (Or.inr (Or.inr ⟨hnone, fun h => ?_, g, hg, habove⟩))
            rcases List.mem_append.1 h with h | h
            · exact hfirst (List.mem_filter.1 h).1
            · exact hseen h

/-- **What is reported comes in order**, if files do and none lies below another. -/
theorem sorted_items (hsorted : fs.Pairwise fun f g => Precedes f.1 g.1)
    (hbelow : ∀ f ∈ fs, ∀ g ∈ fs, f.1 ∉ above g.1) :
    (items seen fs).Pairwise fun x y => Precedes x.1 y.1 := by
  induction fs generalizing seen with
  | nil => exact .nil
  | cons f fs ih =>
    obtain ⟨hfirst, hrest⟩ := List.pairwise_cons.1 hsorted
    rw [items_cons]
    -- All that comes later comes after the file: other files, and directories it is not in.
    have hlater : ∀ y ∈ items ((above f.1).filter (fun d => d ∉ seen) ++ seen) fs,
        Precedes f.1 y.1 := by
      intro y hy
      rcases mem_items.1 hy with ⟨g, hg, rfl⟩ | ⟨-, hseen, g, hg, habove⟩
      · exact hfirst g hg
      · obtain ⟨hne, hbegins, -⟩ := mem_above.1 habove
        refine (hfirst g hg).directory hbegins fun hbegins' => ?_
        by_cases hself : y.1 = f.1
        · exact hbelow f List.mem_cons_self g (List.mem_cons_of_mem _ hg) (hself ▸ habove)
        · have hmem := mem_above.2 ⟨hne, hbegins', hself⟩
          by_cases hold : y.1 ∈ seen
          · exact hseen (List.mem_append_right _ hold)
          · exact hseen (List.mem_append_left _ (List.mem_filter.2 ⟨hmem, by simpa using hold⟩))
    refine List.pairwise_append.2 ⟨?_, List.pairwise_cons.2 ⟨hlater, ih hrest fun g hg h hh =>
      hbelow g (List.mem_cons_of_mem _ hg) h (List.mem_cons_of_mem _ hh)⟩, ?_⟩
    · exact List.pairwise_map.2 ((sorted_above f.1).filter _)
    · intro x hx y hy
      obtain ⟨d, hd, rfl⟩ := List.mem_map.1 hx
      have hdir : Precedes d f.1 := precedes_of_mem_above (List.mem_filter.1 hd).1
      rcases List.mem_cons.1 hy with rfl | hy
      · exact hdir
      · exact hdir.trans (hlater y hy)

/-! ### Trees that are built -/

/-- A file has a name, and is made of plain segments; files are kept in order. -/
structure IsWellFormed (t : MemoryTree) : Prop where
  /-- The order of files. -/
  sorted : t.files.Pairwise fun f g => Precedes f.1 g.1
  /-- There is no file at the root itself. -/
  ne_nil : ∀ f ∈ t.files, f.1 ≠ []
  /-- Segments are plain. -/
  plain : ∀ f ∈ t.files, ∀ s ∈ f.1, RelativePath.IsPlain s

theorem isWellFormed_empty (root : Path) : (empty root).IsWellFormed := ⟨.nil, nofun, nofun⟩

theorem mem_of_mem_place {f g : List String × Bytes} (h : g ∈ place f fs) : g = f ∨ g ∈ fs := by
  induction fs with
  | nil => exact Or.inl (List.mem_singleton.1 h)
  | cons f' fs ih =>
    rw [place] at h
    split_ifs at h
    · exact (List.mem_cons.1 h).imp_right (List.mem_cons_of_mem _)
    · exact List.mem_cons.1 h
    · rcases List.mem_cons.1 h with rfl | h
      · exact Or.inr List.mem_cons_self
      · exact (ih h).imp_right (List.mem_cons_of_mem _)

/-- A file is put where it belongs. -/
theorem sorted_place {f : List String × Bytes} (h : fs.Pairwise fun f g => Precedes f.1 g.1) :
    (place f fs).Pairwise fun f g => Precedes f.1 g.1 := by
  induction fs with
  | nil => exact List.pairwise_singleton _ _
  | cons g fs ih =>
    obtain ⟨hfirst, hrest⟩ := List.pairwise_cons.1 h
    rw [place]
    split_ifs with hsame hle
    · exact List.pairwise_cons.2 ⟨fun g' hg' => hsame ▸ hfirst g' hg', hrest⟩
    · have hlt : Precedes f.1 g.1 := .of_segmentsLe hsame hle
      refine List.pairwise_cons.2 ⟨fun g' hg' => ?_, h⟩
      rcases List.mem_cons.1 hg' with rfl | hg'
      · exact hlt
      · exact hlt.trans (hfirst g' hg')
    · have hlt : Precedes g.1 f.1 := .of_not_segmentsLe hle
      refine List.pairwise_cons.2 ⟨fun g' hg' => ?_, ih hrest⟩
      rcases mem_of_mem_place hg' with rfl | hg'
      · exact hlt
      · exact hfirst g' hg'

theorem IsWellFormed.insert {t t' : MemoryTree} (ht : t.IsWellFormed) {path : String}
    {content : Bytes} (h : t.insert path content = .ok t') :
    t'.IsWellFormed ∧ t'.root = t.root := by
  unfold MemoryTree.insert at h
  rcases hrelative : RelativePath.ofSegments true (cut path) with e | relative
  · rw [hrelative] at h
    cases h
  · rw [hrelative] at h
    cases h
    obtain ⟨rfl, hplain⟩ := RelativePath.isPlain_of_ofSegments hrelative
    refine ⟨⟨sorted_place ht.sorted, fun f hf => ?_, fun f hf => ?_⟩, rfl⟩
    · rcases mem_of_mem_place hf with rfl | hf
      · exact mt List.map_eq_nil_iff.1 (Pieces.split_ne_nil _ _)
      · exact ht.ne_nil f hf
    · rcases mem_of_mem_place hf with rfl | hf
      · exact hplain
      · exact ht.plain f hf

/-- **Every tree that is built is well-formed.** -/
theorem isWellFormed_of_ofFiles {root : Path} {files : List (String × Bytes)} {t : MemoryTree}
    (h : ofFiles root files = .ok t) : t.IsWellFormed ∧ t.root = root := by
  have hfold : ∀ (files : List (String × Bytes)) (t₀ : MemoryTree), t₀.IsWellFormed →
      files.foldlM (fun t f => t.insert f.1 f.2) t₀ = .ok t →
        t.IsWellFormed ∧ t.root = t₀.root := by
    intro files
    induction files with
    | nil =>
      intro t₀ ht₀ h
      cases h
      exact ⟨ht₀, rfl⟩
    | cons f files ih =>
      intro t₀ ht₀ h
      rw [List.foldlM_cons] at h
      rcases hinsert : t₀.insert f.1 f.2 with e | t₁
      · rw [hinsert] at h
        cases h
      · rw [hinsert] at h
        obtain ⟨ht₁, hroot⟩ := ht₀.insert hinsert
        obtain ⟨ht, hroot'⟩ := ih t₁ ht₁ h
        exact ⟨ht, hroot'.trans hroot⟩
  exact hfold files (empty root) (isWellFormed_empty root) h

/-! ### Visits -/

variable {m : Type → Type} [Monad m] (t : MemoryTree) (v : Visitor m)

/-- Tells a visitor of one thing. -/
def tell (x : Item) : ExceptT Failure m Unit :=
  match x.2 with
  | none => v.directory (t.details ⟨false, x.1⟩ [])
  | some content => v.file (t.details ⟨true, x.1⟩ content)

theorem visitFiles_eq_forM [LawfulMonad m] (seen : List (List String))
    {fs : List (List String × Bytes)} (hplain : ∀ f ∈ fs, ∀ s ∈ f.1, RelativePath.IsPlain s) :
    t.visitFiles v seen fs = (items seen fs).forM (t.tell v) := by
  induction fs generalizing seen with
  | nil => rfl
  | cons f fs ih =>
    obtain ⟨hf, hfs⟩ := List.forall_mem_cons.1 hplain
    have hdirectory : ∀ d ∈ above f.1, (do
        let relative ← RelativePath.ofSegments false d
        v.directory (t.details relative [])) = t.tell v (d, none) := by
      intro d hd
      have hplain : ∀ s ∈ d, RelativePath.IsPlain s := fun s hs =>
        hf s ((mem_above.1 hd).2.1.subset hs)
      rw [RelativePath.ofSegments_of_forall_isPlain hplain]
      exact pure_bind _ _
    have hdirectories : ∀ ds : List (List String), (∀ d ∈ ds, d ∈ above f.1) →
        (forM ds fun d => do
          let relative ← RelativePath.ofSegments false d
          v.directory (t.details relative [])) = forM (ds.map (·, none)) (t.tell v) := by
      intro ds hds
      induction ds with
      | nil => rfl
      | cons d ds ihds =>
        obtain ⟨hd, hds⟩ := List.forall_mem_cons.1 hds
        rw [List.forM_cons, List.map_cons, List.forM_cons, ihds hds, hdirectory d hd]
    rw [visitFiles, items_cons, List.forM_eq_forM, List.forM_eq_forM, List.forM_append,
      List.forM_cons, hdirectories _ fun d hd => (List.mem_filter.1 hd).1, ih _ hfs,
      RelativePath.ofSegments_of_forall_isPlain hf]
    refine congrArg _ (funext fun _ => ?_)
    exact pure_bind _ _

/-- **Visiting a tree in memory is telling the visitor what is in it**, one after the other. -/
theorem visit_eq_forM [LawfulMonad m] {t : MemoryTree} (ht : t.IsWellFormed) (v : Visitor m) :
    t.visit v = (items [] t.files).forM (t.tell v) :=
  visitFiles_eq_forM t v [] ht.plain

end MemoryTree

end SnapStore
