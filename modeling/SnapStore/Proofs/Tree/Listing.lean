import Mathlib.Data.List.Induction
import Mathlib.Data.List.Nodup
import SnapStore.Proofs.Tree.Memory

/-!
# What is listed twice

A tree in memory lists the files that were put into it, each once and with the content that was put
in last, and the directories above them, each once and before all that is below it
(`SnapStore.MemoryTree.visit_of_ofFiles`). This is true whatever was put in.

Nothing keeps a file from being put in where another one needs a directory. Such a path is listed
twice, as the file and then as the directory; and no other is.
-/

namespace SnapStore

namespace Precedes

variable {a b : List String}

theorem asymm (h : Precedes a b) : ¬ Precedes b a := Std.OrientedCmp.not_lt_of_lt h

theorem ne (h : Precedes a b) : a ≠ b := by
  rintro rfl
  exact h.asymm h

end Precedes

namespace MemoryTree

variable {fs : List (List String × Bytes)} {seen : List (List String)}

/-! ### What a tree holds -/

/-- After one more file was put in it is there, and no other at its path. -/
theorem mem_place {f g : List String × Bytes} (h : fs.Pairwise fun f g => Precedes f.1 g.1) :
    g ∈ place f fs ↔ g = f ∨ g.1 ≠ f.1 ∧ g ∈ fs := by
  induction fs with
  | nil => simp [place]
  | cons f' fs ih =>
    obtain ⟨hfirst, hrest⟩ := List.pairwise_cons.1 h
    rw [place]
    split_ifs with hsame hle
    · have hother : ∀ g ∈ fs, g.1 ≠ f.1 := fun g hg => hsame ▸ (hfirst g hg).ne.symm
      rw [List.mem_cons, List.mem_cons, and_or_left]
      refine or_congr_right ⟨fun hg => Or.inr ⟨hother g hg, hg⟩, ?_⟩
      rintro (⟨hne, rfl⟩ | ⟨-, hg⟩)
      · exact absurd hsame.symm hne
      · exact hg
    · -- All that is there comes after it.
      have hlt : Precedes f.1 f'.1 := .of_segmentsLe hsame hle
      have hother : ∀ g ∈ f' :: fs, g.1 ≠ f.1 := List.forall_mem_cons.2
        ⟨hlt.ne.symm, fun g hg => (hlt.trans (hfirst g hg)).ne.symm⟩
      rw [List.mem_cons]
      exact or_congr_right ⟨fun hg => ⟨hother g hg, hg⟩, And.right⟩
    · rw [List.mem_cons, ih hrest, List.mem_cons, and_or_left]
      have hfirst' : g = f' ↔ g.1 ≠ f.1 ∧ g = f' :=
        ⟨fun hg => ⟨hg ▸ Ne.symm hsame, hg⟩, And.right⟩
      rw [or_left_comm, ← hfirst']

/-- The content that was put in last at a path. -/
def lastContent? (files : List (String × Bytes)) (s : List String) : Option Bytes :=
  (files.reverse.find? fun f => cut f.1 = s).map Prod.snd

theorem lastContent?_append (files : List (String × Bytes)) (f : String × Bytes) (s : List String) :
    lastContent? (files ++ [f]) s = if cut f.1 = s then some f.2 else lastContent? files s := by
  rw [lastContent?, List.reverse_append, List.reverse_singleton, List.singleton_append,
    List.find?_cons]
  split_ifs with h
  · rw [decide_eq_true h]
    rfl
  · rw [decide_eq_false h]
    rfl

theorem files_of_insert {t t' : MemoryTree} {path : String} {content : Bytes}
    (h : t.insert path content = .ok t') : t'.files = place (cut path, content) t.files := by
  unfold MemoryTree.insert at h
  rcases hrelative : RelativePath.ofSegments true (cut path) with e | relative
  · rw [hrelative] at h
    cases h
  · rw [hrelative] at h
    cases h
    rw [(RelativePath.isPlain_of_ofSegments hrelative).1]

/-- **A tree holds what was put in last** at each path. -/
theorem mem_files_of_ofFiles {root : Path} {files : List (String × Bytes)} {t : MemoryTree}
    (h : ofFiles root files = .ok t) {s : List String} {content : Bytes} :
    (s, content) ∈ t.files ↔ lastContent? files s = some content := by
  induction files using List.reverseRecOn generalizing t with
  | nil =>
    cases h
    simp [lastContent?, empty]
  | append_singleton files f ih =>
    rw [ofFiles, List.foldlM_append] at h
    rcases hfiles : ofFiles root files with e | t₀
    · rw [ofFiles] at hfiles
      rw [hfiles] at h
      cases h
    · have hfold := hfiles
      rw [ofFiles] at hfold
      rw [hfold] at h
      have hinsert : t₀.insert f.1 f.2 = .ok t := (bind_pure _).symm.trans h
      rw [files_of_insert hinsert, mem_place (isWellFormed_of_ofFiles hfiles).1.sorted, ih hfiles,
        lastContent?_append, Prod.mk.injEq]
      split_ifs with hsame
      · subst hsame
        simp [eq_comm]
      · simp [Ne.symm hsame]

/-! ### What comes after what -/

theorem above_trans {d e s : List String} (hd : d ∈ above e) (he : e ∈ above s) : d ∈ above s := by
  obtain ⟨hne, hbegins, -⟩ := mem_above.1 hd
  obtain ⟨-, hbegins', hproper⟩ := mem_above.1 he
  refine mem_above.2 ⟨hne, hbegins.trans hbegins', ?_⟩
  rintro rfl
  exact hproper (hbegins'.eq_of_length_le hbegins.length_le)

/-- What may be listed later than something: not the same, nor a directory above it. A directory may
have the path of a file. -/
structure MayFollow (x y : Item) : Prop where
  /-- A path comes again only if it was a file and is a directory now. -/
  again : x.1 = y.1 → x.2.isSome = true ∧ y.2 = none
  /-- What is above something comes before it. -/
  above : y.2 = none → y.1 ∉ above x.1

/-- **What is listed may follow what was listed before.** -/
theorem mayFollow_items (h : fs.Pairwise fun f g => Precedes f.1 g.1) :
    (items seen fs).Pairwise MayFollow := by
  induction fs generalizing seen with
  | nil => exact .nil
  | cons f fs ih =>
    obtain ⟨hfirst, hrest⟩ := List.pairwise_cons.1 h
    rw [items_cons]
    have hlater : ∀ y ∈ items ((MemoryTree.above f.1).filter (fun d => d ∉ seen) ++ seen) fs,
        (y.2 = none → y.1 ∉ MemoryTree.above f.1) ∧ (y.2 ≠ none → Precedes f.1 y.1) := by
      intro y hy
      rcases mem_items.1 hy with ⟨g, hg, rfl⟩ | ⟨hnone, hseen, -⟩
      · exact ⟨nofun, fun _ => hfirst g hg⟩
      · refine ⟨fun _ habove => ?_, fun hsome => absurd hnone hsome⟩
        -- The directories above the file have all been listed by now.
        by_cases hold : y.1 ∈ seen
        · exact hseen (List.mem_append_right _ hold)
        · exact hseen (List.mem_append_left _ (List.mem_filter.2 ⟨habove, by simpa using hold⟩))
    refine List.pairwise_append.2 ⟨?_, List.pairwise_cons.2 ⟨fun y hy => ?_, ih hrest⟩,
      fun x hx y hy => ?_⟩
    · refine List.pairwise_map.2 (((sorted_above f.1).filter _).imp fun {d e} hde => ?_)
      exact ⟨fun heq => absurd heq hde.ne, fun _ he => hde.asymm (precedes_of_mem_above he)⟩
    · obtain ⟨hdirectory, hfile⟩ := hlater y hy
      refine ⟨fun heq => ⟨rfl, ?_⟩, hdirectory⟩
      by_contra hsome
      exact (hfile hsome).ne heq
    · obtain ⟨d, hd, rfl⟩ := List.mem_map.1 hx
      have habove := (List.mem_filter.1 hd).1
      rcases List.mem_cons.1 hy with rfl | hy
      · exact ⟨fun heq => absurd heq (precedes_of_mem_above habove).ne, nofun⟩
      · obtain ⟨hdirectory, hfile⟩ := hlater y hy
        refine ⟨fun heq => ?_, fun hnone hy => hdirectory hnone (above_trans hy habove)⟩
        -- A directory above the file is neither listed again nor a file that comes later.
        by_cases hnone : y.2 = none
        · exact absurd (heq ▸ habove) (hdirectory hnone)
        · exact absurd heq ((precedes_of_mem_above habove).trans (hfile hnone)).ne

/-! ### What is listed -/

/-- What a tree lists. -/
def listing (t : MemoryTree) : List Item := items [] t.files

section

variable {root : Path} {files : List (String × Bytes)} {t : MemoryTree}
  (h : ofFiles root files = .ok t)

include h

theorem file_mem_listing {s : List String} {content : Bytes} :
    (s, some content) ∈ t.listing ↔ lastContent? files s = some content := by
  rw [listing, mem_items, ← mem_files_of_ofFiles h]
  simp [Prod.ext_iff]

theorem exists_mem_files_iff {P : List String → Prop} :
    (∃ f ∈ t.files, P f.1) ↔ ∃ f ∈ files, P (cut f.1) := by
  constructor
  · rintro ⟨⟨s, content⟩, hmem, hP⟩
    obtain ⟨f, hf, -⟩ := Option.map_eq_some_iff.1 ((mem_files_of_ofFiles h).1 hmem)
    have hs : cut f.1 = s := by simpa using List.find?_some hf
    exact ⟨f, List.mem_reverse.1 (List.mem_of_find?_eq_some hf), hs ▸ hP⟩
  · rintro ⟨f, hf, hP⟩
    have hsome : ∃ content, lastContent? files (cut f.1) = some content := by
      rw [← Option.isSome_iff_exists, lastContent?, Option.isSome_map, List.find?_isSome]
      exact ⟨f, List.mem_reverse.2 hf, by simp⟩
    obtain ⟨content, hcontent⟩ := hsome
    exact ⟨_, (mem_files_of_ofFiles h).2 hcontent, hP⟩

theorem directory_mem_listing {d : List String} :
    (d, none) ∈ t.listing ↔ ∃ f ∈ files, d ∈ above (cut f.1) := by
  rw [listing, mem_items, ← exists_mem_files_iff h (P := fun s => d ∈ above s)]
  simp

theorem mayFollow_listing : t.listing.Pairwise MayFollow :=
  mayFollow_items (isWellFormed_of_ofFiles h).1.sorted

/-- No path is listed twice if and only if no file was put in above another. -/
theorem nodup_listing_iff :
    (t.listing.map Prod.fst).Nodup ↔ ∀ f ∈ files, ∀ g ∈ files, cut f.1 ∉ above (cut g.1) := by
  constructor
  · intro hnodup f hf g hg habove
    obtain ⟨⟨s, content⟩, hmem, hs⟩ := (exists_mem_files_iff h (P := (· = cut f.1))).2 ⟨f, hf, rfl⟩
    have hfile := (file_mem_listing h).2 ((mem_files_of_ofFiles h).1 hmem)
    have hdirectory := (directory_mem_listing h).2 ⟨g, hg, habove⟩
    have hsame := List.inj_on_of_nodup_map hnodup hfile hdirectory hs
    cases hsame
  · intro hnone
    refine List.pairwise_map.2 ((mayFollow_listing h).imp_of_mem fun {x y} hx hy hfollow heq => ?_)
    obtain ⟨hfile, hdirectory⟩ := hfollow.again heq
    obtain ⟨s, content | content⟩ := x
    · cases hfile
    · obtain ⟨d, _⟩ := y
      obtain rfl : s = d := heq
      cases hdirectory
      obtain ⟨g, hg, habove⟩ := (directory_mem_listing h).1 hy
      obtain ⟨f, hf, rfl⟩ := (exists_mem_files_iff h (P := (· = s))).1
        ⟨_, (mem_files_of_ofFiles h).2 ((file_mem_listing h).1 hx), rfl⟩
      exact hnone f hf g hg habove

end

/-- **What a tree in memory lists.** A visit tells of the files that were put in, each once and with
the content that was put in last, and of the directories above them, each once and before all that
is below it. A path is told of twice, first as a file and then as a directory, if a file was put in
above another one, and not otherwise. -/
theorem visit_of_ofFiles {root : Path} {files : List (String × Bytes)} {t : MemoryTree}
    (h : ofFiles root files = .ok t) :
    (∀ (m : Type → Type) [Monad m] [LawfulMonad m] (v : Visitor m),
        t.visit v = t.listing.forM (t.tell v)) ∧
      (∀ s content, (s, some content) ∈ t.listing ↔ lastContent? files s = some content) ∧
      (∀ d, (d, none) ∈ t.listing ↔ ∃ f ∈ files, d ∈ above (cut f.1)) ∧
      t.listing.Nodup ∧ t.listing.Pairwise MayFollow ∧
      ((t.listing.map Prod.fst).Nodup ↔ ∀ f ∈ files, ∀ g ∈ files, cut f.1 ∉ above (cut g.1)) := by
  have hfollow := mayFollow_listing h
  refine ⟨fun m _ _ v => visit_eq_forM (isWellFormed_of_ofFiles h).1 v, fun s content =>
    file_mem_listing h, fun d => directory_mem_listing h, hfollow.imp fun {x y} hxy heq => ?_,
    hfollow, nodup_listing_iff h⟩
  obtain ⟨hsome, hnone⟩ := hxy.again (congrArg Prod.fst heq)
  rw [heq, hnone] at hsome
  cases hsome

/-- A file is put in where another one needs a directory, and then changed. -/
theorem visit_of_ofFiles_of_clash :
    ∃ t, ofFiles (.ofString "/r") [("a", [1]), ("a/b", [2]), ("a", [3])] = .ok t ∧
      (["a"], some [3]) ∈ t.listing ∧ (["a"], none) ∈ t.listing ∧
      (["a", "b"], some [2]) ∈ t.listing ∧
      ¬ (t.listing.map Prod.fst).Nodup := by
  obtain ⟨t, ht⟩ : ∃ t, ofFiles (.ofString "/r") [("a", [1]), ("a/b", [2]), ("a", [3])] = .ok t :=
    ⟨_, rfl⟩
  obtain ⟨-, hfiles, hdirectories, -, -, hnodup⟩ := visit_of_ofFiles ht
  refine ⟨t, ht, (hfiles _ _).2 (by decide), (hdirectories _).2 (by decide),
    (hfiles _ _).2 (by decide), fun h => ?_⟩
  exact hnodup.1 h ("a", [1]) (by decide) ("a/b", [2]) (by decide) (by decide)

end MemoryTree

end SnapStore
