import Mathlib.Data.List.Perm.Subperm
import SnapStore.Proofs.Snapshot.Unordered

/-!
# Leaving directories out

If paths are ignored, directories are left out and only what else there is counts. It does not
follow that a list of entries can do without its directories. Of several entries of one path the
first one counts, and this is settled before any directory is left out: a directory that comes first
**hides** a file, or a path where nothing is, that comes later
(`SnapStore.Strategy.combine_withoutDirectories_ne`). Lists that are put together from several
snapshots may hold both, if the path has changed in between.

Where no directory hides anything (`SnapStore.Entry.NoneHidden`), it makes no difference whether the
directories are left out before or after; and only there is the same hashed
(`SnapStore.Strategy.combine_withoutDirectories`). Both are said first of entries that are kept and
others that are not, whatever they are (`SnapStore.Entry.distinct_filter`,
`SnapStore.Entry.keeps_of_length_le`).
-/

namespace SnapStore

namespace Entry

variable {keeps : Entry → Bool} {seen seen' : List String} {es : List Entry}

/-! ### Keeping some of the entries -/

/-- **Of the entries that are kept those count that counted before**, if none is kept whose path a
dropped entry stood for. What has been seen may be less than before, but not of what is kept. -/
theorem distinctFrom_filter (hsub : seen' ⊆ seen)
    (hseen : ∀ e ∈ es, keeps e = true → e.path ∈ seen → e.path ∈ seen')
    (h : ∀ d ∈ distinctFrom seen es, ∀ e ∈ es, d.path = e.path → keeps e = true → keeps d = true) :
    distinctFrom seen' (es.filter keeps) = (distinctFrom seen es).filter keeps := by
  induction es generalizing seen seen' with
  | nil => rfl
  | cons e es ih =>
    rw [List.forall_mem_cons] at hseen
    have hrest : ∀ d ∈ distinctFrom seen (e :: es), ∀ e' ∈ es, d.path = e'.path →
        keeps e' = true → keeps d = true :=
      fun d hd e' he' => h d hd e' (List.mem_cons_of_mem _ he')
    rw [distinctFrom] at h hrest ⊢
    by_cases hfirst : e.path ∈ seen
    · -- The entry does not count, and if it is kept then its path has been seen there, too.
      rw [if_pos hfirst] at h hrest ⊢
      rcases hkeeps : keeps e with _ | _
      · rw [List.filter_cons_of_neg (by simp [hkeeps])]
        exact ih hsub hseen.2 hrest
      · rw [List.filter_cons_of_pos hkeeps, distinctFrom, if_pos (hseen.1 hkeeps hfirst)]
        exact ih hsub hseen.2 hrest
    · rw [if_neg hfirst] at h hrest ⊢
      have hlater := fun d hd => hrest d (List.mem_cons_of_mem _ hd)
      rcases hkeeps : keeps e with _ | _
      · -- It counts and is dropped, so nothing of its path is kept later.
        rw [List.filter_cons_of_neg (by simp [hkeeps]), List.filter_cons_of_neg (by simp [hkeeps])]
        refine ih (List.subset_cons_of_subset _ hsub) (fun e' he' hkept hmem => ?_) hlater
        rcases List.mem_cons.1 hmem with hsame | hmem
        · have hdropped := hrest e List.mem_cons_self e' he' hsame.symm hkept
          rw [hkeeps] at hdropped
          cases hdropped
        · exact hseen.2 e' he' hkept hmem
      · rw [List.filter_cons_of_pos hkeeps, List.filter_cons_of_pos hkeeps, distinctFrom,
          if_neg fun hmem => hfirst (hsub hmem)]
        refine congrArg _ (ih (List.cons_subset_cons _ hsub) (fun e' he' hkept hmem => ?_) hlater)
        rcases List.mem_cons.1 hmem with hsame | hmem
        · exact hsame ▸ List.mem_cons_self
        · exact List.mem_cons_of_mem _ (hseen.2 e' he' hkept hmem)

theorem distinct_filter
    (h : ∀ d ∈ distinct es, ∀ e ∈ es, d.path = e.path → keeps e = true → keeps d = true) :
    distinct (es.filter keeps) = (distinct es).filter keeps :=
  distinctFrom_filter (List.Subset.refl _) (fun _ _ _ hmem => absurd hmem List.not_mem_nil) h

/-- **There are more entries that count if some are kept that were hidden**: one for each path of an
entry that is kept, and not only for those where the first one is. -/
theorem keeps_of_length_le
    (h : (distinct (es.filter keeps)).length ≤ ((distinct es).filter keeps).length) :
    ∀ d ∈ distinct es, ∀ e ∈ es, d.path = e.path → keeps e = true → keeps d = true := by
  intro d hd e he hsame hkeeps
  have hnodup : (((distinct es).filter keeps).map path).Nodup :=
    (nodup_distinct es).sublist (List.filter_sublist.map path)
  have hsub : ((distinct es).filter keeps).map path ⊆ (distinct (es.filter keeps)).map path := by
    intro p hp
    obtain ⟨d', hd', rfl⟩ := List.mem_map.1 hp
    obtain ⟨hmem, hkept⟩ := List.mem_filter.1 hd'
    obtain ⟨e', he', hpath⟩ :=
      exists_mem_distinct (List.mem_filter.2 ⟨mem_of_mem_distinct hmem, hkept⟩)
    exact List.mem_map.2 ⟨e', he', hpath⟩
  -- There are no more of the one than of the other, so they are the same.
  have hperm := (List.subperm_of_subset hnodup hsub).perm_of_length_le (by simpa using h)
  obtain ⟨e', he', hpath⟩ := exists_mem_distinct (List.mem_filter.2 ⟨he, hkeeps⟩)
  obtain ⟨d', hd', hpath'⟩ := List.mem_map.1 (hperm.mem_iff.2 (List.mem_map_of_mem he'))
  obtain ⟨hmem, hkept⟩ := List.mem_filter.1 hd'
  have hdd : d' = d := List.inj_on_of_nodup_map (nodup_distinct es) hmem hd
    (hpath'.trans (hpath.trans hsame.symm))
  exact hdd ▸ hkept

/-! ### Directories -/

/-- Whether an entry is one of a directory. -/
def isDirectory (e : Entry) : Bool := e.fileType = .directory

/-- What is left of a list without the directories in it. -/
def withoutDirectories (es : List Entry) : List Entry := es.filter (!·.isDirectory)

/-- **No directory hides anything**: where the first entry of a path is a directory, all entries of
the path are. -/
def NoneHidden (es : List Entry) : Prop :=
  ∀ d ∈ distinct es, d.isDirectory = true → ∀ e ∈ es, d.path = e.path → e.isDirectory = true

instance (es : List Entry) : Decidable (NoneHidden es) := by
  unfold NoneHidden; infer_instance

theorem noneHidden_iff : NoneHidden es ↔ ∀ d ∈ distinct es, ∀ e ∈ es, d.path = e.path →
    (!e.isDirectory) = true → (!d.isDirectory) = true := by
  simp only [Bool.not_eq_true', ← Bool.not_eq_true, not_imp_not]
  exact ⟨fun h d hd e he hsame hdirectory => h d hd hdirectory e he hsame,
    fun h d hd hdirectory e he hsame => h d hd e he hsame hdirectory⟩

end Entry

namespace Strategy

variable (c : Comparison) (es : List Entry)

/-- If paths are ignored, contents are left of what is no directory. -/
theorem normalized_ignored : normalized ⟨c, .ignored⟩ es =
    (Entry.withoutDirectories (Entry.distinct es)).map fun e => ("", e.content) := by
  rw [normalized]
  induction Entry.distinct es with
  | nil => rfl
  | cons e rest ih =>
    cases e with
    | missing => exact congrArg (_ :: ·) ih
    | file => exact congrArg (_ :: ·) ih
    | directory => exact ih

/-- That goes for a list without directories, too. -/
theorem normalized_withoutDirectories : normalized ⟨c, .ignored⟩ (Entry.withoutDirectories es) =
    (Entry.distinct (Entry.withoutDirectories es)).map fun e => ("", e.content) := by
  rw [normalized_ignored]
  refine congrArg _ (List.filter_eq_self.2 fun e he => ?_)
  exact (List.mem_filter.1 (Entry.mem_of_mem_distinct he)).2

/-- As many pairs are hashed as are left. -/
theorem length_pairs (how : Strategy) (es : List Entry) :
    (how.pairs es).length = (how.normalized es).length := by
  unfold pairs
  split
  · rfl
  · exact List.length_mergeSort _

/-- **If paths are ignored, a list can do without its directories** as long as none of them hides
anything; and if one does, then not the same is hashed without them. -/
theorem combine_withoutDirectories :
    (pairs ⟨c, .ignored⟩ (Entry.withoutDirectories es) = pairs ⟨c, .ignored⟩ es ↔
        Entry.NoneHidden es) ∧
      (Entry.NoneHidden es →
        combine ⟨c, .ignored⟩ (Entry.withoutDirectories es) = combine ⟨c, .ignored⟩ es) := by
  have hpairs : Entry.NoneHidden es →
      pairs ⟨c, .ignored⟩ (Entry.withoutDirectories es) = pairs ⟨c, .ignored⟩ es := by
    intro hnone
    refine pairs_congr ?_
    rw [normalized_withoutDirectories, normalized_ignored, Entry.withoutDirectories,
      Entry.distinct_filter (Entry.noneHidden_iff.1 hnone)]
    rfl
  refine ⟨⟨fun hsame => ?_, hpairs⟩, fun hnone => by rw [combine, combine, hpairs hnone]⟩
  have hlength := congrArg List.length hsame
  rw [length_pairs, length_pairs, normalized_withoutDirectories, normalized_ignored,
    List.length_map, List.length_map] at hlength
  exact Entry.noneHidden_iff.2 (Entry.keeps_of_length_le (Nat.le_of_eq hlength))

/-- Overlapping trees with directories met twice, one of them as a root. -/
theorem combine_withoutDirectories_of_overlap :
    let es : List Entry :=
      [.directory "/d" ⟨false, ["d"]⟩ true, .directory "/d/e" ⟨false, ["e"]⟩ false,
        .file "/d/e/f" ⟨true, ["e", "f"]⟩ false ⟨.uniform 7, ""⟩, .missing "/g" "g",
        .directory "/d/e" ⟨false, ["e"]⟩ true, .file "/d/e/f" ⟨true, ["f"]⟩ false ⟨.uniform 7, ""⟩]
    Entry.NoneHidden es ∧ (Entry.withoutDirectories es).length = 3 ∧
      combine ⟨.ordered, .ignored⟩ (Entry.withoutDirectories es) =
        combine ⟨.ordered, .ignored⟩ es := by
  intro es
  have hnone : Entry.NoneHidden es := by decide
  exact ⟨hnone, by decide, (combine_withoutDirectories .ordered es).2 hnone⟩

/-- **A directory can hide a file**: the entries of a directory that was snapshotted before it gave
way to a file, and then that file as a root. -/
theorem combine_withoutDirectories_ne :
    let es : List Entry :=
      [.directory "/d/x" ⟨false, ["x"]⟩ false, .file "/d/x" ⟨true, ["x"]⟩ true ⟨.uniform 7, ""⟩]
    combine ⟨.ordered, .ignored⟩ (Entry.withoutDirectories es) ≠ combine ⟨.ordered, .ignored⟩ es ∧
      combine ⟨.unordered, .ignored⟩ (Entry.withoutDirectories es) ≠
        combine ⟨.unordered, .ignored⟩ es := by
  intro es
  have hdigests : Sha256.digest (stream [("", .file (.uniform 7))]) ≠
      Sha256.digest (stream []) := by
    rw [Sha256.digest_of_block (by decide +kernel), Sha256.digest_of_block (by decide +kernel)]
    decide +kernel
  have hne : ∀ how : Strategy, how.pairs es = [] →
      how.pairs (Entry.withoutDirectories es) = [("", .file (.uniform 7))] →
      combine how (Entry.withoutDirectories es) ≠ combine how es := by
    intro how hwith hwithout
    rw [combine, combine, hwith, hwithout]
    exact fun hsame => hdigests (congrArg (fun a : Aggregate => a.digest.bytes) hsame)
  exact ⟨hne _ (by decide +kernel) (by decide +kernel),
    hne _ (by decide +kernel) (by decide +kernel)⟩

end Strategy

end SnapStore
