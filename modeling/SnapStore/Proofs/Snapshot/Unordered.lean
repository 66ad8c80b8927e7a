import Mathlib.Data.List.Nodup
import SnapStore.Proofs.Text.Order
import SnapStore.Snapshot.Strategy

/-!
# Combining without order

Where the order of entries does not count, it can still decide which of several entries of one
path counts: the first one does (`SnapStore.Entry.distinct`). If any two entries of a path leave the
same pair, this makes no difference. A list of entries and a permutation of it then leave the
same pairs (`SnapStore.Strategy.normalized_perm`), and these are sorted by a linear order
(`SnapStore.Strategy.Pair.isLinear_le`).
-/

namespace SnapStore

theorem Digest.isLinear_le : IsLinear Digest.le :=
  Bytes.isLinear_le.comap fun ⟨_, _⟩ ⟨_, _⟩ h => by simpa using h

theorem Content.isLinear_le : IsLinear Content.le where
  total a b := by
    cases a <;> cases b <;> simp [le, Digest.isLinear_le.total]
  trans a b c := by
    cases a <;> cases b <;> cases c <;>
      simp only [le, reduceCtorEq, imp_self, implies_true, false_imp_iff]
    exact Digest.isLinear_le.trans _ _ _
  antisymm a b := by
    cases a <;> cases b <;> simp only [le, reduceCtorEq, imp_self, false_imp_iff]
    exact fun hab hba => congrArg file (Digest.isLinear_le.antisymm _ _ hab hba)

/-! ### The first entry of a path -/

namespace Entry

variable {seen : List String} {es : List Entry} {e : Entry}

theorem distinctFrom_sublist : (distinctFrom seen es).Sublist es := by
  induction es generalizing seen with
  | nil => exact .slnil
  | cons e es ih =>
    rw [distinctFrom]
    split_ifs
    · exact ih.cons e
    · exact ih.cons_cons e

/-- An entry that counts was not seen before. -/
theorem not_mem_of_mem_distinctFrom (h : e ∈ distinctFrom seen es) : e.path ∉ seen := by
  induction es generalizing seen with
  | nil => cases h
  | cons e' es ih =>
    rw [distinctFrom] at h
    split_ifs at h with hseen
    · exact ih h
    · rcases List.mem_cons.1 h with rfl | h
      · exact hseen
      · exact fun hmem => ih h (List.mem_cons_of_mem _ hmem)

/-- One entry counts of every path that was not seen before. -/
theorem exists_mem_distinctFrom (h : e ∈ es) (hseen : e.path ∉ seen) :
    ∃ e' ∈ distinctFrom seen es, e'.path = e.path := by
  induction es generalizing seen with
  | nil => cases h
  | cons e' es ih =>
    rw [distinctFrom]
    split_ifs with hfirst
    · rcases List.mem_cons.1 h with rfl | h
      · exact absurd hfirst hseen
      · exact ih h hseen
    · by_cases hpath : e'.path = e.path
      · exact ⟨e', List.mem_cons_self, hpath⟩
      · rcases List.mem_cons.1 h with rfl | h
        · exact absurd rfl hpath
        · obtain ⟨e'', hmem, hpath''⟩ := ih h
            (List.not_mem_cons_of_ne_of_not_mem (Ne.symm hpath) hseen)
          exact ⟨e'', List.mem_cons_of_mem _ hmem, hpath''⟩

/-- No more than one does. -/
theorem nodup_distinctFrom : ((distinctFrom seen es).map path).Nodup := by
  induction es generalizing seen with
  | nil => exact List.nodup_nil
  | cons e es ih =>
    rw [distinctFrom]
    split_ifs
    · exact ih
    · refine List.nodup_cons.2 ⟨fun hmem => ?_, ih⟩
      obtain ⟨e', he', hpath⟩ := List.mem_map.1 hmem
      exact not_mem_of_mem_distinctFrom he' (hpath ▸ List.mem_cons_self)

theorem mem_of_mem_distinct (h : e ∈ distinct es) : e ∈ es := distinctFrom_sublist.subset h

theorem exists_mem_distinct (h : e ∈ es) : ∃ e' ∈ distinct es, e'.path = e.path :=
  exists_mem_distinctFrom h List.not_mem_nil

theorem nodup_distinct (es : List Entry) : ((distinct es).map path).Nodup := nodup_distinctFrom

/-- All entries count if no two of them have the same path. -/
theorem distinctFrom_of_nodup (hnodup : (es.map path).Nodup) (hseen : ∀ e ∈ es, e.path ∉ seen) :
    distinctFrom seen es = es := by
  induction es generalizing seen with
  | nil => rfl
  | cons e es ih =>
    obtain ⟨hfirst, hrest⟩ := List.nodup_cons.1 hnodup
    rw [distinctFrom, if_neg (hseen e List.mem_cons_self), ih hrest]
    intro e' he'
    refine List.not_mem_cons_of_ne_of_not_mem ?_ (hseen e' (List.mem_cons_of_mem _ he'))
    exact fun hsame => hfirst (hsame ▸ List.mem_map_of_mem he')

theorem distinct_of_nodup (hnodup : (es.map path).Nodup) : distinct es = es :=
  distinctFrom_of_nodup hnodup fun _ _ => List.not_mem_nil

/-- **Entries of paths that have all come up before make no difference**, wherever they stand. -/
theorem distinctFrom_append_of_seen {more rest : List Entry}
    (h : ∀ e ∈ more, e.path ∈ seen ∨ e.path ∈ es.map path) :
    distinctFrom seen (es ++ (more ++ rest)) = distinctFrom seen (es ++ rest) := by
  induction es generalizing seen with
  | nil =>
    induction more with
    | nil => rfl
    | cons e more ih =>
      have hseen : e.path ∈ seen := (h e List.mem_cons_self).resolve_right List.not_mem_nil
      rw [List.nil_append, List.cons_append, distinctFrom, if_pos hseen]
      exact ih fun e' he' => h e' (List.mem_cons_of_mem _ he')
  | cons e es ih =>
    have hleft : ∀ {seen' : List String}, (e.path ∈ seen' ∧ ∀ key ∈ seen, key ∈ seen') →
        ∀ e' ∈ more, e'.path ∈ seen' ∨ e'.path ∈ es.map path := by
      intro seen' hseen' e' he'
      rcases h e' he' with hold | hnew
      · exact Or.inl (hseen'.2 _ hold)
      · rcases List.mem_cons.1 hnew with hsame | hlater
        · exact Or.inl (hsame ▸ hseen'.1)
        · exact Or.inr hlater
    rw [List.cons_append, List.cons_append, distinctFrom, distinctFrom]
    split_ifs with hseen
    · exact ih (hleft ⟨hseen, fun _ => id⟩)
    · rw [ih (hleft ⟨List.mem_cons_self, fun _ => List.mem_cons_of_mem _⟩)]

theorem distinct_append_of_subset {more rest : List Entry}
    (h : ∀ e ∈ more, e.path ∈ es.map path) :
    distinct (es ++ (more ++ rest)) = distinct (es ++ rest) :=
  distinctFrom_append_of_seen fun e he => Or.inr (h e he)

/-- What is a matter of the path is had by an entry that counts, if it is had by any. -/
theorem mem_map_distinct {β : Type} {f : Entry → β}
    (hpath : ∀ e ∈ es, ∀ e' ∈ es, e.path = e'.path → f e = f e') {x : β} :
    x ∈ (distinct es).map f ↔ x ∈ es.map f := by
  simp only [List.mem_map]
  constructor
  · rintro ⟨e, he, rfl⟩
    exact ⟨e, mem_of_mem_distinct he, rfl⟩
  · rintro ⟨e, he, rfl⟩
    obtain ⟨e', he', hsame⟩ := exists_mem_distinct he
    exact ⟨e', he', hpath e' (mem_of_mem_distinct he') e he hsame⟩

end Entry

/-! ### What is left of entries -/

namespace Strategy

theorem Pair.isLinear_le : IsLinear Pair.le := Utf8.isLinear_le.lex Content.isLinear_le

/-- The same pairs are hashed if the same is left of the entries. -/
theorem pairs_congr {how : Strategy} {es es' : List Entry}
    (h : how.normalized es = how.normalized es') : how.pairs es = how.pairs es' := by
  unfold pairs
  rw [h]

/-- Entries of paths that have all come up before do not count, whatever else does. -/
theorem combine_append_of_subset (how : Strategy) {es more rest : List Entry}
    (h : ∀ e ∈ more, e.path ∈ es.map Entry.path) :
    how.combine (es ++ (more ++ rest)) = how.combine (es ++ rest) := by
  have hnormalized : how.normalized (es ++ (more ++ rest)) = how.normalized (es ++ rest) := by
    rw [normalized, normalized, Entry.distinct_append_of_subset h]
  rw [combine, combine, pairs_congr hnormalized]

/-- What is left of an entry, if anything is. -/
def pair? (n : Normalization) (e : Entry) : Option Pair := (n.apply e).map (·, e.content)

/-- But for relative paths, that is a matter of path, name and content. -/
theorem pair?_congr {n : Normalization} (hn : n ≠ .relative) {e e' : Entry}
    (hpath : e.path = e'.path) (hname : e.name = e'.name) (hcontent : e.content = e'.content) :
    pair? n e = pair? n e' := by
  have happly : n.apply e = n.apply e' := by
    cases n with
    | absolute => exact congrArg some hpath
    | relative => exact absurd rfl hn
    | nameOnly => exact congrArg some hname
    | ignored => cases e <;> cases e' <;> first | rfl | cases hcontent
  rw [pair?, pair?, happly, hcontent]

variable {n : Normalization} {es es' : List Entry}

/-- **Permutations leave the same pairs** if what is left of an entry is a matter of its path. -/
theorem normalized_perm (hperm : es.Perm es')
    (hpath : ∀ e ∈ es, ∀ e' ∈ es, e.path = e'.path → pair? n e = pair? n e') (c : Comparison) :
    (normalized ⟨c, n⟩ es).Perm (normalized ⟨c, n⟩ es') := by
  -- The paths that count, with what is left of each of them.
  let left (es : List Entry) := (Entry.distinct es).map fun e => (e.path, pair? n e)
  have hnodup : ∀ es, (left es).Nodup := fun es => by
    refine List.Nodup.of_map Prod.fst ?_
    rw [List.map_map]
    exact Entry.nodup_distinct es
  have hkeyed : ∀ e ∈ es, ∀ e' ∈ es, e.path = e'.path →
      (e.path, pair? n e) = (e'.path, pair? n e') :=
    fun e he e' he' h => Prod.ext h (hpath e he e' he' h)
  have hkeyed' : ∀ e ∈ es', ∀ e' ∈ es', e.path = e'.path →
      (e.path, pair? n e) = (e'.path, pair? n e') :=
    fun e he e' he' => hkeyed e (hperm.mem_iff.2 he) e' (hperm.mem_iff.2 he')
  have hleft : (left es).Perm (left es') :=
    (List.perm_ext_iff_of_nodup (hnodup es) (hnodup es')).2 fun x => by
      rw [Entry.mem_map_distinct hkeyed, Entry.mem_map_distinct hkeyed', (hperm.map _).mem_iff]
  have hnormalized : ∀ es, normalized ⟨c, n⟩ es = (left es).filterMap Prod.snd := by
    intro es
    rw [List.filterMap_map]
    rfl
  rw [hnormalized, hnormalized]
  exact hleft.filterMap _

/-- **If order does not count, the same is hashed if and only if the same is left**, in some
order. -/
theorem pairs_eq_iff_perm : pairs ⟨.unordered, n⟩ es = pairs ⟨.unordered, n⟩ es' ↔
    (normalized ⟨.unordered, n⟩ es).Perm (normalized ⟨.unordered, n⟩ es') := by
  constructor
  · intro h
    have hsorted : ∀ es, (pairs ⟨.unordered, n⟩ es).Perm (normalized ⟨.unordered, n⟩ es) :=
      fun es => List.mergeSort_perm _ _
    exact (hsorted es).symm.trans (h ▸ hsorted es')
  · exact fun h => Pair.isLinear_le.mergeSort_eq h

/-- Permutations are hashed in the same order, then. -/
theorem pairs_eq_of_perm (hperm : es.Perm es')
    (hpath : ∀ e ∈ es, ∀ e' ∈ es, e.path = e'.path → pair? n e = pair? n e') :
    pairs ⟨.unordered, n⟩ es = pairs ⟨.unordered, n⟩ es' :=
  pairs_eq_iff_perm.2 (normalized_perm hperm hpath _)

/-- They are hashed in the one order that they can be sorted to. -/
theorem pairs_eq_of_sorted {ps : List Pair} (hperm : (normalized ⟨.unordered, n⟩ es).Perm ps)
    (hsorted : ps.Pairwise fun a b => Pair.le a b = true) : pairs ⟨.unordered, n⟩ es = ps :=
  Pair.isLinear_le.mergeSort_eq_of_pairwise hperm hsorted

/-- **Combining without order forgets the order of the entries**, if any two entries of a path have
the same normal form and the same content. It does not matter then which of them comes first. -/
theorem combine_perm (hperm : es.Perm es')
    (hpath : ∀ e ∈ es, ∀ e' ∈ es, e.path = e'.path →
      n.apply e = n.apply e' ∧ e.content = e'.content) :
    combine ⟨.unordered, n⟩ es = combine ⟨.unordered, n⟩ es' := by
  have hpair : ∀ e ∈ es, ∀ e' ∈ es, e.path = e'.path → pair? n e = pair? n e' := by
    intro e he e' he' hsame
    obtain ⟨hnormal, hcontent⟩ := hpath e he e' he' hsame
    rw [pair?, pair?, hnormal, hcontent]
  rw [combine, combine, pairs_eq_of_perm hperm hpair]

/-- A directory that is left out, a file that is met as a root and below one and has been touched in
between, and a path where nothing is, in this order and in another. -/
theorem combine_perm_of_touched :
    let directory : Entry := .directory "/d" ⟨false, ["d"]⟩ true
    let below : Entry := .file "/d/f" ⟨true, ["f"]⟩ false ⟨.uniform 7, "before"⟩
    let root : Entry := .file "/d/f" ⟨true, ["f"]⟩ true ⟨.uniform 7, "after"⟩
    let gone : Entry := .missing "/g" "g"
    let es := [directory, below, gone, root, directory]
    let es' := [root, gone, directory, directory, below]
    es.Perm es' ∧ (∀ e ∈ es, ∀ e' ∈ es, e.path = e'.path →
        Normalization.ignored.apply e = Normalization.ignored.apply e' ∧ e.content = e'.content) ∧
      Entry.distinct es ≠ Entry.distinct es' ∧
      combine ⟨.unordered, .ignored⟩ es = combine ⟨.unordered, .ignored⟩ es' := by
  intro directory below root gone es es'
  have hperm : es.Perm es' := by decide
  have hpath : ∀ e ∈ es, ∀ e' ∈ es, e.path = e'.path →
      Normalization.ignored.apply e = Normalization.ignored.apply e' ∧ e.content = e'.content := by
    decide
  exact ⟨hperm, hpath, by decide, combine_perm hperm hpath⟩

end Strategy

end SnapStore
