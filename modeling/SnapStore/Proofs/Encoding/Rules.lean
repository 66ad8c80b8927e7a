import Mathlib.Data.List.Basic
import SnapStore.Encoding.Rules
import SnapStore.Proofs.Encoding.Reading
import SnapStore.Proofs.Path.Text
import SnapStore.Proofs.Text.Order

/-!
# Rules come back from their values

The same as in `SnapStore.Proofs.Encoding.Snapshot`, for the types of `SnapStore.Encoding.Rules`.
The condition on a set of names is that its members are in ascending order
(`SnapStore.NameSet.IsSorted`): a set is read by inserting its members one after the other, and
members in ascending order are found where they were. Whatever is made by insertions is sorted.

A filter has to be text besides (`SnapStore.Filter.IsText`), since it cannot be written otherwise.
-/

namespace SnapStore

open Value (Yields yields_true yields_ok yields_error yields_field yields_require yields_toList
  yields_toNat rowYields_pure rowYields_item yields_readRow)

/-! ### Sets of names -/

namespace NameSet

/-- The members are in ascending order, each of them once. -/
def IsSorted (s : NameSet) : Prop := s.members.Pairwise fun x y => Utf8.le x y = true ∧ x ≠ y

theorem isSorted_empty : empty.IsSorted := List.Pairwise.nil

/-- **To insert a name keeps a set sorted.** -/
theorem IsSorted.insert {s : NameSet} (hs : s.IsSorted) (x : String) : (s.insert x).IsSorted := by
  obtain ⟨members⟩ := s
  change (place x members).Pairwise _
  induction members with
  | nil => exact List.pairwise_singleton _ x
  | cons y ys ih =>
    obtain ⟨hy, hys⟩ := List.pairwise_cons.1 hs
    rw [place]
    split
    · exact hs
    · rename_i hne
      split
      · rename_i hle
        refine List.pairwise_cons.2 ⟨List.forall_mem_cons.2 ⟨⟨hle, hne⟩, fun z hz => ?_⟩, hs⟩
        -- Were `x` among what is above `y`, it would not be below `y`.
        refine ⟨Utf8.isLinear_le.trans _ _ _ hle (hy z hz).1, ?_⟩
        rintro rfl
        exact hne (Utf8.isLinear_le.antisymm _ _ hle (hy x hz).1)
      · rename_i hle
        have hyx : Utf8.le y x = true := (Utf8.isLinear_le.total y x).resolve_right hle
        refine List.pairwise_cons.2 ⟨fun z hz => ?_, ih hys⟩
        rcases mem_place.1 hz with rfl | hz
        · exact ⟨hyx, Ne.symm hne⟩
        · exact hy z hz

theorem isSorted_ofList (xs : List String) : (ofList xs).IsSorted := by
  have hfoldl : ∀ (xs : List String) (s : NameSet), s.IsSorted →
      (xs.foldl NameSet.insert s).IsSorted := by
    intro xs
    induction xs with
    | nil => exact fun _ hs => hs
    | cons x xs ih => exact fun s hs => ih _ (hs.insert x)
  exact hfoldl xs empty isSorted_empty

/-- A name above all others is put at the end. -/
theorem place_of_forall_le {x : String} {ys : List String}
    (h : ∀ y ∈ ys, Utf8.le y x = true ∧ y ≠ x) : place x ys = ys ++ [x] := by
  induction ys with
  | nil => rfl
  | cons y ys ih =>
    obtain ⟨⟨hle, hne⟩, hys⟩ := List.forall_mem_cons.1 h
    have hgt : ¬ Utf8.le x y = true := fun hxy => hne (Utf8.isLinear_le.antisymm _ _ hle hxy)
    rw [place, if_neg (Ne.symm hne), if_neg hgt, ih hys]
    rfl

/-- **A sorted set is the set of its members.** -/
theorem ofList_members {s : NameSet} (hs : s.IsSorted) : ofList s.members = s := by
  have hfoldl : ∀ ys xs : List String, (xs ++ ys).Pairwise (fun x y => Utf8.le x y = true ∧ x ≠ y) →
      ys.foldl NameSet.insert ⟨xs⟩ = ⟨xs ++ ys⟩ := by
    intro ys
    induction ys with
    | nil => simp
    | cons y ys ih =>
      intro xs hxs
      have hy : ∀ x ∈ xs, Utf8.le x y = true ∧ x ≠ y := fun x hx =>
        (List.pairwise_append.1 hxs).2.2 x hx y (by simp)
      have hinsert : NameSet.insert ⟨xs⟩ y = ⟨xs ++ [y]⟩ := congrArg mk (place_of_forall_le hy)
      rw [List.append_cons xs y ys] at hxs ⊢
      rw [List.foldl_cons, hinsert]
      exact ih _ hxs
  exact hfoldl s.members [] hs

theorem ofValue_toValue {s : NameSet} (hs : s.IsSorted) : ofValue s.toValue = .ok s := by
  have hread : Value.toList Value.toText (.array (s.members.map .string)) = .ok s.members :=
    Value.toList_map fun _ _ => rfl
  rw [toValue, ofValue, hread, Value.ok_map, ofList_members hs]

theorem isSorted_of_ofValue (v : Value) : Yields IsSorted (ofValue v) :=
  (yields_true _).map fun xs _ => isSorted_ofList xs

end NameSet

/-! ### Filters -/

/-- Paths that are text come back. -/
theorem Path.exists_values {ps : List Path} (hps : ∀ p ∈ ps, p.toString?.isSome = true) :
    ∃ vs, ps.mapM toValue? = some vs ∧ Value.toList ofValue (.array vs) = .ok ps := by
  induction ps with
  | nil => exact ⟨[], rfl, rfl⟩
  | cons p ps ih =>
    obtain ⟨hp, hps⟩ := List.forall_mem_cons.1 hps
    obtain ⟨vs, hvs, hread⟩ := ih hps
    obtain ⟨s, hs⟩ := Option.isSome_iff_exists.1 hp
    have hsp : ofString s = p := congrArg Path.mk (Utf8.encode_of_decode? hs)
    refine ⟨.string s :: vs, ?_, ?_⟩
    · rw [List.mapM_cons, hvs, toValue?, hs]
      rfl
    · have hrest : Value.readAll ofValue vs = .ok ps := hread
      change Value.readAll ofValue (.string s :: vs) = .ok (p :: ps)
      rw [Value.readAll, hrest, ofValue, Value.toText_string, Value.ok_map, hsp]
      rfl

theorem Path.isText_of_ofValue (v : Value) :
    Yields (fun p => p.toString?.isSome = true) (ofValue v) := by
  refine (yields_true _).map fun s _ => ?_
  rw [toString?_ofString]
  rfl

theorem Level.ofValue_toValue (l : Level) : ofValue l.toValue = .ok l := by
  cases l <;> rfl

namespace Filter

/-- The names and extensions are in ascending order. -/
structure IsSorted (f : Filter) : Prop where
  /-- The extensions are. -/
  extensions : f.extensions.IsSorted
  /-- The names are. -/
  fileNames : f.fileNames.IsSorted

/-- All paths are text. -/
structure IsText (f : Filter) : Prop where
  /-- The roots that are included are. -/
  includeRoots : ∀ p ∈ f.includeRoots, p.toString?.isSome = true
  /-- The roots that are excluded are. -/
  excludeRoots : ∀ p ∈ f.excludeRoots, p.toString?.isSome = true

theorem exists_value {f : Filter} (hf : f.IsSorted) (htext : f.IsText) :
    ∃ v, f.toValue? = some v ∧ ofValue v = .ok f := by
  obtain ⟨included, hincluded, hreadIncluded⟩ := Path.exists_values htext.includeRoots
  obtain ⟨excluded, hexcluded, hreadExcluded⟩ := Path.exists_values htext.excludeRoots
  refine ⟨.object [("include_roots", .array included), ("exclude_roots", .array excluded),
    ("extensions", f.extensions.toValue), ("file_names", f.fileNames.toValue)], ?_, ?_⟩
  · rw [toValue?, hincluded, hexcluded]
    rfl
  · simp [ofValue, ofFields, hreadIncluded, hreadExcluded, NameSet.ofValue_toValue hf.extensions,
      NameSet.ofValue_toValue hf.fileNames]

theorem yields_ofValue (v : Value) : Yields (fun f => f.IsSorted ∧ f.IsText) (ofValue v) := by
  have hpaths := yields_toList Path.isText_of_ofValue
  cases v with
  | object fields =>
    refine (yields_field hpaths _ _).bind fun excluded hexcluded => ?_
    refine (yields_field NameSet.isSorted_of_ofValue _ _).bind fun extensions hextensions => ?_
    refine (yields_field NameSet.isSorted_of_ofValue _ _).bind fun fileNames hfileNames => ?_
    refine (yields_field hpaths _ _).bind fun included hincluded => ?_
    refine (yields_require hincluded).bind fun _ hincluded => ?_
    refine (yields_require hexcluded).bind fun _ hexcluded => ?_
    refine (yields_require hextensions).bind fun _ hextensions => ?_
    refine (yields_require hfileNames).bind fun _ hfileNames => ?_
    exact yields_ok ⟨⟨hextensions, hfileNames⟩, ⟨hincluded, hexcluded⟩⟩
  | array items =>
    refine yields_readRow ?_ items
    refine (rowYields_item hpaths).bind fun _ hincluded => ?_
    refine (rowYields_item hpaths).bind fun _ hexcluded => ?_
    refine (rowYields_item NameSet.isSorted_of_ofValue).bind fun _ hextensions => ?_
    refine (rowYields_item NameSet.isSorted_of_ofValue).bind fun _ hfileNames => ?_
    exact rowYields_pure ⟨⟨hextensions, hfileNames⟩, ⟨hincluded, hexcluded⟩⟩
  | _ => exact yields_error _

/-! ### Rules that are added keep a filter sorted -/

theorem isSorted_empty : empty.IsSorted := ⟨NameSet.isSorted_empty, NameSet.isSorted_empty⟩

variable {f : Filter} (hf : f.IsSorted)

include hf

theorem IsSorted.allowPath (p : Path) : (f.allowPath p).IsSorted := ⟨hf.extensions, hf.fileNames⟩

theorem IsSorted.denyPath (p : Path) : (f.denyPath p).IsSorted := ⟨hf.extensions, hf.fileNames⟩

theorem IsSorted.allowExtension (extension : String) : (f.allowExtension extension).IsSorted :=
  ⟨hf.extensions.insert _, hf.fileNames⟩

theorem IsSorted.allowFileName (name : String) : (f.allowFileName name).IsSorted :=
  ⟨hf.extensions, hf.fileNames.insert name⟩

omit hf in
/-- What one rule keeps sorted, any number of them keep sorted. -/
theorem isSorted_foldl {α : Type} {add : Filter → α → Filter}
    (hadd : ∀ {f : Filter}, f.IsSorted → ∀ a, (add f a).IsSorted) (as : List α) {f : Filter}
    (hf : f.IsSorted) : (as.foldl add f).IsSorted := by
  induction as generalizing f with
  | nil => exact hf
  | cons a as ih => exact ih (hadd hf a)

omit hf in
theorem isSorted_ofRules (allowed denied : List Path) (names extensions : List String) :
    (ofRules allowed denied names extensions).IsSorted :=
  isSorted_foldl IsSorted.allowExtension extensions <|
    isSorted_foldl IsSorted.allowFileName names <|
      isSorted_foldl IsSorted.denyPath denied <|
        isSorted_foldl IsSorted.allowPath allowed isSorted_empty

end Filter

namespace DirectoryTree

theorem exists_value {t : DirectoryTree} (ht : t.filter.IsSorted)
    (hroot : t.root.toString?.isSome = true) (hfilter : t.filter.IsText) :
    ∃ v, t.toValue? = some v ∧ ofValue v = .ok t := by
  obtain ⟨v, hv, hread⟩ := Filter.exists_value ht hfilter
  obtain ⟨s, hs⟩ := Option.isSome_iff_exists.1 hroot
  have hpath : Path.ofValue (.string s) = .ok t.root :=
    congrArg (fun b => Except.ok (Path.mk b)) (Utf8.encode_of_decode? hs)
  refine ⟨.object [("dir", .string s), ("filter", v)], ?_, ?_⟩
  · rw [toValue?, Path.toValue?, hs, hv]
    rfl
  · simp [ofValue, ofFields, hpath, hread]

theorem yields_ofValue (v : Value) :
    Yields (fun t => t.filter.IsSorted ∧ t.root.toString?.isSome = true ∧ t.filter.IsText)
      (ofValue v) := by
  cases v with
  | object fields =>
    refine (yields_field Path.isText_of_ofValue _ _).bind fun root hroot => ?_
    refine (yields_field Filter.yields_ofValue _ _).bind fun filter hfilter => ?_
    refine (yields_require hroot).bind fun _ hroot => ?_
    exact (yields_require hfilter).bind fun _ hfilter => yields_ok ⟨hfilter.1, hroot, hfilter.2⟩
  | array items =>
    refine yields_readRow ?_ items
    refine (rowYields_item Path.isText_of_ofValue).bind fun _ hroot => ?_
    refine (rowYields_item Filter.yields_ofValue).bind fun _ hfilter => ?_
    exact rowYields_pure ⟨hfilter.1, hroot, hfilter.2⟩
  | _ => exact yields_error _

end DirectoryTree

/-! ### Strategies -/

theorem Comparison.ofValue_toValue (c : Comparison) : ofValue c.toValue = .ok c := by
  cases c <;> rfl

theorem Normalization.ofValue_toValue (n : Normalization) : ofValue n.toValue = .ok n := by
  cases n <;> rfl

theorem Strategy.ofValue_toValue (s : Strategy) : ofValue s.toValue = .ok s := by
  simp [toValue, ofValue, ofFields, Comparison.ofValue_toValue, Normalization.ofValue_toValue]

/-! ### Counts -/

namespace LookupCounts

/-- Both counts stay below their bound. -/
structure IsBounded (c : LookupCounts) : Prop where
  /-- The hits do. -/
  hits : c.hits < bound
  /-- The misses do. -/
  misses : c.misses < bound

theorem ofValue_toValue {c : LookupCounts} (hc : c.IsBounded) : ofValue c.toValue = .ok c := by
  have hhits : Value.toNat bound (.nat c.hits) = .ok c.hits := Value.toNat_number hc.hits
  have hmisses : Value.toNat bound (.nat c.misses) = .ok c.misses := Value.toNat_number hc.misses
  simp [toValue, ofValue, ofFields, hhits, hmisses]

theorem isBounded_of_ofValue (v : Value) : Yields IsBounded (ofValue v) := by
  cases v with
  | object fields =>
    refine (yields_field (yields_toNat bound) _ _).bind fun hits hhits => ?_
    refine (yields_field (yields_toNat bound) _ _).bind fun misses hmisses => ?_
    refine (yields_require hhits).bind fun _ hhits => ?_
    exact (yields_require hmisses).bind fun _ hmisses => yields_ok ⟨hhits, hmisses⟩
  | array items =>
    refine yields_readRow ?_ items
    refine (rowYields_item (yields_toNat bound)).bind fun _ hhits => ?_
    exact (rowYields_item (yields_toNat bound)).bind fun _ hmisses =>
      rowYields_pure ⟨hhits, hmisses⟩
  | _ => exact yields_error _

end LookupCounts

/-! ### Errors -/

theorem Error.ofValue_toValue (e : Error) : ofValue e.toValue = .ok e := by
  cases e <;> rfl

end SnapStore
