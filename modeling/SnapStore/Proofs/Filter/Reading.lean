import Mathlib.Data.List.Basic
import SnapStore.Proofs.Encoding.Rules
import SnapStore.Proofs.Text.Lowercase

/-!
# Filters that are read

A filter can be put together rule by rule, or be read from a value that spells its rules
(`SnapStore.Filter.Spells`). Only the first of these folds extensions to lower case. A file's
extension is folded when it is looked up, whatever the filter came from, so that a rule with a
capital in it is never found in a filter that was read.

So a filter that was read lets through what the filter of the same rules does, but for files whose
extension, in lower case, is not among the rules as they are written
(`SnapStore.Filter.level_of_read`). These it denies, and it is no use to write them in capitals,
too. That it never lets through more rests on `SnapStore.lowercase_lowercase`.
-/

namespace SnapStore

open Value (Yields yields_ok yields_error yields_require texts)

/-! ### What is read -/

/-- Paths are read from texts. -/
theorem Path.yields_ofTexts (v : Value) :
    Yields (fun ps => ∃ ss, v = texts ss ∧ ps = ss.map Path.ofString) (v.toList Path.ofValue) := by
  cases v with
  | array items =>
    change Yields _ (Value.readAll Path.ofValue items)
    induction items with
    | nil => exact yields_ok ⟨[], rfl, rfl⟩
    | cons v vs ih =>
      have hpath : Yields (fun p => ∃ s, v = .string s ∧ p = Path.ofString s) (Path.ofValue v) :=
        (Value.yields_toText v).map fun s hs => ⟨s, hs, rfl⟩
      refine hpath.bind fun p hp => ih.bind fun ps hps => yields_ok ?_
      obtain ⟨s, rfl, rfl⟩ := hp
      obtain ⟨ss, hss, rfl⟩ := hps
      obtain rfl : vs = ss.map .string := Value.array.inj hss
      exact ⟨s :: ss, rfl, rfl⟩
  | _ => exact yields_error _

/-- The members of a set of texts are these texts. -/
theorem NameSet.mem_ofList {xs : List String} {x : String} : x ∈ (ofList xs).members ↔ x ∈ xs := by
  have hfoldl : ∀ (xs : List String) (s : NameSet),
      x ∈ (xs.foldl insert s).members ↔ x ∈ xs ∨ x ∈ s.members := by
    intro xs
    induction xs with
    | nil => simp
    | cons y ys ih =>
      intro s
      rw [List.foldl_cons, ih, mem_insert, List.mem_cons]
      exact or_left_comm.trans or_assoc.symm
  rw [ofList, hfoldl]
  exact or_iff_left List.not_mem_nil

theorem NameSet.yields_ofTexts (v : Value) :
    Yields (fun set => ∃ ss, v = texts ss ∧ set = NameSet.ofList ss) (NameSet.ofValue v) :=
  (Value.yields_texts v).map fun ss hss => ⟨ss, hss, rfl⟩

namespace Filter

/-- What a value says that a filter is read from: the rules of each kind, as they are written. -/
inductive Spells (included excluded extensions names : List String) : Value → Prop
  /-- They stand under their names. -/
  | object {fields : List (String × Value)}
    (hincluded : fields.lookup "include_roots" = some (texts included))
    (hexcluded : fields.lookup "exclude_roots" = some (texts excluded))
    (hextensions : fields.lookup "extensions" = some (texts extensions))
    (hnames : fields.lookup "file_names" = some (texts names)) :
    Spells included excluded extensions names (.object fields)
  /-- They stand one after the other. -/
  | array : Spells included excluded extensions names
    (.array [texts included, texts excluded, texts extensions, texts names])

/-- A value spells its rules in one way only. -/
theorem Spells.unique {included excluded extensions names included' excluded' extensions' names' :
    List String} {v : Value} (h : Spells included excluded extensions names v)
    (h' : Spells included' excluded' extensions' names' v) :
    included = included' ∧ excluded = excluded' ∧ extensions = extensions' ∧ names = names' := by
  cases h with
  | object hincluded hexcluded hextensions hnames =>
    cases h' with
    | object hincluded' hexcluded' hextensions' hnames' =>
      rw [hincluded] at hincluded'
      rw [hexcluded] at hexcluded'
      rw [hextensions] at hextensions'
      rw [hnames] at hnames'
      exact ⟨Value.texts_injective (Option.some.inj hincluded'),
        Value.texts_injective (Option.some.inj hexcluded'),
        Value.texts_injective (Option.some.inj hextensions'),
        Value.texts_injective (Option.some.inj hnames')⟩
  | array =>
    generalize hv : Value.array _ = v at h'
    cases h' with
    | object => cases hv
    | array =>
      have hitems := Value.array.inj hv
      simp only [List.cons.injEq, and_true] at hitems
      obtain ⟨hincluded, hexcluded, hextensions, hnames⟩ := hitems
      exact ⟨Value.texts_injective hincluded, Value.texts_injective hexcluded,
        Value.texts_injective hextensions, Value.texts_injective hnames⟩

/-- The filter that is read where these rules are written. -/
def ofTexts (included excluded extensions names : List String) : Filter :=
  ⟨included.map Path.ofString, excluded.map Path.ofString, .ofList extensions, .ofList names⟩

/-- **A filter is read as it is written.** -/
theorem yields_ofTexts (v : Value) :
    Yields (fun f => ∃ included excluded extensions names,
      Spells included excluded extensions names v ∧ f = ofTexts included excluded extensions names)
      (ofValue v) := by
  cases v with
  | object fields =>
    refine (Value.yields_field_of_lookup Path.yields_ofTexts _ _).bind fun _ hexcluded => ?_
    refine (Value.yields_field_of_lookup NameSet.yields_ofTexts _ _).bind fun _ hextensions => ?_
    refine (Value.yields_field_of_lookup NameSet.yields_ofTexts _ _).bind fun _ hnames => ?_
    refine (Value.yields_field_of_lookup Path.yields_ofTexts _ _).bind fun _ hincluded => ?_
    refine (yields_require hincluded).bind fun _ hincluded => ?_
    refine (yields_require hexcluded).bind fun _ hexcluded => ?_
    refine (yields_require hextensions).bind fun _ hextensions => ?_
    refine (yields_require hnames).bind fun _ hnames => yields_ok ?_
    obtain ⟨_, hincluded, included, rfl, rfl⟩ := hincluded
    obtain ⟨_, hexcluded, excluded, rfl, rfl⟩ := hexcluded
    obtain ⟨_, hextensions, extensions, rfl, rfl⟩ := hextensions
    obtain ⟨_, hnames, names, rfl, rfl⟩ := hnames
    exact ⟨_, _, _, _, .object hincluded hexcluded hextensions hnames, rfl⟩
  | array items =>
    refine Value.RowReads.yields_readRow (P := fun items f => ∃ included excluded extensions names,
      Spells included excluded extensions names (.array items) ∧
        f = ofTexts included excluded extensions names) ?_ items
    refine Value.rowReads_item_bind Path.yields_ofTexts fun _ _ hincluded => ?_
    refine Value.rowReads_item_bind Path.yields_ofTexts fun _ _ hexcluded => ?_
    refine Value.rowReads_item_bind NameSet.yields_ofTexts fun _ _ hextensions => ?_
    refine Value.rowReads_item_bind NameSet.yields_ofTexts fun _ _ hnames => ?_
    obtain ⟨included, rfl, rfl⟩ := hincluded
    obtain ⟨excluded, rfl, rfl⟩ := hexcluded
    obtain ⟨extensions, rfl, rfl⟩ := hextensions
    obtain ⟨names, rfl, rfl⟩ := hnames
    exact Value.rowReads_pure ⟨_, _, _, _, .array, rfl⟩
  | _ => exact yields_error _

/-! ### What is put together -/

theorem foldl_allowPath (ps : List Path) (f : Filter) :
    ps.foldl allowPath f = { f with includeRoots := f.includeRoots ++ ps } := by
  induction ps generalizing f with
  | nil => simp
  | cons p ps ih => rw [List.foldl_cons, ih, allowPath, List.append_assoc, List.singleton_append]

theorem foldl_denyPath (ps : List Path) (f : Filter) :
    ps.foldl denyPath f = { f with excludeRoots := f.excludeRoots ++ ps } := by
  induction ps generalizing f with
  | nil => simp
  | cons p ps ih => rw [List.foldl_cons, ih, denyPath, List.append_assoc, List.singleton_append]

theorem foldl_allowFileName (names : List String) (f : Filter) :
    names.foldl allowFileName f =
      { f with fileNames := names.foldl NameSet.insert f.fileNames } := by
  induction names generalizing f with
  | nil => rfl
  | cons name names ih => rw [List.foldl_cons, ih, allowFileName, List.foldl_cons]

theorem foldl_allowExtension (extensions : List String) (f : Filter) :
    extensions.foldl allowExtension f =
      { f with extensions := (extensions.map lowercase).foldl NameSet.insert f.extensions } := by
  induction extensions generalizing f with
  | nil => rfl
  | cons e extensions ih => rw [List.foldl_cons, ih, allowExtension, List.map_cons, List.foldl_cons]

/-- **A filter that is put together from rules** holds them as they are, but for the extensions. -/
theorem ofRules_eq (allowed denied : List Path) (names extensions : List String) :
    ofRules allowed denied names extensions =
      ⟨allowed, denied, .ofList (extensions.map lowercase), .ofList names⟩ := by
  rw [ofRules, foldl_allowExtension, foldl_allowFileName, foldl_denyPath, foldl_allowPath]
  rfl

/-! ### What is let through -/

/-- Whether the extension of the name that a path ends in, in lower case, is one of these. -/
def Finds (extensions : List String) (p : Path) : Prop :=
  ∃ e, p.extension?.bind Utf8.decode? = some e ∧ lowercase e ∈ extensions

/-- What is found is found in lower case, too. -/
theorem Finds.map_lowercase {extensions : List String} {p : Path} (h : Finds extensions p) :
    Finds (extensions.map lowercase) p := by
  obtain ⟨e, he, hmem⟩ := h
  exact ⟨e, he, List.mem_map.2 ⟨lowercase e, hmem, lowercase_lowercase e⟩⟩

theorem isEmpty_ofList (xs : List String) : (NameSet.ofList xs).isEmpty = true ↔ xs = [] := by
  rw [NameSet.isEmpty, List.isEmpty_iff, List.eq_nil_iff_forall_not_mem,
    List.eq_nil_iff_forall_not_mem]
  exact forall_congr' fun x => not_congr NameSet.mem_ofList

theorem extensionMatches_iff {f : Filter} {extensions : List String}
    (hf : f.extensions = .ofList extensions) {p : Path} :
    f.extensionMatches p = true ↔ extensions = [] ∨ Finds extensions p := by
  rw [extensionMatches, hf, Bool.or_eq_true, isEmpty_ofList]
  refine or_congr_right ?_
  unfold Finds
  rcases p.extension?.bind Utf8.decode? with _ | e
  · simp
  · simp [NameSet.contains, NameSet.mem_ofList]

theorem level_file (f : Filter) (p : Path) : f.level p false =
    if f.isExcluded p = false ∧ f.isIncluded p = true ∧ f.extensionMatches p = true ∧
      f.fileNameMatches p = true then .allow else .deny := by
  unfold level
  cases f.isExcluded p <;> cases f.isIncluded p <;> cases f.extensionMatches p <;>
    cases f.fileNameMatches p <;> rfl

/-- **With other extensions, a filter says the same** of all directories and of the files whose
extension both let through. -/
theorem level_with_extensions {f g : Filter} (hg : g = { f with extensions := g.extensions })
    (hempty : g.extensions.isEmpty = f.extensions.isEmpty) {p : Path}
    (hp : f.extensionMatches p = true → g.extensionMatches p = true) (isDirectory : Bool) :
    f.level p isDirectory = if isDirectory = false ∧ f.extensionMatches p = false then .deny
      else g.level p isDirectory := by
  have hexcluded : g.isExcluded p = f.isExcluded p := by rw [hg]; rfl
  have hincluded : g.isIncluded p = f.isIncluded p := by rw [hg]; rfl
  have hleads : g.leadsToRoot p = f.leadsToRoot p := by rw [hg]; rfl
  have hnames : g.fileNames = f.fileNames := by rw [hg]
  have hname : g.fileNameMatches p = f.fileNameMatches p := by rw [fileNameMatches, hnames]; rfl
  cases isDirectory with
  | true =>
    have hrules : g.hasFileRules = f.hasFileRules := by rw [hasFileRules, hempty, hnames]; rfl
    simp [level, hexcluded, hincluded, hleads, hrules]
  | false =>
    rw [level_file, level_file, hexcluded, hincluded, hname]
    cases hmatches : f.extensionMatches p with
    | true => simp [hp hmatches]
    | false => simp

section Texts

variable (included excluded extensions names : List String)

/-- The filter of the same rules differs in extensions only. -/
theorem ofRules_eq_ofTexts :
    ofRules (included.map .ofString) (excluded.map .ofString) names extensions =
      { ofTexts included excluded extensions names with
        extensions := .ofList (extensions.map lowercase) } :=
  ofRules_eq _ _ _ _

/-- **Where it makes a difference that a filter was read.** -/
theorem level_ofTexts_eq (p : Path) (isDirectory : Bool) :
    (ofTexts included excluded extensions names).level p isDirectory =
      if isDirectory = false ∧
          (ofTexts included excluded extensions names).extensionMatches p = false
        then .deny
        else (ofRules (included.map .ofString) (excluded.map .ofString) names extensions).level p
          isDirectory := by
  have hread : (ofTexts included excluded extensions names).extensions = .ofList extensions := rfl
  have hbuilt := congrArg Filter.extensions (ofRules_eq_ofTexts included excluded extensions names)
  refine level_with_extensions ?_ ?_ ?_ isDirectory
  · rw [hbuilt]
    exact ofRules_eq_ofTexts _ _ _ _
  · rw [hbuilt, hread, Bool.eq_iff_iff, isEmpty_ofList, isEmpty_ofList, List.map_eq_nil_iff]
  · rw [extensionMatches_iff hread, extensionMatches_iff hbuilt, List.map_eq_nil_iff]
    exact Or.imp_right Finds.map_lowercase

theorem level_ofTexts_ne_iff (p : Path) (isDirectory : Bool) :
    (ofTexts included excluded extensions names).level p isDirectory ≠
        (ofRules (included.map .ofString) (excluded.map .ofString) names extensions).level p
          isDirectory ↔
      isDirectory = false ∧
        (ofRules (included.map .ofString) (excluded.map .ofString) names extensions).level p false =
          .allow ∧
        extensions ≠ [] ∧ ¬ Finds extensions p := by
  have hread : (ofTexts included excluded extensions names).extensions = .ofList extensions := rfl
  have hfile : Level.deny ≠
      (ofRules (included.map .ofString) (excluded.map .ofString) names extensions).level p false ↔
        (ofRules (included.map .ofString) (excluded.map .ofString) names extensions).level p false =
          .allow := by
    rw [level_file]
    split_ifs <;> simp
  rw [level_ofTexts_eq, ← not_or, ← extensionMatches_iff hread, Bool.not_eq_true]
  cases isDirectory with
  | true => simp
  | false => cases (ofTexts included excluded extensions names).extensionMatches p <;> simp [hfile]

/-- What the filter of the same rules finds is the lower-case form of one of them. -/
theorem finds_of_level_ofRules {extensions : List String}
    (hlower : ∀ e ∈ extensions, lowercase e ∈ extensions) {p : Path}
    (h : (ofRules (included.map .ofString) (excluded.map .ofString) names extensions).level p
      false = .allow) : extensions = [] ∨ Finds extensions p := by
  have hbuilt := congrArg Filter.extensions (ofRules_eq_ofTexts included excluded extensions names)
  rw [level_file] at h
  split_ifs at h with hall
  have hmatches := (extensionMatches_iff hbuilt).1 hall.2.2.1
  rw [List.map_eq_nil_iff] at hmatches
  refine hmatches.imp_right ?_
  rintro ⟨e, he, hmem⟩
  obtain ⟨x, hx, hxe⟩ := List.mem_map.1 hmem
  exact ⟨e, he, hxe ▸ hlower x hx⟩

end Texts

/-- **A filter that is read lets through what the filter of the same rules does**, but for files
whose extension, in lower case, is not among the rules as they are written. So it makes no
difference if these hold the lower-case form of each of them. -/
theorem level_of_read {v : Value} {f : Filter} (h : ofValue v = .ok f) :
    ∃ included excluded extensions names, Spells included excluded extensions names v ∧
      let built := ofRules (included.map .ofString) (excluded.map .ofString) names extensions
      (∀ p isDirectory, f.level p isDirectory ≠ built.level p isDirectory ↔
        isDirectory = false ∧ built.level p false = .allow ∧ extensions ≠ [] ∧
          ¬ Finds extensions p) ∧
      (∀ p isDirectory, f.level p isDirectory ≠ built.level p isDirectory →
        f.level p isDirectory = .deny) ∧
      ((∀ e ∈ extensions, lowercase e ∈ extensions) →
        ∀ p isDirectory, f.level p isDirectory = built.level p isDirectory) := by
  obtain ⟨included, excluded, extensions, names, hspells, rfl⟩ := yields_ofTexts v f h
  have hdiffer := level_ofTexts_ne_iff included excluded extensions names
  refine ⟨included, excluded, extensions, names, hspells, hdiffer, fun p isDirectory hne => ?_,
    fun hlower p isDirectory => ?_⟩
  · rw [level_ofTexts_eq] at hne ⊢
    split_ifs at hne ⊢
    · rfl
    · exact absurd rfl hne
  · by_contra hne
    obtain ⟨-, hallow, hsome, hnot⟩ := (hdiffer p isDirectory).1 hne
    exact (finds_of_level_ofRules _ _ _ hlower hallow).elim hsome hnot

/-- A rule in capitals finds nothing, however the extension of a file is written. -/
theorem level_of_read_of_capitals :
    let v := Value.object [("exclude_roots", texts []), ("extensions", texts ["RS"]),
      ("file_names", texts []), ("include_roots", texts [])]
    let f := ofTexts [] [] ["RS"] []
    let built := ofRules [] [] [] ["RS"]
    ofValue v = .ok f ∧ built.level (.ofString "a.rs") false = .allow ∧
      f.level (.ofString "a.rs") false ≠ built.level (.ofString "a.rs") false ∧
      f.level (.ofString "a.rs") false = .deny ∧ f.level (.ofString "a.RS") false = .deny := by
  intro v f built
  have hread : ofValue v = .ok f := rfl
  have hallow : built.level (.ofString "a.rs") false = .allow := by decide +kernel
  have hnot : ¬ Finds ["RS"] (.ofString "a.rs") := by
    rintro ⟨e, he, hmem⟩
    have hext : (Path.ofString "a.rs").extension?.bind Utf8.decode? = some "rs" := by decide +kernel
    obtain rfl := Option.some.inj (hext.symm.trans he)
    exact absurd hmem (by decide +kernel)
  obtain ⟨included, excluded, extensions, names, hspells, hdiffer, hdeny, -⟩ := level_of_read hread
  obtain ⟨rfl, rfl, rfl, rfl⟩ := hspells.unique (.object rfl rfl rfl rfl : Spells [] [] ["RS"] [] v)
  have hne := (hdiffer (.ofString "a.rs") false).2 ⟨rfl, hallow, by decide, hnot⟩
  exact ⟨hread, hallow, hne, hdeny _ _ hne, by decide +kernel⟩

end Filter

end SnapStore
