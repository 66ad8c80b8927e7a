import Mathlib.Data.List.TakeWhile
import SnapStore.Filter
import SnapStore.Proofs.Path.Text

/-!
# What rules about extensions let through

A rule about an extension is to let files through whose names end in a dot and the extension, in
whatever case (`SnapStore.Filter.EndsIn`). What it looks at is the extension of a name, that is,
what follows its last dot if there is something before that dot
(`SnapStore.Path.extensionOfName_encode_iff`). This is the same as long as there is no dot in the
rule and the only dot of the name does not open it (`SnapStore.Filter.level_allowExtension`).

Case is that of all letters, not only those of ASCII, so `É` and `é` are the same to a rule. Folding
texts to lower case neither makes a dot nor takes one away (`SnapStore.dot_mem_lowercase_iff`), and
if there are only letters of ASCII then it is the familiar folding (`SnapStore.lowercase_of_ascii`).
-/

namespace SnapStore

open Bytes (dot)

/-! ### Folding -/

theorem ofNat_ne_dot {n : Nat} (hn : n ≠ 0x2e) : Char.ofNat n ≠ '.' := by
  intro hdot
  by_cases hvalid : n.isValidChar
  · rw [Char.ofNat, dif_pos hvalid] at hdot
    exact hn (congrArg Char.toNat hdot)
  · rw [Char.ofNat, dif_neg hvalid] at hdot
    exact absurd hdot (by decide)

/-- Whatever the table folds becomes something beyond the dot. -/
theorem lowerByTable_ne_dot {c : Char} (hc : 0x80 ≤ c.toNat) : Letters.lowerByTable c ≠ '.' := by
  have hbeyond : Letters.lowerRuns.all (fun r => 0x2e < (r.first : Int) + r.shift) = true := by
    decide
  unfold Letters.lowerByTable
  split
  · rename_i r hr
    have hfirst : r.first ≤ c.toNat := by
      have hfound := List.find?_some hr
      simp only [Bool.and_eq_true, decide_eq_true_eq] at hfound
      exact hfound.1.1
    have hr := of_decide_eq_true (List.all_eq_true.1 hbeyond r (List.mem_of_find?_eq_some hr))
    exact ofNat_ne_dot (by omega)
  · rintro rfl
    exact absurd hc (by decide)

/-- Only the dot is folded to a dot. -/
theorem lowercaseChar_eq_dot_iff {c : Char} : lowercaseChar c = '.' ↔ c = '.' := by
  have hascii : ∀ n < 0x80, (Char.ofNat n).toLower = '.' ↔ Char.ofNat n = '.' := by decide
  by_cases hc : c.toNat < 0x80
  · rw [lowercaseChar_of_ascii hc, ← Char.ofNat_toNat c]
    exact hascii _ hc
  · refine iff_of_false ?_ ?_
    · rw [lowercaseChar, if_neg hc]
      exact lowerByTable_ne_dot (Nat.not_lt.1 hc)
    · rintro rfl
      exact hc (by decide)

/-- **Folding leaves dots as they are.** -/
theorem dot_mem_lowercase_iff {s : String} : '.' ∈ (lowercase s).toList ↔ '.' ∈ s.toList := by
  have hafter : ∀ (cs before : List Char), '.' ∈ lowercaseAfter before cs ↔ '.' ∈ cs := by
    intro cs
    induction cs with
    | nil => exact fun _ => Iff.rfl
    | cons c cs ih =>
      intro before
      rw [lowercaseAfter, List.mem_append, ih, List.mem_cons]
      refine or_congr_left ?_
      split_ifs with hsigma hword hdotted
      · simp [hsigma]
      · simp [hsigma]
      · simp [hdotted]
      · rw [List.mem_singleton, eq_comm, lowercaseChar_eq_dot_iff, eq_comm]
  rw [lowercase, String.toList_ofList]
  exact hafter _ _

/-- On ASCII texts, folding is the familiar one. -/
theorem lowercase_of_ascii {s : String} (h : ∀ c ∈ s.toList, c.toNat < 0x80) :
    lowercase s = s.toLower := by
  have hafter : ∀ (cs before : List Char), (∀ c ∈ cs, c.toNat < 0x80) →
      lowercaseAfter before cs = cs.map Char.toLower := by
    intro cs
    induction cs with
    | nil => exact fun _ _ => rfl
    | cons c cs ih =>
      intro before hcs
      have hc : c.toNat < 0x80 := hcs c List.mem_cons_self
      have hsigma : c ≠ 'Σ' := by
        rintro rfl
        exact absurd hc (by decide)
      have hdotted : c ≠ 'İ' := by
        rintro rfl
        exact absurd hc (by decide)
      rw [lowercaseAfter, if_neg hsigma, if_neg hdotted, lowercaseChar_of_ascii hc,
        ih _ fun d hd => hcs d (List.mem_cons_of_mem _ hd)]
      rfl
  rw [lowercase, hafter _ _ h, ← String.toList_inj, String.toList_ofList]
  exact String.toList_map.symm

namespace Path

/-! ### The extension of a name -/

theorem extensionOfName_of_notMem {n : Bytes} (h : dot ∉ n) : extensionOfName n = none := by
  have hall : n.reverse.takeWhile (· ≠ dot) = n.reverse := by
    rw [List.takeWhile_eq_self_iff]
    intro b hb
    exact decide_eq_true fun hdot => h (hdot ▸ List.mem_reverse.1 hb)
  unfold extensionOfName
  rw [hall, List.reverse_reverse]
  exact if_neg (by omega)

/-- The extension follows the last dot, if something stands before that. -/
theorem extensionOfName_append {stem t : Bytes} (ht : dot ∉ t) :
    extensionOfName (stem ++ dot :: t) = if stem = [] then none else some t := by
  have htail : (stem ++ dot :: t).reverse.takeWhile (· ≠ dot) = t.reverse := by
    rw [List.reverse_append, List.reverse_cons, List.append_assoc, List.takeWhile_append_of_pos]
    · simp
    · intro b hb
      exact decide_eq_true fun hdot => ht (hdot ▸ List.mem_reverse.1 hb)
  unfold extensionOfName
  rw [htail, List.reverse_reverse]
  dsimp only
  by_cases hstem : stem = []
  · rw [if_pos hstem, hstem]
    exact if_neg (by simp)
  · rw [if_neg hstem]
    have hlength := List.length_pos_iff.2 hstem
    exact if_pos (by rw [List.length_append, List.length_cons]; omega)

/-- **The extension of a name follows its last dot**, and something stands before that. -/
theorem extensionOfName_eq_some_iff {n t : Bytes} :
    extensionOfName n = some t ↔ ∃ stem, stem ≠ [] ∧ n = stem ++ dot :: t ∧ dot ∉ t := by
  constructor
  · intro h
    by_cases hmem : dot ∈ n
    · obtain ⟨back, front, hn, hback⟩ := List.eq_append_cons_of_mem (List.mem_reverse.2 hmem)
      have hcut : n = front.reverse ++ dot :: back.reverse := by
        rw [← List.reverse_reverse n, hn]
        simp
      have hback : dot ∉ back.reverse := fun h => hback (List.mem_reverse.1 h)
      rw [hcut, extensionOfName_append hback] at h
      split_ifs at h with hfront
      obtain rfl := Option.some.inj h
      exact ⟨front.reverse, hfront, hcut, hback⟩
    · rw [extensionOfName_of_notMem hmem] at h
      cases h
  · rintro ⟨stem, hstem, rfl, ht⟩
    rw [extensionOfName_append ht, if_neg hstem]

/-- The extension of a name that is text is a text. -/
theorem extensionOfName_encode_iff {name : String} {t : Bytes} :
    extensionOfName (Utf8.encode name) = some t ↔
      ∃ stem e, stem ≠ "" ∧ name = stem ++ "." ++ e ∧ '.' ∉ e.toList ∧ t = Utf8.encode e := by
  have hdot : Utf8.encode "." = [dot] := rfl
  have hmem : ∀ e, dot ∈ Utf8.encode e ↔ '.' ∈ e.toList := fun e => Utf8.mem_encode_iff rfl
  rw [extensionOfName_eq_some_iff]
  constructor
  · rintro ⟨front, hfront, hname, ht⟩
    obtain ⟨stem, e, rfl, rfl, rfl⟩ := Utf8.exists_eq_append_of_encode hdot hname
    refine ⟨stem, e, ?_, rfl, fun h => ht ((hmem e).2 h), rfl⟩
    rintro rfl
    exact hfront rfl
  · rintro ⟨stem, e, hstem, rfl, he, rfl⟩
    refine ⟨Utf8.encode stem, fun h => hstem (Utf8.encode_injective h), ?_,
      fun h => he ((hmem e).1 h)⟩
    rw [Utf8.encode_append, Utf8.encode_append, hdot, List.append_assoc]
    rfl

end Path

namespace Filter

/-! ### Rules -/

/-- Whether a name ends in a dot and then in the extension, if both are folded in some way. -/
def EndsIn (fold : String → String) (name extension : String) : Prop :=
  ∃ stem e, name = stem ++ "." ++ e ∧ fold e = fold extension

/-- Whether the only dot of a name opens it. -/
def OnlyOpens (name : String) : Prop := ∃ rest, name = "." ++ rest ∧ '.' ∉ rest.toList

theorem level_allowExtension_file (extension : String) (p : Path) :
    (empty.allowExtension extension).level p false =
      if (empty.allowExtension extension).extensionMatches p then .allow else .deny := by
  have hincluded : (empty.allowExtension extension).isIncluded p = true := rfl
  have hexcluded : (empty.allowExtension extension).isExcluded p = false := rfl
  have hname : (empty.allowExtension extension).fileNameMatches p = true := rfl
  rw [level, hexcluded, hincluded, hname, Bool.and_true]
  rfl

theorem extensionMatches_allowExtension_iff {extension : String} {p : Path} :
    (empty.allowExtension extension).extensionMatches p = true ↔
      ∃ e, p.extension?.bind Utf8.decode? = some e ∧ lowercase e = lowercase extension := by
  have hrules : (empty.allowExtension extension).extensions = ⟨[lowercase extension]⟩ := rfl
  unfold extensionMatches
  rw [hrules]
  rcases p.extension?.bind Utf8.decode? with _ | e
  · simp [NameSet.isEmpty]
  · simp [NameSet.isEmpty, NameSet.contains]

/-- What a rule about an extension lets through: what has an extension that is folded to the
same. -/
theorem level_allowExtension_eq_allow_iff {extension name : String} {p : Path}
    (hp : p.fileName? = some (Utf8.encode name)) :
    (empty.allowExtension extension).level p false = .allow ↔
      ∃ stem e, stem ≠ "" ∧ name = stem ++ "." ++ e ∧ '.' ∉ e.toList ∧
        lowercase e = lowercase extension := by
  have hlevel : (empty.allowExtension extension).level p false = .allow ↔
      (empty.allowExtension extension).extensionMatches p = true := by
    rw [level_allowExtension_file]
    split_ifs with h <;> simp [h]
  rw [hlevel, extensionMatches_allowExtension_iff, Path.extension?, hp, Option.bind_some]
  constructor
  · rintro ⟨e, he, hfold⟩
    obtain ⟨t, ht, hdecode⟩ := Option.bind_eq_some_iff.1 he
    obtain ⟨stem, e', hstem, hcut, he', rfl⟩ := Path.extensionOfName_encode_iff.1 ht
    rw [Utf8.decode?_encode] at hdecode
    obtain rfl := Option.some.inj hdecode
    exact ⟨stem, e', hstem, hcut, he', hfold⟩
  · rintro ⟨stem, e, hstem, hcut, he, hfold⟩
    refine ⟨e, ?_, hfold⟩
    rw [Path.extensionOfName_encode_iff.2 ⟨stem, e, hstem, hcut, he, rfl⟩, Option.bind_some,
      Utf8.decode?_encode]

/-- On ASCII texts it does not matter which of the two foldings is meant. -/
theorem endsIn_lowercase_iff {extension name : String}
    (h : ∀ c ∈ name.toList ++ extension.toList, c.toNat < 0x80) :
    EndsIn lowercase name extension ↔ EndsIn String.toLower name extension := by
  have hextension := lowercase_of_ascii fun c hc => h c (List.mem_append_right _ hc)
  refine exists_congr fun stem => exists_congr fun e => and_congr_right ?_
  rintro rfl
  have he := lowercase_of_ascii (s := e) fun c hc => h c (by simp [hc])
  rw [he, hextension]

/-- **A rule about an extension lets through what ends in a dot and the extension**, in whatever
case, if there is no dot in the extension and the only dot of the name does not open it. If there
are only characters of ASCII in both then it is their case alone that does not matter. -/
theorem level_allowExtension {extension name : String} (hextension : '.' ∉ extension.toList)
    (hname : ¬ OnlyOpens name) {p : Path} (hp : p.fileName? = some (Utf8.encode name)) :
    ((empty.allowExtension extension).level p false = .allow ↔ EndsIn lowercase name extension) ∧
      ((∀ c ∈ name.toList ++ extension.toList, c.toNat < 0x80) →
        ((empty.allowExtension extension).level p false = .allow ↔
          EndsIn String.toLower name extension)) := by
  have hiff : (empty.allowExtension extension).level p false = .allow ↔
      EndsIn lowercase name extension := by
    rw [level_allowExtension_eq_allow_iff hp]
    constructor
    · rintro ⟨stem, e, -, hcut, -, hfold⟩
      exact ⟨stem, e, hcut, hfold⟩
    · rintro ⟨stem, e, hcut, hfold⟩
      have he : '.' ∉ e.toList := by
        rw [← dot_mem_lowercase_iff, hfold, dot_mem_lowercase_iff]
        exact hextension
      refine ⟨stem, e, ?_, hcut, he, hfold⟩
      rintro rfl
      exact hname ⟨e, by rw [hcut, String.empty_append], he⟩
  exact ⟨hiff, fun hascii => hiff.trans (endsIn_lowercase_iff hascii)⟩

/-- The last dot of a name counts, and the case of what follows it does not. -/
theorem level_allowExtension_of_dots :
    let name := "a.tar.Gz"
    let p := Path.ofString "d/a.tar.Gz"
    (empty.allowExtension "gz").level p false = .allow ∧ EndsIn lowercase name "gz" ∧
      EndsIn String.toLower name "gz" := by
  intro name p
  have hname : ¬ OnlyOpens name := by
    rintro ⟨rest, hrest, -⟩
    have hfirst : name.toList.head? = some '.' := by rw [hrest, String.toList_append]; rfl
    exact absurd hfirst (by decide)
  have hp : p.fileName? = some (Utf8.encode name) := by decide +kernel
  obtain ⟨hiff, hascii⟩ := level_allowExtension (show '.' ∉ "gz".toList by decide) hname hp
  have hallow : (empty.allowExtension "gz").level p false = .allow := by decide +kernel
  have hnats : ∀ c ∈ name.toList ++ "gz".toList, c.toNat < 0x80 := by simp [name]
  exact ⟨hallow, hiff.1 hallow, (hascii hnats).1 hallow⟩

/-- **It is not the end of the name that is looked at.** -/
theorem level_allowExtension_of_end :
    ((empty.allowExtension "é").level (.ofString "a.É") false = .allow ∧
        ¬ EndsIn String.toLower "a.É" "é") ∧
      ((empty.allowExtension "tar.gz").level (.ofString "a.tar.gz") false = .deny ∧
        EndsIn String.toLower "a.tar.gz" "tar.gz") ∧
      (empty.allowExtension "rs").level (.ofString ".rs") false = .deny ∧
        EndsIn String.toLower ".rs" "rs" := by
  refine ⟨⟨by decide +kernel, ?_⟩, ⟨by decide +kernel, "a", "tar.gz", by decide, rfl⟩,
    by decide +kernel, "", "rs", by decide, rfl⟩
  rintro ⟨stem, e, hcut, hfold⟩
  -- What is folded to one character is one, and here it can only be the last of the name.
  have hfolded : e.toList.map Char.toLower = "é".toList.map Char.toLower := by
    rw [← String.toList_map, ← String.toList_map]
    exact congrArg String.toList hfold
  have hone : "é".toList.map Char.toLower = ['é'] := by decide
  obtain ⟨c, hc, hlower⟩ := List.map_eq_singleton_iff.1 (hfolded.trans hone)
  have hlast : "a.É".toList.getLast? = some c := by
    rw [hcut, String.toList_append, hc, List.getLast?_concat]
  obtain rfl : 'É' = c := Option.some.inj hlast
  exact absurd hlower (by decide)

end Filter

end SnapStore
