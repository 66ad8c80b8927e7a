import Mathlib.Data.List.Basic
import SnapStore.Text.Lowercase

/-!
# Folding once is enough

A text in lower case is not changed by folding it again (`SnapStore.lowercase_lowercase`). This is
a property of the tables: no character is folded to one that would be folded in turn. Tables are
compared run by run (`SnapStore.Letters.LowerRun.isApart`), and it is only where the characters of
one run fall among those of another that they are looked at one by one.
-/

namespace SnapStore

namespace Letters

/-! ### Runs -/

namespace LowerRun

/-- Whether a code point is in the run. -/
def covers (r : LowerRun) (n : Nat) : Bool :=
  r.first ≤ n && n ≤ r.last && (n - r.first) % r.step == 0

/-- What the run folds a code point to. -/
def lowered (r : LowerRun) (n : Nat) : Nat := (n + r.shift).toNat

/-- Whether nothing in the run is folded to anything in another run. -/
def isApart (r q : LowerRun) : Bool :=
  Nat.blt (r.lowered r.last) q.first || Nat.blt q.last (r.lowered r.first) ||
    (List.range ((r.last - r.first) / r.step + 1)).all fun k =>
      !q.covers (r.lowered (r.first + k * r.step))

/-- Whether everything in the run is folded to a code point that is a character. -/
def isValid (r : LowerRun) : Bool :=
  r.lowered r.last < 0xd800 || (0xdfff < r.lowered r.first && r.lowered r.last < 0x110000)

variable {r q : LowerRun} {n : Nat}

theorem covers_iff : r.covers n = true ↔ r.first ≤ n ∧ n ≤ r.last ∧ (n - r.first) % r.step = 0 := by
  simp [covers, and_assoc]

theorem lowered_between (h : r.covers n = true) :
    r.lowered r.first ≤ r.lowered n ∧ r.lowered n ≤ r.lowered r.last := by
  obtain ⟨hfirst, hlast, -⟩ := covers_iff.1 h
  unfold lowered
  omega

/-- What is in a run is so many steps away from its first. -/
theorem exists_step (h : r.covers n = true) :
    ∃ k < (r.last - r.first) / r.step + 1, n = r.first + k * r.step := by
  obtain ⟨hfirst, hlast, hstep⟩ := covers_iff.1 h
  refine ⟨(n - r.first) / r.step, ?_, ?_⟩
  · exact Nat.lt_succ_of_le (Nat.div_le_div_right (by omega))
  · have hmul := Nat.div_add_mod' (n - r.first) r.step
    omega

theorem covers_lowered_of_isApart (hapart : r.isApart q = true) (h : r.covers n = true) :
    q.covers (r.lowered n) = false := by
  obtain ⟨hlow, hhigh⟩ := lowered_between h
  obtain ⟨k, hk, hn⟩ := exists_step h
  simp only [isApart, Bool.or_eq_true, Nat.blt_eq, List.all_eq_true, List.mem_range,
    Bool.not_eq_true'] at hapart
  rcases hapart with (hbelow | habove) | hsteps
  · refine Bool.eq_false_iff.2 fun hcovers => ?_
    have hfirst := (covers_iff.1 hcovers).1
    omega
  · refine Bool.eq_false_iff.2 fun hcovers => ?_
    have hlast := (covers_iff.1 hcovers).2.1
    omega
  · rw [hn]
    exact hsteps k hk

theorem toNat_ofNat_lowered (hvalid : r.isValid = true) (h : r.covers n = true) :
    (Char.ofNat (r.lowered n)).toNat = r.lowered n := by
  obtain ⟨hlow, hhigh⟩ := lowered_between h
  have hchar : (r.lowered n).isValidChar := by
    simp only [isValid, Bool.or_eq_true, Bool.and_eq_true, decide_eq_true_eq] at hvalid
    unfold Nat.isValidChar
    omega
  rw [Char.ofNat, dif_pos hchar]
  rfl

end LowerRun

/-! ### What is folded -/

/-- The capitals of ASCII. -/
def asciiRun : LowerRun := ⟨0x41, 0x5a, 1, 32⟩

/-- The characters that are folded to one other. -/
def singleRuns : List LowerRun := asciiRun :: lowerRuns

/-- The characters that are folded at all: there are two more. -/
def foldedRuns : List LowerRun := ⟨0x130, 0x130, 1, 0⟩ :: ⟨0x3a3, 0x3a3, 1, 0⟩ :: singleRuns

/-- **Nothing is folded to what would be folded again.** -/
theorem isApart_of_mem {r q : LowerRun} (hr : r ∈ singleRuns) (hq : q ∈ foldedRuns) :
    r.isApart q = true := by
  have hall : (singleRuns.all fun r => foldedRuns.all r.isApart) = true := by decide +kernel
  exact List.all_eq_true.1 (List.all_eq_true.1 hall r hr) q hq

theorem isValid_of_mem {r : LowerRun} (hr : r ∈ singleRuns) : r.isValid = true := by
  have hall : singleRuns.all LowerRun.isValid = true := by decide
  exact List.all_eq_true.1 hall r hr

theorem lowerByTable_eq (c : Char) :
    lowerByTable c = ((lowerRuns.find? (·.covers c.toNat)).map
      fun r => Char.ofNat (r.lowered c.toNat)).getD c := by
  unfold lowerByTable LowerRun.covers
  cases lowerRuns.find? fun r => r.first ≤ c.toNat && c.toNat ≤ r.last &&
    (c.toNat - r.first) % r.step == 0 <;> rfl

theorem not_covers_of_ascii {n : Nat} (hn : n < 0x80) : ∀ r ∈ lowerRuns, r.covers n = false := by
  have hall : lowerRuns.all (fun r => 0x80 ≤ r.first) = true := by decide
  intro r hr
  have hfirst := of_decide_eq_true (List.all_eq_true.1 hall r hr)
  refine Bool.eq_false_iff.2 fun hcovers => ?_
  have hlow := (LowerRun.covers_iff.1 hcovers).1
  omega

/-- Folding a character that stands alone, by one table for all characters. -/
theorem lowercaseChar_eq (c : Char) :
    lowercaseChar c = ((singleRuns.find? (·.covers c.toNat)).map
      fun r => Char.ofNat (r.lowered c.toNat)).getD c := by
  by_cases hc : c.toNat < 0x80
  · have hnone := List.find?_eq_none.2 fun r hr => Bool.eq_false_iff.1 (not_covers_of_ascii hc r hr)
    have hascii : ∀ n < 0x80, (Char.ofNat n).toLower =
        if asciiRun.covers n then Char.ofNat (asciiRun.lowered n) else Char.ofNat n := by
      decide
    have hlower := hascii c.toNat hc
    rw [Char.ofNat_toNat] at hlower
    rw [lowercaseChar_of_ascii hc, hlower, singleRuns, List.find?_cons, hnone]
    cases asciiRun.covers c.toNat <;> rfl
  · have hno : asciiRun.covers c.toNat = false := Bool.eq_false_iff.2 fun hcovers => by
      have hlast : c.toNat ≤ 0x5a := (LowerRun.covers_iff.1 hcovers).2.1
      omega
    rw [lowercaseChar, if_neg hc, lowerByTable_eq, singleRuns, List.find?_cons, hno]

end Letters

/-! ### Folding again -/

open Letters

/-- Whether a character is left as it is, wherever it stands. -/
def IsLower (c : Char) : Prop := ∀ r ∈ foldedRuns, r.covers c.toNat = false

-- The table is long: a test by `all` is evaluated without nesting.
instance (c : Char) : Decidable (IsLower c) :=
  decidable_of_iff (foldedRuns.all (fun r => !r.covers c.toNat) = true) <| by
    simp only [List.all_eq_true, Bool.not_eq_true', IsLower]

/-- **A character that stands alone is folded to one that is left as it is.** -/
theorem isLower_lowercaseChar {c : Char} (hsigma : c ≠ 'Σ') (hdotted : c ≠ 'İ') :
    IsLower (lowercaseChar c) := by
  rw [Letters.lowercaseChar_eq]
  rcases hfind : singleRuns.find? (·.covers c.toNat) with _ | r
  · have hnone := List.find?_eq_none.1 hfind
    have hne : ∀ {d : Char}, c ≠ d → LowerRun.covers ⟨d.toNat, d.toNat, 1, 0⟩ c.toNat = false := by
      intro d hd
      refine Bool.eq_false_iff.2 fun hcovers => hd (Char.toNat_inj.1 ?_)
      obtain ⟨hlow, hhigh, -⟩ := LowerRun.covers_iff.1 hcovers
      exact Nat.le_antisymm hhigh hlow
    rw [hfind]
    change IsLower c
    exact List.forall_mem_cons.2 ⟨hne hdotted, List.forall_mem_cons.2 ⟨hne hsigma,
      fun r hr => Bool.eq_false_iff.2 (hnone r hr)⟩⟩
  · rw [hfind]
    intro q hq
    have hr := List.mem_of_find?_eq_some hfind
    have hcovers : r.covers c.toNat = true := by simpa using List.find?_some hfind
    change q.covers (Char.ofNat (r.lowered c.toNat)).toNat = false
    rw [LowerRun.toNat_ofNat_lowered (isValid_of_mem hr) hcovers]
    exact LowerRun.covers_lowered_of_isApart (isApart_of_mem hr hq) hcovers

theorem isLower_of_mem_lowercaseAfter {before cs : List Char} {c : Char}
    (h : c ∈ lowercaseAfter before cs) : IsLower c := by
  induction cs generalizing before with
  | nil => cases h
  | cons d cs ih =>
    rw [lowercaseAfter, List.mem_append] at h
    rcases h with h | h
    · split_ifs at h with hsigma hword hdotted
      · obtain rfl := List.mem_singleton.1 h
        decide
      · obtain rfl := List.mem_singleton.1 h
        decide
      · have hi : IsLower 'i' := by decide
        have hdot : IsLower '\u0307' := by decide
        rcases List.mem_pair.1 h with rfl | rfl
        · exact hi
        · exact hdot
      · obtain rfl := List.mem_singleton.1 h
        exact isLower_lowercaseChar hsigma hdotted
    · exact ih h

theorem IsLower.lowercaseChar_eq {c : Char} (h : IsLower c) : lowercaseChar c = c := by
  have hnone : singleRuns.find? (·.covers c.toNat) = none :=
    List.find?_eq_none.2 fun r hr => Bool.eq_false_iff.1
      (h r (List.mem_cons_of_mem _ (List.mem_cons_of_mem _ hr)))
  rw [Letters.lowercaseChar_eq, hnone]
  rfl

theorem lowercaseAfter_of_isLower {cs : List Char} (h : ∀ c ∈ cs, IsLower c) (before : List Char) :
    lowercaseAfter before cs = cs := by
  induction cs generalizing before with
  | nil => rfl
  | cons c cs ih =>
    obtain ⟨hc, hcs⟩ := List.forall_mem_cons.1 h
    have hsigma : c ≠ 'Σ' := by
      rintro rfl
      exact absurd hc (by decide)
    have hdotted : c ≠ 'İ' := by
      rintro rfl
      exact absurd hc (by decide)
    rw [lowercaseAfter, if_neg hsigma, if_neg hdotted, hc.lowercaseChar_eq, ih hcs]
    rfl

/-- **A text in lower case stays as it is.** -/
theorem lowercase_lowercase (s : String) : lowercase (lowercase s) = lowercase s := by
  have hlower : ∀ c ∈ (lowercase s).toList, IsLower c := fun c hc => by
    rw [lowercase, String.toList_ofList] at hc
    exact isLower_of_mem_lowercaseAfter hc
  rw [lowercase, lowercaseAfter_of_isLower hlower, String.ofList_toList]

end SnapStore
