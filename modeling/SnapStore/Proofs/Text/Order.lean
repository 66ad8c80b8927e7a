import Mathlib.Data.List.Basic
import SnapStore.Text.NameSet

/-!
# Orders as tests

Lists are sorted by tests: byte strings, texts, contents and what else is hashed in order. A test
is **linear** (`SnapStore.IsLinear`) if what it tests is a linear order. Then sorting forgets the
order that a list had before (`SnapStore.IsLinear.mergeSort_eq`).
-/

namespace SnapStore

/-- A test that is a linear order. -/
structure IsLinear {α : Type} (le : α → α → Bool) : Prop where
  /-- Of any two, one is below the other. -/
  total : ∀ a b, le a b = true ∨ le b a = true
  /-- What is below something is below all that is above it. -/
  trans : ∀ a b c, le a b = true → le b c = true → le a c = true
  /-- No two are below each other. -/
  antisymm : ∀ a b, le a b = true → le b a = true → a = b

namespace IsLinear

variable {α β : Type} {le : α → α → Bool}

/-- Things that can be told apart by something are ordered by it. -/
theorem comap (h : IsLinear le) {f : β → α} (hf : ∀ a b, f a = f b → a = b) :
    IsLinear fun a b => le (f a) (f b) where
  total a b := h.total (f a) (f b)
  trans a b c := h.trans (f a) (f b) (f c)
  antisymm a b hab hba := hf a b (h.antisymm (f a) (f b) hab hba)

/-- By a first thing, and among equals by a second. -/
theorem lex {le' : β → β → Bool} [DecidableEq α] (h : IsLinear le) (h' : IsLinear le') :
    IsLinear fun a b : α × β => if a.1 = b.1 then le' a.2 b.2 else le a.1 b.1 where
  total a b := by
    by_cases hfirst : a.1 = b.1
    · rw [if_pos hfirst, if_pos hfirst.symm]
      exact h'.total a.2 b.2
    · rw [if_neg hfirst, if_neg (Ne.symm hfirst)]
      exact h.total a.1 b.1
  trans a b c := by
    obtain ⟨a₁, a₂⟩ := a
    obtain ⟨b₁, b₂⟩ := b
    obtain ⟨c₁, c₂⟩ := c
    dsimp only
    intro hab hbc
    by_cases hac : a₁ = c₁
    · subst hac
      rw [if_pos rfl]
      by_cases hfirst : a₁ = b₁
      · rw [if_pos hfirst] at hab
        rw [if_pos hfirst.symm] at hbc
        exact h'.trans a₂ b₂ c₂ hab hbc
      · -- The firsts would lie below each other and differ.
        rw [if_neg hfirst] at hab
        rw [if_neg (Ne.symm hfirst)] at hbc
        exact absurd (h.antisymm a₁ b₁ hab hbc) hfirst
    · rw [if_neg hac]
      by_cases hfirst : a₁ = b₁
      · subst hfirst
        rwa [if_neg hac] at hbc
      · rw [if_neg hfirst] at hab
        by_cases hlast : b₁ = c₁
        · exact hlast ▸ hab
        · rw [if_neg hlast] at hbc
          exact h.trans a₁ b₁ c₁ hab hbc
  antisymm a b hab hba := by
    by_cases hfirst : a.1 = b.1
    · rw [if_pos hfirst] at hab
      rw [if_pos hfirst.symm] at hba
      exact Prod.ext hfirst (h'.antisymm a.2 b.2 hab hba)
    · rw [if_neg hfirst] at hab
      rw [if_neg (Ne.symm hfirst)] at hba
      exact absurd (h.antisymm a.1 b.1 hab hba) hfirst

/-- Sorting puts a list in order. -/
theorem pairwise_mergeSort (h : IsLinear le) (xs : List α) :
    (xs.mergeSort le).Pairwise fun a b => le a b = true :=
  List.pairwise_mergeSort h.trans (fun a b => by simpa using h.total a b) xs

/-- **A sorted list does not tell in which order it was before.** -/
theorem mergeSort_eq (h : IsLinear le) {xs ys : List α} (hperm : xs.Perm ys) :
    xs.mergeSort le = ys.mergeSort le := by
  have hsame : (xs.mergeSort le).Perm (ys.mergeSort le) :=
    (List.mergeSort_perm xs le).trans (hperm.trans (List.mergeSort_perm ys le).symm)
  exact hsame.eq_of_pairwise (fun a b _ _ => h.antisymm a b) (h.pairwise_mergeSort xs)
    (h.pairwise_mergeSort ys)

/-- A list in order is what its permutations are sorted to. -/
theorem mergeSort_eq_of_pairwise (h : IsLinear le) {xs ys : List α} (hperm : xs.Perm ys)
    (hys : ys.Pairwise fun a b => le a b = true) : xs.mergeSort le = ys :=
  (h.mergeSort_eq hperm).trans (List.mergeSort_of_pairwise hys)

end IsLinear

/-- The order of byte strings. -/
theorem Bytes.isLinear_le : IsLinear Bytes.le where
  total a b := by
    have hswap : (compare b a).isLE = (compare a b).isGE := Std.OrientedCmp.isGE_eq_isLE.symm
    rw [le, le, hswap]
    cases compare a b <;> simp
  trans _ _ _ := Std.TransCmp.isLE_trans
  antisymm _ _ hab hba := Std.LawfulEqCmp.eq_of_compare (Std.OrientedCmp.isLE_antisymm hab hba)

/-- The order of texts. -/
theorem Utf8.isLinear_le : IsLinear Utf8.le :=
  Bytes.isLinear_le.comap fun _ _ => Utf8.encode_injective

end SnapStore
