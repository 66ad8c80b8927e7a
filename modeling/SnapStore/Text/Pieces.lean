/-!
# Cutting lists at a separator

`SnapStore.Pieces.split` cuts a list wherever a separator stands and
`SnapStore.Pieces.joined` puts the pieces back together, with one separator between any two
neighbours. Cutting loses nothing (`SnapStore.Pieces.joined_split`) and leaves no separator
in a piece (`SnapStore.Pieces.notMem_of_mem_split`); pieces without separators come out of it
as they went in (`SnapStore.Pieces.split_joined`).
-/

namespace SnapStore.Pieces

variable {α : Type} [DecidableEq α]

/-- The pieces between the separators of a list. There is always at least one, and one more
than there are separators. -/
def split (sep : α) : List α → List (List α)
  | [] => [[]]
  | x :: xs =>
    match split sep xs with
    | [] => [[x]]
    | piece :: pieces => if x = sep then [] :: piece :: pieces else (x :: piece) :: pieces

/-- The pieces with one separator between any two neighbours. -/
def joined (sep : α) : List (List α) → List α
  | [] => []
  | [piece] => piece
  | piece :: next :: pieces => piece ++ sep :: joined sep (next :: pieces)

theorem split_ne_nil (sep : α) (xs : List α) : split sep xs ≠ [] := by
  cases xs with
  | nil => simp [split]
  | cons x xs =>
    rw [split]
    split
    · simp
    · split <;> simp

theorem split_cons_sep (sep : α) (xs : List α) : split sep (sep :: xs) = [] :: split sep xs := by
  rw [split]
  cases h : split sep xs with
  | nil => exact absurd h (split_ne_nil sep xs)
  | cons piece pieces => simp

theorem split_cons_of_ne {sep x : α} (hx : x ≠ sep) (xs : List α) :
    ∃ piece pieces, split sep xs = piece :: pieces ∧
      split sep (x :: xs) = (x :: piece) :: pieces := by
  cases h : split sep xs with
  | nil => exact absurd h (split_ne_nil sep xs)
  | cons piece pieces => exact ⟨piece, pieces, rfl, by simp [split, h, hx]⟩

/-- Nothing is lost by cutting. -/
theorem joined_split (sep : α) (xs : List α) : joined sep (split sep xs) = xs := by
  induction xs with
  | nil => rfl
  | cons x xs ih =>
    by_cases hx : x = sep
    · rw [hx, split_cons_sep]
      cases h : split sep xs with
      | nil => exact absurd h (split_ne_nil sep xs)
      | cons piece pieces => rw [joined, ← h, ih]; rfl
    · obtain ⟨piece, pieces, h, hc⟩ := split_cons_of_ne hx xs
      rw [h] at ih
      rw [hc]
      cases pieces <;> simp_all [joined]

/-- A piece holds no separator. -/
theorem notMem_of_mem_split {sep : α} {xs piece : List α} (h : piece ∈ split sep xs) :
    sep ∉ piece := by
  induction xs generalizing piece with
  | nil => simp_all [split]
  | cons x xs ih =>
    by_cases hx : x = sep
    · rw [hx, split_cons_sep, List.mem_cons] at h
      rcases h with rfl | h
      · simp
      · exact ih h
    · obtain ⟨first, pieces, hs, hc⟩ := split_cons_of_ne hx xs
      rw [hc, List.mem_cons] at h
      rcases h with rfl | h
      · have : sep ∉ first := ih (by simp [hs])
        simp [this, Ne.symm hx]
      · exact ih (by simp [hs, h])

theorem split_append_sep {sep : α} {piece : List α} (h : sep ∉ piece) (xs : List α) :
    split sep (piece ++ sep :: xs) = piece :: split sep xs := by
  induction piece with
  | nil => exact split_cons_sep sep xs
  | cons x piece ih =>
    simp only [List.mem_cons, not_or] at h
    obtain ⟨first, pieces, hs, hc⟩ := split_cons_of_ne (Ne.symm h.1) (piece ++ sep :: xs)
    rw [ih h.2] at hs
    rw [List.cons_append, hc]
    simp_all

theorem split_of_notMem {sep : α} {piece : List α} (h : sep ∉ piece) :
    split sep piece = [piece] := by
  induction piece with
  | nil => rfl
  | cons x piece ih =>
    simp only [List.mem_cons, not_or] at h
    obtain ⟨first, pieces, hs, hc⟩ := split_cons_of_ne (Ne.symm h.1) piece
    rw [ih h.2] at hs
    simp_all

/-- Pieces without separators are found again. -/
theorem split_joined {sep : α} {pieces : List (List α)} (hne : pieces ≠ [])
    (h : ∀ piece ∈ pieces, sep ∉ piece) : split sep (joined sep pieces) = pieces := by
  induction pieces with
  | nil => exact absurd rfl hne
  | cons piece rest ih =>
    cases rest with
    | nil => exact split_of_notMem (h piece (by simp))
    | cons next rest =>
      rw [joined, split_append_sep (h piece (by simp)), ih (by simp)]
      exact fun q hq => h q (List.mem_cons_of_mem _ hq)

end SnapStore.Pieces
