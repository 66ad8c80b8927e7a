/-!
# Shelves

A `SnapStore.Shelf` keeps values under keys, one per key; the last one stored counts. How
long it keeps them is its `SnapStore.Retention`: not at all, for good, or as long as they are
among so many that were used most recently. Storing a value uses it, and so does finding it.

The values of a shelf stand in the order of their last use, the latest first, so that
storing one more on a full shelf drops the last.
-/

namespace SnapStore

/-- What is kept. -/
inductive Retention
  /-- Nothing. -/
  | none
  /-- Everything. -/
  | all
  /-- The given number of values that were used most recently. -/
  | recent (capacity : Nat)
  deriving DecidableEq

/-- Values by key, the most recently used first. -/
structure Shelf (α : Type) where
  /-- The keys and values. -/
  items : List (String × α)

namespace Shelf

variable {α : Type}

/-- The shelf without values. -/
def empty : Shelf α := ⟨[]⟩

/-- The number of values. -/
def size (s : Shelf α) : Nat := s.items.length

/-- The value under a key. -/
def find? (s : Shelf α) (key : String) : Option α := s.items.lookup key

/-- The shelf without the value under a key. -/
def erase (s : Shelf α) (key : String) : Shelf α := ⟨s.items.filter (·.1 ≠ key)⟩

/-- The shelf with this value at the front. -/
def bring (s : Shelf α) (key : String) (a : α) : Shelf α := ⟨(key, a) :: (s.erase key).items⟩

/-- The shelf after a value was looked up. -/
def use (r : Retention) (s : Shelf α) (key : String) : Shelf α :=
  match r, s.find? key with
  | .recent _, some a => s.bring key a
  | _, _ => s

/-- The shelf after a value was stored. -/
def store (r : Retention) (s : Shelf α) (key : String) (a : α) : Shelf α :=
  match r with
  | .none => s
  | .all => s.bring key a
  | .recent capacity => ⟨(s.bring key a).items.take capacity⟩

/-! ### What is found -/

@[simp] theorem find?_empty (key : String) : (empty : Shelf α).find? key = none := rfl

@[simp] theorem find?_erase_self (s : Shelf α) (key : String) : (s.erase key).find? key = none := by
  rw [find?, List.lookup_eq_none_iff]
  intro item h
  simp only [erase, List.mem_filter, decide_eq_true_eq] at h
  simpa using Ne.symm h.2

theorem find?_erase_of_ne {key other : String} (h : other ≠ key) (s : Shelf α) :
    (s.erase key).find? other = s.find? other := by
  obtain ⟨items⟩ := s
  induction items with
  | nil => rfl
  | cons item items ih =>
    simp only [find?, erase] at ih ⊢
    by_cases hk : item.1 = key
    · have hother : (other == item.1) = false := by simpa [hk] using h
      rw [List.filter_cons_of_neg (by simpa using hk), List.lookup_cons, hother, ih]
    · rw [List.filter_cons_of_pos (by simpa using hk), List.lookup_cons, List.lookup_cons, ih]

@[simp] theorem find?_bring_self (s : Shelf α) (key : String) (a : α) :
    (s.bring key a).find? key = some a := by
  simp [bring, find?]

theorem find?_bring_of_ne {key other : String} (h : other ≠ key) (s : Shelf α) (a : α) :
    (s.bring key a).find? other = s.find? other := by
  rw [← find?_erase_of_ne h s]
  have hother : (other == key) = false := by simpa using h
  simp only [find?, bring, List.lookup_cons, hother]

/-- To bring a value twice is to bring it once. -/
theorem bring_bring (s : Shelf α) (key : String) (a : α) :
    (s.bring key a).bring key a = s.bring key a := by
  simp [bring, erase, List.filter_filter]

/-- Looking a value up changes the order of the values, and nothing else. -/
theorem find?_use (r : Retention) (s : Shelf α) (key other : String) :
    (s.use r key).find? other = s.find? other := by
  unfold use
  split
  · rename_i a ha
    by_cases h : other = key
    · rw [h, find?_bring_self, ha]
    · exact find?_bring_of_ne h s a
  · rfl

/-- Looking a value up changes nothing where everything is kept. -/
theorem use_all (s : Shelf α) (key : String) : s.use .all key = s := by
  unfold use
  split
  · contradiction
  · rfl

/-- A shelf that keeps everything gives back what was stored last. -/
theorem find?_store_all (s : Shelf α) (key other : String) (a : α) :
    (s.store .all key a).find? other = if other = key then some a else s.find? other := by
  change (s.bring key a).find? other = _
  by_cases h : other = key
  · rw [if_pos h, h, find?_bring_self]
  · rw [if_neg h, find?_bring_of_ne h]

end Shelf

end SnapStore
