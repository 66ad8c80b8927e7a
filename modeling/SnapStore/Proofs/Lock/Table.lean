import Mathlib.Data.List.Basic
import Mathlib.Tactic.SplitIfs
import SnapStore.Lock.Table

/-!
# What the steps on a table of locks do

A table of locks is seen in two ways: which lock is found for a key (`SnapStore.LockTable.find?`),
and what is known of the lock with some number (`SnapStore.LockTable.lock?`). Every step is
described by what it makes of these two. A lease and a retirement may change what is found; whatever
else is done changes one lock and leaves the others alone.
-/

namespace SnapStore.LockTable

variable {κ : Type} [DecidableEq κ]

/-- The number of the lock that is found for a key. -/
def find? (t : LockTable κ) (key : κ) : Option Nat := t.keys.lookup key

/-- A table is empty if nothing is found in it. -/
theorem inFlight_eq_zero (t : LockTable κ) : t.inFlight = 0 ↔ ∀ key, t.find? key = none := by
  constructor
  · intro h key
    have hkeys : t.keys = [] := List.length_eq_zero_iff.1 h
    rw [find?, hkeys]
    rfl
  · intro h
    refine List.length_eq_zero_iff.2 (List.eq_nil_iff_forall_not_mem.2 fun e he => ?_)
    simpa using List.lookup_eq_none_iff.1 (h e.1) e he

omit [DecidableEq κ] in
/-- The lock with a number. -/
def lock? (t : LockTable κ) (id : Nat) : Option Lock := t.locks[id]?

/-! ### Changing one lock -/

theorem find?_modify (t : LockTable κ) (id : Nat) (f : Lock → Lock) (key : κ) :
    (t.modify id f).find? key = t.find? key := rfl

omit [DecidableEq κ] in
theorem lock?_modify (t : LockTable κ) (id : Nat) (f : Lock → Lock) (other : Nat) :
    (t.modify id f).lock? other = if other = id then (t.lock? other).map f else t.lock? other := by
  simp only [lock?, modify, List.getElem?_modify]
  by_cases h : other = id
  · rw [if_pos h]
    simp [h]
  · rw [if_neg h]
    simp [Ne.symm h]

omit [DecidableEq κ] in
/-- A lock that is there afterwards was there before, and is changed only if it is the one. -/
theorem exists_lock?_of_modify {t : LockTable κ} {id other : Nat} {f : Lock → Lock} {k' : Lock}
    (h : (t.modify id f).lock? other = some k') :
    ∃ k, t.lock? other = some k ∧ (other = id ∧ k' = f k ∨ other ≠ id ∧ k' = k) := by
  rw [lock?_modify] at h
  by_cases hother : other = id
  · rw [if_pos hother] at h
    obtain ⟨k, hk, rfl⟩ := Option.map_eq_some_iff.1 h
    exact ⟨k, hk, Or.inl ⟨hother, rfl⟩⟩
  · rw [if_neg hother] at h
    exact ⟨k', h, Or.inr ⟨hother, rfl⟩⟩

omit [DecidableEq κ] in
/-- A lock that was there before is there afterwards. -/
theorem exists_lock?_modify {t : LockTable κ} {other : Nat} {k : Lock}
    (h : t.lock? other = some k) (id : Nat) (f : Lock → Lock) :
    ∃ k', (t.modify id f).lock? other = some k' := by
  rw [lock?_modify, h]
  split_ifs
  · exact ⟨f k, rfl⟩
  · exact ⟨k, rfl⟩

omit [DecidableEq κ] in
/-- A lock can be taken if it is free or the thread's own. -/
theorem acquire?_eq_some_iff {t t' : LockTable κ} {thread id : Nat} :
    t.acquire? thread id = some t' ↔
      (∃ k, t.lock? id = some k ∧ (k.owner = none ∨ k.owner = some thread)) ∧
        t' = t.modify id fun k => { k with owner := some thread, depth := k.depth + 1 } := by
  unfold acquire? lock?
  rcases t.locks[id]? with _ | k
  · simp
  · simp only [Option.some.injEq, exists_eq_left', Option.ite_none_right_eq_some]
    exact and_congr_right fun _ => eq_comm

/-! ### Leases -/

/-- The lock of a key is found after somebody has taken a lease on it. -/
theorem find?_lease (t : LockTable κ) (key other : κ) :
    (t.lease key).2.find? other =
      if other = key then some (t.lease key).1 else t.find? other := by
  unfold lease
  rcases hfound : t.keys.lookup key with _ | id
  · have hcons : ((key, t.locks.length) :: t.keys).lookup other =
        if other = key then some t.locks.length else t.keys.lookup other := by
      rw [List.lookup_cons]
      by_cases h : other = key
      · simp [h]
      · have hother : (other == key) = false := by simpa using h
        rw [hother, if_neg h]
    exact hcons
  · change t.keys.lookup other = if other = key then some id else t.keys.lookup other
    by_cases h : other = key
    · rw [if_pos h, h, hfound]
    · rw [if_neg h]

/-- A lock that is there already has one more reference then. -/
theorem lease_of_find? {t : LockTable κ} {key : κ} {id : Nat} (h : t.find? key = some id) :
    t.lease key = (id, t.modify id fun k => { k with references := k.references + 1 }) := by
  have hfound : t.keys.lookup key = some id := h
  unfold lease
  rw [hfound]

/-- A lock that is made for a lease is a new one. -/
theorem lease_of_find?_eq_none {t : LockTable κ} {key : κ} (h : t.find? key = none) :
    t.lease key =
      (t.locks.length, ⟨(key, t.locks.length) :: t.keys, t.locks ++ [freshLock]⟩) := by
  have hfound : t.keys.lookup key = none := h
  unfold lease
  rw [hfound]

/-- The number of the new lock was nobody's. -/
theorem lock?_fst_lease {t : LockTable κ} {key : κ} (h : t.find? key = none) :
    t.lock? (t.lease key).1 = none := by
  rw [lease_of_find?_eq_none h]
  exact List.getElem?_eq_none (Nat.le_refl _)

theorem lock?_lease_self {t : LockTable κ} {key : κ} (h : t.find? key = none) :
    (t.lease key).2.lock? (t.lease key).1 = some freshLock := by
  rw [lease_of_find?_eq_none h]
  exact List.getElem?_concat_length

/-- All other locks stay as they are. -/
theorem lock?_lease_of_ne {t : LockTable κ} {key : κ} (h : t.find? key = none) {other : Nat}
    (hne : other ≠ (t.lease key).1) : (t.lease key).2.lock? other = t.lock? other := by
  rw [lease_of_find?_eq_none h] at hne ⊢
  change (t.locks ++ [freshLock])[other]? = t.locks[other]?
  rcases Nat.lt_or_gt_of_ne hne with hlt | hgt
  · exact List.getElem?_append_left hlt
  · have hlength : (t.locks ++ [freshLock]).length ≤ other := by
      rw [List.length_append]
      exact hgt
    rw [List.getElem?_eq_none hlength, List.getElem?_eq_none (Nat.le_of_lt hgt)]

/-! ### Retirement -/

theorem lookup_filter_self (keys : List (κ × Nat)) (key : κ) :
    (keys.filter fun e => !(e.1 == key)).lookup key = none := by
  rw [List.lookup_eq_none_iff]
  intro e he
  have hne : e.1 ≠ key := by simpa using (List.mem_filter.1 he).2
  simpa using hne.symm

theorem lookup_filter_of_ne (keys : List (κ × Nat)) {key other : κ} (h : other ≠ key) :
    (keys.filter fun e => !(e.1 == key)).lookup other = keys.lookup other := by
  induction keys with
  | nil => rfl
  | cons e keys ih =>
    by_cases he : e.1 = key
    · have hother : (other == e.1) = false := by simpa [he] using h
      rw [List.filter_cons_of_neg (by simpa using he), List.lookup_cons, hother, ih]
    · rw [List.filter_cons_of_pos (by simpa using he), List.lookup_cons, List.lookup_cons, ih]

/-- With two references to its lock a key leaves the table. -/
theorem retire_of_eq_two {t : LockTable κ} {id : Nat} {k : Lock} (hk : t.lock? id = some k)
    (href : k.references = 2) (key : κ) :
    t.retire key id = { t with keys := t.keys.filter fun e => !(e.1 == key) }.modify id
      fun k => { k with references := k.references - 1 } := by
  have hmap : (t.locks[id]?.map Lock.references) = some 2 := by
    rw [show t.locks[id]? = some k from hk, Option.map_some, href]
  rw [retire, if_pos hmap]

/-- With any other number of references nothing happens. -/
theorem retire_of_ne_two {t : LockTable κ} {id : Nat} {k : Lock} (hk : t.lock? id = some k)
    (href : k.references ≠ 2) (key : κ) : t.retire key id = t := by
  have hmap : (t.locks[id]?.map Lock.references) ≠ some 2 := by
    rw [show t.locks[id]? = some k from hk, Option.map_some]
    simpa using href
  rw [retire, if_neg hmap]

theorem find?_retire_of_eq_two {t : LockTable κ} {id : Nat} {k : Lock}
    (hk : t.lock? id = some k) (href : k.references = 2) (key other : κ) :
    (t.retire key id).find? other = if other = key then none else t.find? other := by
  rw [retire_of_eq_two hk href, find?_modify]
  change (t.keys.filter fun e => !(e.1 == key)).lookup other = _
  by_cases h : other = key
  · rw [if_pos h, h, lookup_filter_self]
  · rw [if_neg h, lookup_filter_of_ne _ h]
    rfl

/-- What is found for other keys does not change. -/
theorem find?_retire_of_ne (t : LockTable κ) (id : Nat) {key other : κ} (h : other ≠ key) :
    (t.retire key id).find? other = t.find? other := by
  unfold retire
  split_ifs
  · exact lookup_filter_of_ne t.keys h
  · rfl

end SnapStore.LockTable
