import Mathlib.Data.Finset.Card
import Mathlib.Data.List.Nodup
import SnapStore.Proofs.Server.Basic
import SnapStore.Proofs.Store.Mirror

/-!
# Keeping what was used last

A cache that keeps the values used last can be told from one that keeps everything only by what it
does not find any more. `SnapStore.Cache.recent_within_all` says when it does find something: a key
that was touched, that is, that something was put under or that was looked up and found, is still
there as long as fewer other keys have been touched since than there is room for.

The three shelves of a cache are used independently of each other (`SnapStore.Cache.shelf_after`),
so all of this is about one shelf. What stands before a key on a shelf has been touched after it
(`SnapStore.Shelf.IsNear`), and only what stands last is dropped.
-/

namespace SnapStore

/-! ### Using one shelf -/

/-- What can be done with a shelf. -/
inductive Shelf.Act (α : Type)
  /-- A value is stored. -/
  | store (key : String) (a : α)
  /-- A key is looked up. -/
  | use (key : String)
  /-- A key is forgotten. -/
  | erase (key : String)
  /-- Everything is forgotten. -/
  | clear
  /-- Something is done with another shelf. -/
  | idle

namespace Shelf

variable {α : Type}

/-- The shelf that is left behind. -/
def after (r : Retention) (s : Shelf α) : Act α → Shelf α
  | .store key a => s.store r key a
  | .use key => s.use r key
  | .erase key => s.erase key
  | .clear => .empty
  | .idle => s

/-- **The key that is touched**: something is stored under it, or it is looked up and found. -/
def touched? (s : Shelf α) : Act α → Option String
  | .store key _ => some key
  | .use key => if (s.find? key).isSome then some key else none
  | _ => none

/-- The keys that are touched, one after the other. -/
def touches (r : Retention) : Shelf α → List (Act α) → List String
  | _, [] => []
  | s, x :: xs => (s.touched? x).toList ++ touches r (s.after r x) xs

/-! ### A shelf with little room beside one with all the room -/

/-- What is found on one shelf is found on the other. The one has no more than so many values, and
one for each key. -/
structure Follows (capacity : Nat) (s t : Shelf α) : Prop where
  /-- What is found is found there, too. -/
  find : ∀ key a, s.find? key = some a → t.find? key = some a
  /-- There is room for so many. -/
  size : s.size ≤ capacity
  /-- There is one value for a key. -/
  nodup : (s.items.map Prod.fst).Nodup

theorem nodup_erase {s : Shelf α} (h : (s.items.map Prod.fst).Nodup) (key : String) :
    ((s.erase key).items.map Prod.fst).Nodup :=
  h.sublist (List.filter_sublist.map _)

theorem nodup_bring {s : Shelf α} (h : (s.items.map Prod.fst).Nodup) (key : String) (a : α) :
    ((s.bring key a).items.map Prod.fst).Nodup := by
  refine List.nodup_cons.2 ⟨fun hmem => ?_, nodup_erase h key⟩
  obtain ⟨item, hitem, hkey⟩ := List.mem_map.1 hmem
  simp only [erase, List.mem_filter, decide_eq_true_eq] at hitem
  exact hitem.2 hkey

/-- To bring forward what is there takes no room. -/
theorem size_bring_le {s : Shelf α} {key : String} {a : α} (h : s.find? key = some a) :
    (s.bring key a).size ≤ s.size := by
  have hmem : ∃ item ∈ s.items, item.1 = key := by
    by_contra hnone
    push Not at hnone
    have : s.find? key = none :=
      List.lookup_eq_none_iff.2 fun item hitem => by simpa using (hnone item hitem).symm
    rw [h] at this
    cases this
  obtain ⟨item, hitem, hkey⟩ := hmem
  have hshorter : (s.erase key).items.length < s.items.length :=
    List.length_filter_lt_length_iff_exists.2 ⟨item, hitem, by simpa using hkey⟩
  exact hshorter

theorem after_use_of_eq_none {capacity : Nat} {s : Shelf α} {key : String}
    (h : s.find? key = none) : s.after (.recent capacity) (.use key) = s := by
  change s.use _ key = s
  simp only [use, h]

theorem after_use_of_eq_some {capacity : Nat} {s : Shelf α} {key : String} {a : α}
    (h : s.find? key = some a) : s.after (.recent capacity) (.use key) = s.bring key a := by
  change s.use _ key = s.bring key a
  simp only [use, h]

namespace Follows

variable {capacity : Nat} {s t : Shelf α}

theorem empty (capacity : Nat) : Follows capacity (.empty : Shelf α) .empty :=
  ⟨nofun, Nat.zero_le _, List.nodup_nil⟩

/-- **A shelf with little room follows one with all the room**, whatever is done. -/
theorem after (h : Follows capacity s t) (x : Act α) :
    Follows capacity (s.after (.recent capacity) x) (t.after .all x) := by
  cases x with
  | store key a =>
    refine ⟨fun other b hb => ?_, List.length_take_le _ _,
      (nodup_bring h.nodup key a).sublist ((List.take_sublist _ _).map _)⟩
    change ((s.bring key a).items.take capacity).lookup other = some b at hb
    rcases lookup_take (s.bring key a).items capacity other with hnone | hsome
    · rw [hnone] at hb
      cases hb
    · rw [hsome] at hb
      change (s.bring key a).find? other = some b at hb
      change (t.bring key a).find? other = some b
      by_cases hkey : other = key
      · rw [hkey, find?_bring_self] at hb ⊢
        exact hb
      · rw [find?_bring_of_ne hkey] at hb ⊢
        exact h.find other b hb
  | use key =>
    rw [show t.after .all (.use key) = t from t.use_all key]
    have hfind : ∀ other, (s.after (.recent capacity) (.use key)).find? other = s.find? other :=
      s.find?_use (.recent capacity) key
    have hfound : ∀ other b, (s.after (.recent capacity) (.use key)).find? other = some b →
        t.find? other = some b :=
      fun other b hb => h.find other b (hfind other ▸ hb)
    rcases hs : s.find? key with _ | a
    · rw [after_use_of_eq_none hs]
      exact h
    · rw [after_use_of_eq_some hs] at hfound ⊢
      exact ⟨hfound, (size_bring_le hs).trans h.size, nodup_bring h.nodup key a⟩
  | erase key =>
    refine ⟨fun other b hb => ?_, (List.length_filter_le _ _).trans h.size, nodup_erase h.nodup key⟩
    change (s.erase key).find? other = some b at hb
    change (t.erase key).find? other = some b
    by_cases hkey : other = key
    · rw [hkey, find?_erase_self] at hb
      cases hb
    · rw [find?_erase_of_ne hkey] at hb ⊢
      exact h.find other b hb
  | clear => exact .empty capacity
  | idle => exact h

theorem foldl (h : Follows capacity s t) (xs : List (Act α)) :
    Follows capacity (xs.foldl (Shelf.after (.recent capacity)) s)
      (xs.foldl (Shelf.after .all) t) := by
  induction xs generalizing s t with
  | nil => exact h
  | cons x xs ih => exact ih (h.after x)

end Follows

/-! ### What stands before a key -/

/-- A key is on the shelf, and only these others stand before it. -/
def IsNear (s : Shelf α) (key : String) (others : Finset String) : Prop :=
  ∃ front a back, s.items = front ++ (key, a) :: back ∧ ∀ item ∈ front, item.1 ∈ others

section Near

variable {s t : Shelf α} {key : String} {others : Finset String}

theorem isNear_bring (s : Shelf α) (key : String) (a : α) (others : Finset String) :
    (s.bring key a).IsNear key others :=
  ⟨[], a, _, rfl, nofun⟩

/-- What is near is found. -/
theorem IsNear.isSome_find? (h : s.IsNear key others) : (s.find? key).isSome := by
  obtain ⟨front, a, back, hitems, -⟩ := h
  rw [find?, List.lookup_isSome_iff]
  exact ⟨(key, a), by simp [hitems], by simp⟩

/-- It comes no further back when another key is forgotten. -/
theorem IsNear.erase (h : s.IsNear key others) {other : String} (hne : other ≠ key) :
    (s.erase other).IsNear key others := by
  obtain ⟨front, a, back, hitems, hfront⟩ := h
  refine ⟨front.filter (·.1 ≠ other), a, back.filter (·.1 ≠ other), ?_, fun item hitem =>
    hfront item (List.mem_of_mem_filter hitem)⟩
  rw [Shelf.erase, hitems, List.filter_append, List.filter_cons_of_pos (by simpa using hne.symm)]

/-- Another key may come before it. -/
theorem IsNear.bring (h : s.IsNear key others) {other : String} (hne : other ≠ key)
    (hother : other ∈ others) (b : α) : (s.bring other b).IsNear key others := by
  obtain ⟨front, a, back, hitems, hfront⟩ := h.erase hne
  refine ⟨(other, b) :: front, a, back, ?_, List.forall_mem_cons.2 ⟨hother, hfront⟩⟩
  rw [Shelf.bring, hitems, List.cons_append]

/-- **What is near is not dropped**, if there is more room than others can take. -/
theorem IsNear.take (h : s.IsNear key others) (hnodup : (s.items.map Prod.fst).Nodup)
    {capacity : Nat} (hroom : others.card < capacity) :
    IsNear ⟨s.items.take capacity⟩ key others := by
  obtain ⟨front, a, back, hitems, hfront⟩ := h
  have hlength : front.length ≤ others.card := by
    have hfrontNodup : (front.map Prod.fst).Nodup :=
      hnodup.sublist (by rw [hitems]; exact (List.sublist_append_left _ _).map _)
    have hsubset : (front.map Prod.fst).toFinset ⊆ others := by
      intro k hk
      obtain ⟨item, hitem, rfl⟩ := List.mem_map.1 (List.mem_toFinset.1 hk)
      exact hfront item hitem
    have hcard := Finset.card_le_card hsubset
    rwa [List.toFinset_card_of_nodup hfrontNodup, List.length_map] at hcard
  obtain ⟨room, hcapacity⟩ : ∃ room, capacity = front.length + (room + 1) :=
    ⟨capacity - front.length - 1, by omega⟩
  refine ⟨front, a, back.take room, ?_, hfront⟩
  change s.items.take capacity = _
  rw [hitems, hcapacity, List.take_length_add_append, List.take_succ_cons]

variable {capacity : Nat} (hroom : others.card < capacity)

include hroom

/-- **A key stays near as long as only these others are touched**, or is not kept at all, wherever
there is all the room. -/
theorem isNear_after (h : s.Follows capacity t) {x : Act α}
    (htouched : ∀ k, s.touched? x = some k → k = key ∨ k ∈ others)
    (hnear : (t.find? key).isSome → s.IsNear key others)
    (hkept : ((t.after .all x).find? key).isSome) :
    (s.after (.recent capacity) x).IsNear key others := by
  cases x with
  | store other b =>
    refine IsNear.take ?_ (nodup_bring h.nodup other b) hroom
    by_cases hkey : other = key
    · rw [hkey]
      exact isNear_bring s key b others
    · change ((t.bring other b).find? key).isSome at hkept
      rw [find?_bring_of_ne (Ne.symm hkey)] at hkept
      exact (hnear hkept).bring hkey ((htouched other rfl).resolve_left hkey) b
  | use other =>
    rw [show t.after .all (.use other) = t from t.use_all other] at hkept
    rcases hs : s.find? other with _ | b
    · rw [after_use_of_eq_none hs]
      exact hnear hkept
    · rw [after_use_of_eq_some hs]
      by_cases hkey : other = key
      · rw [hkey]
        exact isNear_bring s key b others
      · have hother := (htouched other (by simp [touched?, hs])).resolve_left hkey
        exact (hnear hkept).bring hkey hother b
  | erase other =>
    by_cases hkey : other = key
    · change ((t.erase other).find? key).isSome at hkept
      rw [hkey, find?_erase_self] at hkept
      cases hkept
    · change ((t.erase other).find? key).isSome at hkept
      rw [find?_erase_of_ne (Ne.symm hkey)] at hkept
      exact (hnear hkept).erase hkey
  | clear => cases hkept
  | idle => exact hnear hkept

/-- So it does in a whole run. -/
theorem isNear_foldl (h : s.Follows capacity t) {xs : List (Act α)}
    (htouches : ∀ k ∈ s.touches (.recent capacity) xs, k = key ∨ k ∈ others)
    (hnear : (t.find? key).isSome → s.IsNear key others)
    (hkept : ((xs.foldl (Shelf.after .all) t).find? key).isSome) :
    (xs.foldl (Shelf.after (.recent capacity)) s).IsNear key others := by
  induction xs generalizing s t with
  | nil => exact hnear hkept
  | cons x xs ih =>
    refine ih (h.after x) (fun k hk => htouches k (List.mem_append_right _ hk)) ?_ hkept
    exact isNear_after hroom h (fun k hk => htouches k
      (List.mem_append_left _ (by rw [hk]; exact List.mem_singleton_self k))) hnear

omit hroom in
/-- What is touched is near: nothing stands before it. -/
theorem isNear_of_touched (hcapacity : 1 ≤ capacity) {x : Act α} (h : s.touched? x = some key) :
    (s.after (.recent capacity) x).IsNear key others := by
  cases x with
  | store other a =>
    cases h
    obtain ⟨room, rfl⟩ := Nat.exists_eq_add_of_le' hcapacity
    exact ⟨[], a, _, List.take_succ_cons, nofun⟩
  | use other =>
    rcases hs : s.find? other with _ | a
    · simp [touched?, hs] at h
    · obtain rfl : other = key := by simpa [touched?, hs] using h
      rw [after_use_of_eq_some hs]
      exact isNear_bring s other a others
  | erase other => cases h
  | clear => cases h
  | idle => cases h

end Near

end Shelf

/-! ### The three shelves of a cache -/

namespace Cache

/-- The shelf for values of a kind. -/
def shelf (c : Cache) : (kind : Production) → Shelf kind.Value
  | .entry => c.entries
  | .tree => c.trees
  | .aggregate => c.aggregates

end Cache

/-- What a use of a cache does with the shelf for values of a kind. -/
def Mirror.Use.act : (kind : Production) → Mirror.Use → Shelf.Act kind.Value
  | .entry, .lookUpEntry key => .use key
  | .entry, .putEntry e => .store e.path e
  | .tree, .lookUpTree key => .use key
  | .tree, .putTree t =>
    match t.base with
    | none => .idle
    | some base => .store base t
  | .aggregate, .lookUpAggregate key => .use key
  | .aggregate, .putAggregate key a => .store key a
  | _, .invalidate key => .erase key
  | _, .invalidateAll => .clear
  | _, _ => .idle

namespace Cache

/-- The key that a use touches on one of the shelves. -/
def touched? (c : Cache) (kind : Production) (u : Mirror.Use) : Option String :=
  (c.shelf kind).touched? (u.act kind)

/-- The keys that are touched on one of the shelves, one after the other. -/
def touches (c : Cache) (kind : Production) (uses : List Mirror.Use) : List String :=
  (c.shelf kind).touches c.retention (uses.map (·.act kind))

theorem fst_lookUp_eq_find? (c : Cache) (kind : Production) (key : String) :
    (c.lookUp kind key).1 = (c.shelf kind).find? key := by
  cases kind <;> rfl

theorem retention_after (c : Cache) (u : Mirror.Use) :
    (mirror.after c u).retention = c.retention := by
  cases u with
  | putTree t =>
    change (c.putTree t).retention = _
    rw [putTree]
    cases t.base <;> rfl
  | _ => rfl

/-- **The shelves of a cache are used independently of each other.** -/
theorem shelf_after (c : Cache) (u : Mirror.Use) (kind : Production) :
    (mirror.after c u).shelf kind = (c.shelf kind).after c.retention (u.act kind) := by
  cases u with
  | putTree t =>
    obtain ⟨base, entries⟩ := t
    cases kind <;> cases base <;> rfl
  | _ => cases kind <;> rfl

theorem shelf_foldl (c : Cache) (uses : List Mirror.Use) (kind : Production) :
    (uses.foldl mirror.after c).shelf kind =
      (uses.map (·.act kind)).foldl (Shelf.after c.retention) (c.shelf kind) := by
  induction uses generalizing c with
  | nil => rfl
  | cons u uses ih =>
    rw [List.foldl_cons, ih, shelf_after, retention_after, List.map_cons, List.foldl_cons]

theorem retention_foldl (c : Cache) (uses : List Mirror.Use) :
    (uses.foldl mirror.after c).retention = c.retention := by
  induction uses generalizing c with
  | nil => rfl
  | cons u uses ih => rw [List.foldl_cons, ih, retention_after]

/-- A cache with little room follows one with all the room, shelf by shelf. -/
theorem follows_foldl (capacity : Nat) (uses : List Mirror.Use) (kind : Production) :
    Shelf.Follows capacity ((uses.foldl mirror.after (.empty (.recent capacity))).shelf kind)
      ((uses.foldl mirror.after (.empty .all)).shelf kind) := by
  rw [shelf_foldl, shelf_foldl]
  have hempty : ∀ r, (Cache.empty r).shelf kind = .empty := by
    intro r
    cases kind <;> rfl
  rw [hempty, hempty]
  exact (Shelf.Follows.empty capacity).foldl _

/-- **A cache that keeps the values used last** answers what one that keeps everything answers, if
it answers, and has no more on a shelf than there is room for. It does answer for a key that the
other one holds if the key was touched and fewer other keys have been touched on the same shelf
since than there is room for, whatever was done with the other shelves. -/
theorem recent_within_all (capacity : Nat) (uses : List Mirror.Use) (kind : Production) :
    let recent := uses.foldl mirror.after (.empty (.recent capacity))
    let all := uses.foldl mirror.after (.empty .all)
    (∀ key a, (recent.lookUp kind key).1 = some a → (all.lookUp kind key).1 = some a) ∧
    (recent.shelf kind).size ≤ capacity ∧
    ∀ before u later key, uses = before ++ u :: later →
      let first := before.foldl mirror.after (.empty (.recent capacity))
      first.touched? kind u = some key →
      (((mirror.after first u).touches kind later).toFinset.erase key).card < capacity →
      (all.lookUp kind key).1.isSome →
      (recent.lookUp kind key).1 = (all.lookUp kind key).1 := by
  intro recent all
  have hfollows := follows_foldl capacity uses kind
  have hfound : ∀ key a, (recent.lookUp kind key).1 = some a →
      (all.lookUp kind key).1 = some a := by
    intro key a ha
    rw [fst_lookUp_eq_find?] at ha ⊢
    exact hfollows.find key a ha
  refine ⟨hfound, hfollows.size, ?_⟩
  rintro before u later key rfl first htouched hroom hkept
  set others := ((mirror.after first u).touches kind later).toFinset.erase key with hothers
  have hretention : ∀ r (us : List Mirror.Use), (us.foldl mirror.after (.empty r)).retention = r :=
    fun r us => retention_foldl (.empty r) us
  have hnear : (recent.shelf kind).IsNear key others := by
    have hrun : ∀ r, ((before ++ u :: later).foldl mirror.after (.empty r)).shelf kind =
        (later.map (·.act kind)).foldl (Shelf.after r)
          ((mirror.after (before.foldl mirror.after (.empty r)) u).shelf kind) := by
      intro r
      rw [List.foldl_append, List.foldl_cons, shelf_foldl, retention_after, hretention]
    rw [fst_lookUp_eq_find?, hrun] at hkept
    rw [hrun]
    refine Shelf.isNear_foldl hroom ?_ (fun k hk => ?_) (fun _ => ?_) hkept
    · have hstep := follows_foldl capacity (before ++ [u]) kind
      rwa [List.foldl_append, List.foldl_append] at hstep
    · rw [Cache.touches, retention_after, hretention] at hothers
      by_cases hkey : k = key
      · exact Or.inl hkey
      · refine Or.inr ?_
        rw [hothers]
        exact Finset.mem_erase.2 ⟨hkey, List.mem_toFinset.2 hk⟩
    · rw [shelf_after, hretention]
      exact Shelf.isNear_of_touched (Nat.one_le_of_lt hroom) htouched
  obtain ⟨a, ha⟩ := Option.isSome_iff_exists.1 hnear.isSome_find?
  rw [← fst_lookUp_eq_find?] at ha
  rw [ha, hfound key a ha]

/-- With room for two entries, one that was looked up outlives one that was stored after it, and
what is done with trees does not matter. -/
theorem recent_within_all_of_looked_up :
    let a : Entry := .missing "/a" "a"
    let b : Entry := .missing "/b" "b"
    let uses : List Mirror.Use := [.putEntry a, .putEntry b, .lookUpEntry "/a",
      .putEntry (.missing "/c" "c"), .lookUpEntry "/b", .putTree ⟨some "/x", []⟩,
      .putTree ⟨some "/y", []⟩, .putTree ⟨some "/z", []⟩, .lookUpTree "/x", .invalidate "/c"]
    let recent := uses.foldl mirror.after (.empty (.recent 2))
    (recent.lookUpEntry "/a").1 = some a ∧ (recent.lookUpEntry "/b").1 = none ∧
      recent.trees.size = 2 := by
  intro a b uses recent
  have ha : (recent.lookUp .entry "/a").1 = some a := by
    have hanswer := (recent_within_all 2 uses .entry).2.2 [.putEntry a, .putEntry b]
      (.lookUpEntry "/a") _ "/a" rfl (by decide) (by decide) (by decide)
    rw [hanswer]
    decide
  exact ⟨ha, by decide, by decide⟩

end Cache

end SnapStore
