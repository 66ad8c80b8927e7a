import Mathlib.Data.Finset.Card
import Mathlib.Tactic.SplitIfs
import SnapStore.Path.Canonical
import SnapStore.Store.Holders

/-!
# Runs of an interner

What can be done with an interner and the handles that it has given out is listed in
`SnapStore.Holders.Act`: texts and paths are interned, and handles are held, copied and let go of,
in any order. Two things are true after any such acts.

* **Equal texts share their handle while somebody holds it**
  (`SnapStore.Holders.shared_while_held`). The invariant is that everything that is held is
  remembered, and that no text and no allocation is remembered twice
  (`SnapStore.Holders.IsSound`). Pruning keeps it, as it drops nothing that is held.
* **The interner stays small if little is held** (`SnapStore.Holders.size_le_peak`). It never grows
  past its limit, and the limit is set by what was held when it was pruned last. That makes one more
  text fit, even if nothing at all was held: the least limit is not zero.
-/

namespace SnapStore

/-! ### What is remembered -/

namespace Interner

/-- **What is true of an interner at all times.** -/
structure IsSound (i : Interner) : Prop where
  /-- No text is remembered twice. -/
  texts : (i.handles.map (·.text)).Nodup
  /-- Nor is an allocation. -/
  serials : (i.handles.map (·.serial)).Nodup
  /-- All allocations were made before. -/
  allocated : ∀ h ∈ i.handles, h.serial < i.allocated

theorem isSound_empty : empty.IsSound where
  texts := List.nodup_nil
  serials := List.nodup_nil
  allocated := by simp [empty]

namespace IsSound

variable {i : Interner}

/-- Handles that are remembered are told apart by their texts, -/
theorem eq_of_text (hi : i.IsSound) {h h' : Handle} (hh : h ∈ i.handles) (hh' : h' ∈ i.handles)
    (htext : h.text = h'.text) : h = h' :=
  List.inj_on_of_nodup_map hi.texts hh hh' htext

/-- and by their allocations. -/
theorem eq_of_serial (hi : i.IsSound) {h h' : Handle} (hh : h ∈ i.handles) (hh' : h' ∈ i.handles)
    (hserial : h.serial = h'.serial) : h = h' :=
  List.inj_on_of_nodup_map hi.serials hh hh' hserial

theorem prune (hi : i.IsSound) (isHeld : Handle → Bool) : (i.prune isHeld).IsSound where
  texts := hi.texts.sublist (List.filter_sublist.map _)
  serials := hi.serials.sublist (List.filter_sublist.map _)
  allocated h hh := hi.allocated h (List.mem_of_mem_filter hh)

theorem allocate (hi : i.IsSound) {text : String} (hnew : ∀ h ∈ i.handles, h.text ≠ text) :
    (i.allocate text).2.IsSound where
  texts := by
    refine List.nodup_cons.2 ⟨?_, hi.texts⟩
    simpa using hnew
  serials := by
    refine List.nodup_cons.2 ⟨?_, hi.serials⟩
    intro hmem
    obtain ⟨h, hh, hserial⟩ := List.mem_map.1 hmem
    have hlt := hi.allocated h hh
    simp only at hserial
    omega
  allocated h hh := by
    rcases List.mem_cons.1 hh with rfl | hh
    · exact Nat.lt_succ_self _
    · exact Nat.lt_succ_of_lt (hi.allocated h hh)

end IsSound

/-- **The ways in which a text is interned.** -/
theorem intern_cases (isHeld : Handle → Bool) (text : String) (i : Interner) :
    (∃ h ∈ i.handles, h.text = text ∧ i.intern isHeld text = (h, i)) ∨
    (∀ h ∈ i.handles, h.text ≠ text) ∧ i.intern isHeld text =
      (if i.limit ≤ i.size then i.prune isHeld else i).allocate text := by
  unfold intern
  split
  · rename_i h hfind
    exact Or.inl ⟨h, List.mem_of_find?_eq_some hfind, by simpa using List.find?_some hfind, rfl⟩
  · rename_i hfind
    exact Or.inr ⟨by simpa using hfind, rfl⟩

variable {i : Interner} {isHeld : Handle → Bool} {text : String}

theorem IsSound.intern (hi : i.IsSound) : (i.intern isHeld text).2.IsSound := by
  rcases i.intern_cases isHeld text with ⟨h, -, -, heq⟩ | ⟨hnew, heq⟩
  · rw [heq]
    exact hi
  · rw [heq]
    split_ifs
    · exact (hi.prune isHeld).allocate fun h hh => hnew h (List.mem_of_mem_filter hh)
    · exact hi.allocate hnew

/-- What is held is remembered still when another text has been interned. -/
theorem mem_handles_intern_of_isHeld {h : Handle} (hh : h ∈ i.handles) (hheld : isHeld h = true) :
    h ∈ (i.intern isHeld text).2.handles := by
  rcases i.intern_cases isHeld text with ⟨h', -, -, heq⟩ | ⟨-, heq⟩
  · rwa [heq]
  · rw [heq]
    split_ifs
    · exact List.mem_cons_of_mem _ (mem_handles_prune hh hheld)
    · exact List.mem_cons_of_mem _ hh

/-- A text that is remembered has its handle, and nothing changes. -/
theorem IsSound.intern_text (hi : i.IsSound) {h : Handle} (hh : h ∈ i.handles) :
    i.intern isHeld h.text = (h, i) := by
  rcases i.intern_cases isHeld h.text with ⟨h', hh', htext, heq⟩ | ⟨hnew, -⟩
  · rw [heq, hi.eq_of_text hh' hh htext]
  · exact absurd rfl (hnew h hh)

/-! ### How much is remembered -/

/-- An interner that has not outgrown its limit, which is no larger than this many texts make it. -/
structure IsWithin (i : Interner) (count : Nat) : Prop where
  /-- It has not outgrown its limit. -/
  size_le : i.size ≤ i.limit
  /-- The limit is twice the number, or the least one. -/
  limit_le : i.limit ≤ max leastLimit (2 * count)

theorem isWithin_empty : empty.IsWithin 0 where
  size_le := by simp [size, empty]
  limit_le := by simp [empty]

theorem IsWithin.mono {count count' : Nat} (h : i.IsWithin count) (hle : count ≤ count') :
    i.IsWithin count' where
  size_le := h.size_le
  limit_le := by
    have hlimit := h.limit_le
    omega

/-- **A limit that is twice the number of those that stay has room for one more**, as has the least
one. -/
theorem IsWithin.intern {count : Nat} (h : i.IsWithin count)
    (hkept : (i.handles.filter isHeld).length ≤ count) :
    (i.intern isHeld text).2.IsWithin count := by
  have hsize := h.size_le
  have hlimit := h.limit_le
  rcases i.intern_cases isHeld text with ⟨h', -, -, heq⟩ | ⟨-, heq⟩
  · rwa [heq]
  · rw [heq]
    split_ifs with hfull
    · constructor
      · simp only [allocate, prune, size, List.length_cons, leastLimit]
        omega
      · simp only [allocate, prune]
        omega
    · constructor
      · simp only [allocate, size, List.length_cons] at hfull ⊢
        omega
      · exact hlimit

end Interner

/-! ### What is done with handles -/

namespace Holders

/-- Interns the canonical form of a path, and holds the handle if there is a name for it. -/
def takePath (s : Holders) (workingDirectory : Except OsError Path) (p : Path)
    (name : Option String) : Except Error Handle × Holders :=
  match Path.canonical workingDirectory p with
  | .error e => (.error e, s)
  | .ok text => ((.ok (s.take text name).1), (s.take text name).2)

/-- Something that is done with an interner and its handles. -/
inductive Act
  /-- A text is interned. Its handle is held under the name, or let go of at once. -/
  | take (text : String) (name : Option String)
  /-- A path is interned in the same way. -/
  | takePath (workingDirectory : Except OsError Path) (p : Path) (name : Option String)
  /-- The handle under a name is held under another one as well. -/
  | copy (name other : String)
  /-- The handle under a name is let go of. -/
  | drop (name : String)

/-- What is remembered and held after an act. -/
def after (s : Holders) : Act → Holders
  | .take text name => (s.take text name).2
  | .takePath workingDirectory p name => (s.takePath workingDirectory p name).2
  | .copy name other =>
    match s.held.find? (·.1 = name) with
    | none => s
    | some e => s.hold other e.2
  | .drop name => s.drop (· = name)

/-- The handles that are held. -/
def live (s : Holders) : List Handle := s.held.map (·.2)

/-- The texts whose handles are held. -/
def liveTexts (s : Holders) : Finset String := (s.live.map (·.text)).toFinset

variable {s : Holders} {h : Handle}

theorem isHeld_iff : s.isHeld h = true ↔ h ∈ s.live := by
  simp [isHeld, live]

/-- Letting go of handles leaves no others. -/
theorem mem_live_of_drop {isDropped : String → Bool} (hh : h ∈ (s.drop isDropped).live) :
    h ∈ s.live := by
  obtain ⟨e, he, rfl⟩ := List.mem_map.1 hh
  exact List.mem_map.2 ⟨e, List.mem_of_mem_filter he, rfl⟩

/-- Holding a handle makes it one of those that are held. -/
theorem mem_live_of_hold {name : String} {h' : Handle} (hh : h ∈ (s.hold name h').live) :
    h = h' ∨ h ∈ s.live := by
  rcases List.mem_cons.1 hh with rfl | hh
  · exact Or.inl rfl
  · exact Or.inr (mem_live_of_drop hh)

/-- What is held after a text has been taken is its handle, or was held before. -/
theorem mem_live_of_take {text : String} {name : Option String}
    (hh : h ∈ (s.take text name).2.live) :
    h = (s.take text name).1 ∨ h ∈ s.live := by
  cases name with
  | none => exact Or.inr hh
  | some name => exact mem_live_of_hold hh

theorem interner_take (s : Holders) (text : String) (name : Option String) :
    (s.take text name).2.interner = (s.interner.intern s.isHeld text).2 := by
  cases name <;> rfl

theorem fst_take (s : Holders) (text : String) (name : Option String) :
    (s.take text name).1 = (s.interner.intern s.isHeld text).1 := by
  cases name <;> rfl

/-- **The ways in which an act goes**: a text is taken, or there is no news for the interner and
nothing is held that was not held before. -/
theorem after_cases (s : Holders) (a : Act) :
    (∃ text name, s.after a = (s.take text name).2) ∨
    (s.after a).interner = s.interner ∧ ∀ h ∈ (s.after a).live, h ∈ s.live := by
  cases a with
  | take text name => exact Or.inl ⟨text, name, rfl⟩
  | takePath workingDirectory p name =>
    rcases hpath : Path.canonical workingDirectory p with e | text
    · simp [after, takePath, hpath]
    · exact Or.inl ⟨text, name, by simp [after, takePath, hpath]⟩
  | copy name other =>
    right
    rcases hfind : s.held.find? (·.1 = name) with _ | e
    · simp [after, hfind]
    · have hlive : e.2 ∈ s.live := List.mem_map.2 ⟨e, List.mem_of_find?_eq_some hfind, rfl⟩
      simp only [after, hfind]
      refine ⟨rfl, fun h hh => ?_⟩
      rcases mem_live_of_hold hh with rfl | hh
      · exact hlive
      · exact hh
  | drop name => exact Or.inr ⟨rfl, fun h hh => mem_live_of_drop hh⟩

/-! ### Sharing -/

/-- **What is true at all times**: the interner is sound, and remembers whatever is held. -/
structure IsSound (s : Holders) : Prop where
  /-- The interner is sound. -/
  interner : s.interner.IsSound
  /-- What is held is remembered. -/
  remembered : ∀ h ∈ s.live, h ∈ s.interner.handles

theorem isSound_empty : empty.IsSound where
  interner := Interner.isSound_empty
  remembered := by simp [live, empty]

/-- **Every act preserves it**: what is pruned is held by nobody. -/
theorem isSound_after (hs : s.IsSound) (a : Act) : (s.after a).IsSound := by
  rcases s.after_cases a with ⟨text, name, heq⟩ | ⟨hinterner, hlive⟩
  · rw [heq]
    constructor
    · rw [interner_take]
      exact hs.interner.intern
    · intro h hh
      rw [interner_take]
      rcases mem_live_of_take hh with rfl | hh
      · rw [fst_take]
        exact Interner.mem_handles_intern _ _ _
      · exact Interner.mem_handles_intern_of_isHeld (hs.remembered h hh) (isHeld_iff.2 hh)
  · constructor
    · rw [hinterner]
      exact hs.interner
    · intro h hh
      rw [hinterner]
      exact hs.remembered h (hlive h hh)

theorem isSound_foldl (hs : s.IsSound) (acts : List Act) : (acts.foldl after s).IsSound := by
  induction acts generalizing s with
  | nil => exact hs
  | cons a acts ih => exact ih (isSound_after hs a)

theorem IsSound.intern_text (hs : s.IsSound) (hh : h ∈ s.live) : s.intern h.text = (h, s) := by
  rw [Holders.intern, hs.interner.intern_text (hs.remembered h hh)]

/-- **Texts are shared while they are held**, whatever has been done. Two handles that are held have
the same text if and only if they are the same allocation; both are remembered; and whoever interns
the text again, or a path with this canonical form, gets the same handle, and nothing changes. -/
theorem shared_while_held (acts : List Act) :
    let s := acts.foldl after empty
    (∀ h ∈ s.live, ∀ h' ∈ s.live, h.text = h'.text ↔ h.serial = h'.serial) ∧
    (∀ h ∈ s.live, h ∈ s.interner.handles) ∧
    ∀ h ∈ s.live, s.intern h.text = (h, s) ∧
      ∀ workingDirectory p, Path.canonical workingDirectory p = .ok h.text →
        s.takePath workingDirectory p none = (.ok h, s) := by
  intro s
  have hs : s.IsSound := isSound_foldl isSound_empty acts
  refine ⟨fun h hh h' hh' => ?_, hs.remembered, fun h hh => ⟨hs.intern_text hh, ?_⟩⟩
  · have hmem := hs.remembered h hh
    have hmem' := hs.remembered h' hh'
    constructor
    · intro htext
      rw [hs.interner.eq_of_text hmem hmem' htext]
    · intro hserial
      rw [hs.interner.eq_of_serial hmem hmem' hserial]
  · intro workingDirectory p hp
    have hintern : s.take h.text none = (h, s) := hs.intern_text hh
    simp [takePath, hp, hintern]

/-- A handle that is held under two names, one of which is let go of, outlives the sixty-four texts
that are pruned, and is what a path with this canonical form is interned as. -/
theorem shared_while_held_of_pruned :
    let acts : List Act := [.take "/kept" (some "a"), .copy "a" "b"] ++
      (List.range 64).map (fun n => .take (String.ofList (List.replicate n 'x')) none) ++
        [.drop "a"]
    let s := acts.foldl after empty
    s.interner.size = 2 ∧ s.live = [⟨"/kept", 0⟩] ∧ (s.intern "/kept").1 = ⟨"/kept", 0⟩ ∧
      (s.takePath (.error .notFound) (.ofString "/./kept") none).1 = .ok ⟨"/kept", 0⟩ := by
  intro acts s
  obtain ⟨hsize, hlive⟩ : s.interner.size = 2 ∧ s.live = [⟨"/kept", 0⟩] := by decide +kernel
  obtain ⟨hintern, hpath⟩ := (shared_while_held acts).2.2 ⟨"/kept", 0⟩ (by simp [s, hlive])
  have hkept := hpath (.error .notFound) (.ofString "/./kept") (by decide +kernel)
  exact ⟨hsize, hlive, congrArg Prod.fst hintern, congrArg Prod.fst hkept⟩

/-! ### The size -/

/-- The largest number of texts that were held at any time before the last of these acts. -/
def peak (s : Holders) : List Act → Nat
  | [] => 0
  | a :: acts => max s.liveTexts.card ((s.after a).peak acts)

/-- Handles that are held and remembered are no more than the texts that are held. -/
theorem IsSound.length_filter_le (hs : s.IsSound) :
    (s.interner.handles.filter s.isHeld).length ≤ s.liveTexts.card := by
  have htexts := hs.interner.texts.sublist ((List.filter_sublist (p := s.isHeld)).map _)
  rw [← List.length_map (f := Handle.text), ← List.toFinset_card_of_nodup htexts]
  refine Finset.card_le_card fun text htext => ?_
  obtain ⟨h, hh, rfl⟩ := List.mem_map.1 (List.mem_toFinset.1 htext)
  exact List.mem_toFinset.2 (List.mem_map_of_mem (isHeld_iff.1 (List.mem_filter.1 hh).2))

/-- An act leaves the interner small if few texts were held before. -/
theorem isWithin_after {count : Nat} (hs : s.IsSound) (h : s.interner.IsWithin count)
    (hcount : s.liveTexts.card ≤ count) (a : Act) : (s.after a).interner.IsWithin count := by
  rcases s.after_cases a with ⟨text, name, heq⟩ | ⟨hinterner, -⟩
  · rw [heq, interner_take]
    exact h.intern (hs.length_filter_le.trans hcount)
  · rwa [hinterner]

theorem isWithin_foldl {count : Nat} (hs : s.IsSound) (h : s.interner.IsWithin count)
    (acts : List Act) : (acts.foldl after s).interner.IsWithin (max count (s.peak acts)) := by
  induction acts generalizing s count with
  | nil => exact h.mono (le_max_left _ _)
  | cons a acts ih =>
    have hwithin := isWithin_after hs (h.mono (le_max_left count s.liveTexts.card))
      (le_max_right _ _) a
    have hrest := ih (isSound_after hs a) hwithin
    rwa [max_assoc] at hrest

/-- **The interner is no larger than its use makes it**: at any time it remembers at most the least
limit of texts, or twice the largest number of texts that were held at any time before. -/
theorem size_le_peak (acts : List Act) :
    (acts.foldl after empty).interner.size ≤ max Interner.leastLimit (2 * empty.peak acts) := by
  have hwithin := isWithin_foldl isSound_empty Interner.isWithin_empty acts
  rw [Nat.zero_max] at hwithin
  exact hwithin.size_le.trans hwithin.limit_le

end Holders

end SnapStore
