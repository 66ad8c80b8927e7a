/-!
# The interner

Keys are compared and copied all the time, so equal keys share one allocation. A
`SnapStore.Interner` hands out **handles**, the same one for equal texts, as long as somebody
holds it. `SnapStore.Handle.serial` stands for the allocation: two handles are the same one
exactly if their serial numbers agree.

A text that nobody holds any more is forgotten, but not at once. When a new text comes in and
the interner has grown to its limit, all texts without a holder are dropped, and the limit
becomes twice the number of those that stay, though never less than
`SnapStore.Interner.leastLimit` (`SnapStore.Interner.prune`). The interner cannot see who
holds what: that is told to it, as a test of handles.
-/

namespace SnapStore

/-- A text handed out by an interner. -/
structure Handle where
  /-- The text. -/
  text : String
  /-- The number of the allocation. -/
  serial : Nat
  deriving DecidableEq

/-- The texts that are shared. -/
structure Interner where
  /-- The handle of every text that is remembered. -/
  handles : List Handle
  /-- The number of texts at which the unused ones are dropped. -/
  limit : Nat
  /-- The number of allocations so far. -/
  allocated : Nat

namespace Interner

/-- The smallest limit. -/
def leastLimit : Nat := 64

/-- The interner that remembers nothing. -/
def empty : Interner := ⟨[], leastLimit, 0⟩

/-- The number of texts that are remembered. -/
def size (i : Interner) : Nat := i.handles.length

/-- Drops the handles that nobody holds. -/
def prune (isHeld : Handle → Bool) (i : Interner) : Interner :=
  let kept := i.handles.filter isHeld
  { i with handles := kept, limit := max leastLimit (2 * kept.length) }

/-- Adds a text that is not remembered. -/
def allocate (text : String) (i : Interner) : Handle × Interner :=
  let handle : Handle := ⟨text, i.allocated⟩
  (handle, { i with handles := handle :: i.handles, allocated := i.allocated + 1 })

/-- The handle of a text. -/
def intern (isHeld : Handle → Bool) (text : String) (i : Interner) : Handle × Interner :=
  match i.handles.find? (·.text = text) with
  | some handle => (handle, i)
  | none => (if i.limit ≤ i.size then i.prune isHeld else i).allocate text

/-! ### What is handed out -/

/-- The handle of a text is a handle of that text. -/
theorem text_intern (isHeld : Handle → Bool) (text : String) (i : Interner) :
    (i.intern isHeld text).1.text = text := by
  unfold intern
  split
  · rename_i handle h
    simpa using List.find?_some h
  · rfl

/-- A handle that has been handed out is remembered. -/
theorem mem_handles_intern (isHeld : Handle → Bool) (text : String) (i : Interner) :
    (i.intern isHeld text).1 ∈ (i.intern isHeld text).2.handles := by
  unfold intern
  split
  · rename_i handle h
    exact List.mem_of_find?_eq_some h
  · exact List.mem_cons_self

/-- A handle that somebody holds survives. -/
theorem mem_handles_prune {isHeld : Handle → Bool} {h : Handle} {i : Interner}
    (hmem : h ∈ i.handles) (hheld : isHeld h = true) : h ∈ (i.prune isHeld).handles :=
  List.mem_filter.2 ⟨hmem, hheld⟩

end Interner

end SnapStore
