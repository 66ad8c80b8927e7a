import SnapStore.Store.Interner
import SnapStore.Text.NameSet

/-!
# Holders of handles

A handle counts as held as long as somebody has it. `SnapStore.Holders` is an interner together
with all the handles that are held, each under the name of its holder: taking a handle under
a name lets go of the one that was held under it, and dropping a name lets go of its handle.
So a run of an interner is a sequence of steps from `SnapStore.Holders.empty`, and what the
interner is told about who holds what (`SnapStore.Holders.isHeld`) is the truth.
-/

namespace SnapStore

/-- An interner, and who holds which of its handles. -/
structure Holders where
  /-- The interner. -/
  interner : Interner
  /-- The handles that are held, by the name of the holder. -/
  held : List (String × Handle)

namespace Holders

/-- Nothing is remembered, and nothing held. -/
def empty : Holders := ⟨.empty, []⟩

/-- Whether somebody holds a handle. -/
def isHeld (s : Holders) (h : Handle) : Bool := s.held.any (·.2 = h)

/-- The names of those who hold a handle, in ascending order. -/
def holdersOf (s : Holders) (h : Handle) : List String :=
  ((s.held.filter (·.2 = h)).map (·.1)).mergeSort Utf8.le

/-- Interns a text. Nobody holds the handle yet. -/
def intern (s : Holders) (text : String) : Handle × Holders :=
  let (handle, interner) := s.interner.intern s.isHeld text
  (handle, { s with interner := interner })

/-- Lets go of the handles under the chosen names. -/
def drop (s : Holders) (isDropped : String → Bool) : Holders :=
  { s with held := s.held.filter fun e => !isDropped e.1 }

/-- Holds a handle under a name. -/
def hold (s : Holders) (name : String) (h : Handle) : Holders :=
  { s with held := (name, h) :: (s.drop (· = name)).held }

/-- Interns a text, and holds the handle if there is a name for it. -/
def take (s : Holders) (text : String) (name : Option String) : Handle × Holders :=
  let (handle, s) := s.intern text
  match name with
  | none => (handle, s)
  | some name => (handle, s.hold name handle)

/-- Interns numbered texts, and holds each under the name that it is, if they are to be held. -/
def takeNumbered (s : Holders) (stem : String) (count : Nat) (isKept : Bool) : Holders :=
  (List.range count).foldl (fun s i =>
    let text := stem ++ toString i
    (s.take text (if isKept then some text else none)).2) s

end Holders

end SnapStore
