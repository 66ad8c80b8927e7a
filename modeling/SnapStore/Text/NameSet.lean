import SnapStore.Text.Utf8

/-!
# Sets of names

Texts are ordered by their bytes (`SnapStore.Utf8.le`), and a `SnapStore.NameSet` is a
finite set of texts, kept as the list of its members in that order. So two sets with the
same members are equal, and a set is always written in the same way.
-/

namespace SnapStore

/-- The order of texts by their bytes. -/
def Utf8.le (s t : String) : Bool := (encode s).le (encode t)

/-- A finite set of texts: its members in ascending order. -/
structure NameSet where
  /-- The members, in ascending order. -/
  members : List String
  deriving DecidableEq

namespace NameSet

/-- The set without members. -/
def empty : NameSet := ⟨[]⟩

/-- Whether there is no member. -/
def isEmpty (s : NameSet) : Bool := s.members.isEmpty

/-- Whether a text is a member. -/
def contains (s : NameSet) (x : String) : Bool := decide (x ∈ s.members)

/-- A text put in its place among others in ascending order, unless it is there. -/
def place (x : String) : List String → List String
  | [] => [x]
  | y :: ys => if x = y then y :: ys else if Utf8.le x y then x :: y :: ys else y :: place x ys

/-- The set with one more member. -/
def insert (s : NameSet) (x : String) : NameSet := ⟨place x s.members⟩

/-- The set of the given texts. -/
def ofList (xs : List String) : NameSet := xs.foldl insert empty

theorem mem_place {x y : String} {ys : List String} : y ∈ place x ys ↔ y = x ∨ y ∈ ys := by
  induction ys with
  | nil => simp [place]
  | cons z zs ih =>
    rw [place]
    split
    · rename_i h; simp [h]
    · split
      · simp
      · simp only [List.mem_cons, ih]
        exact or_left_comm

/-- The members after an insertion. -/
theorem mem_insert {s : NameSet} {x y : String} :
    y ∈ (s.insert x).members ↔ y = x ∨ y ∈ s.members := mem_place

end NameSet

end SnapStore
