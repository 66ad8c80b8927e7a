import Mathlib.Tactic.SplitIfs
import SnapStore.World.Resolve

/-!
# Looking up one name

Following the names of a path, `SnapStore.World.advance` looks up one name after the other, and
what it does with the next name depends on what this one has led to. `SnapStore.World.lookUp` is
that one step by itself: it knows neither the names to come nor whether a link at the end is to be
followed. `SnapStore.World.advance_cons` says how the steps are put together.

From it follows how a path is read that has one more name at its end
(`SnapStore.World.advance_append`, `SnapStore.World.follow_append`): if what comes before leads to a
spot, the name is looked up there, with the links that are left.
-/

namespace SnapStore.World

open Bytes (slash dot)

/-- What one name leads to. -/
inductive Lookup
  /-- To a directory, where the next name can be looked up. -/
  | onward (spot : Spot)
  /-- To nothing, in this directory. -/
  | missing (directory : Place)
  /-- To a link in this directory. -/
  | link (directory : Place) (target : Path)
  /-- To something in this directory that is no directory itself. -/
  | leaf (directory : Place)
  /-- Nowhere. -/
  | refused (e : OsError)

/-- Looks up one name from a directory. -/
def lookUp (w : World) (here : Spot) (name : Bytes) : Lookup :=
  if name = [dot] then .onward here
  else if name = [dot, dot] then .onward (w.above here)
  else
    match here with
    | .removed _ => .refused .notFound
    | .place directory =>
      if maxName < name.length then .refused .nameTooLong
      else
        match w.node? (directory ++ [name]) with
        | none => .missing directory
        | some (.directory _) => .onward (.place (directory ++ [name]))
        | some (.link target) => .link directory target
        | some _ => .leaf directory

/-- What becomes of what one name leads to, given the names to come. -/
def proceed (w : World) (followLast : Bool) (name : Bytes) (rest : List Bytes) :
    Lookup → Progress
  | .onward spot => w.advance followLast spot rest
  | .missing directory =>
    if rest = [] then .done (.absent directory name) else .refused .notFound
  | .link directory target =>
    if rest = [] && !followLast then .done (.found (.place (directory ++ [name])))
    else .link directory target rest
  | .leaf directory =>
    if rest = [] then .done (.found (.place (directory ++ [name]))) else .refused .notDirectory
  | .refused e => .refused e

variable {w : World} {followLast : Bool}

/-- **Names are looked up one after the other.** -/
theorem advance_cons (w : World) (followLast : Bool) (here : Spot) (name : Bytes)
    (rest : List Bytes) :
    w.advance followLast here (name :: rest)
      = w.proceed followLast name rest (w.lookUp here name) := by
  rw [advance.eq_def, lookUp.eq_def]
  dsimp only
  by_cases hdot : name = [dot]
  · rw [if_pos hdot, if_pos hdot]
    rfl
  · by_cases hdotdot : name = [dot, dot]
    · rw [if_neg hdot, if_neg hdot, if_pos hdotdot, if_pos hdotdot]
      rfl
    · rw [if_neg hdot, if_neg hdot, if_neg hdotdot, if_neg hdotdot]
      cases here with
      | removed level => rfl
      | place directory =>
        dsimp only
        by_cases hlong : maxName < name.length
        · rw [if_pos hlong, if_pos hlong]
          rfl
        · rw [if_neg hlong, if_neg hlong]
          rcases w.node? (directory ++ [name]) with _ | node
          · rfl
          · cases node <;> rfl

/-! ### What is looked up -/

/-- A name that is missing in a directory is not a dot, or two. -/
theorem ne_dot_of_lookUp {here : Spot} {name : Bytes} {directory : Place}
    (h : w.lookUp here name = .missing directory) : name ≠ [dot] ∧ name ≠ [dot, dot] := by
  refine ⟨?_, ?_⟩
  · rintro rfl
    cases h
  · rintro rfl
    cases h

/-- What is no directory cannot be gone through. -/
theorem isDirectory_of_leaf {here : Spot} {name : Bytes} {directory : Place}
    (h : w.lookUp here name = .leaf directory) : w.isDirectory (directory ++ [name]) = false := by
  cases here with
  | removed level =>
    unfold lookUp at h
    split_ifs at h
  | place here =>
    unfold lookUp at h
    split_ifs at h
    dsimp only at h
    rcases hnode : w.node? (here ++ [name]) with _ | node
    · rw [hnode] at h
      cases h
    · rw [hnode] at h
      cases node with
      | directory modified => cases h
      | link target => cases h
      | file content modified =>
        cases h
        simp [isDirectory, hnode, Node.kind]
      | special modified =>
        cases h
        simp [isDirectory, hnode, Node.kind]

/-- A name that stands in a directory is found there. -/
theorem lookUp_of_node {directory : Place} {name : Bytes} (hdot : name ≠ [dot])
    (hdotdot : name ≠ [dot, dot]) (hlong : name.length ≤ maxName) {node : Node}
    (hnode : w.node? (directory ++ [name]) = some node) (hlink : node.kind ≠ .link) :
    w.lookUp (.place directory) name = .onward (.place (directory ++ [name])) ∨
      w.lookUp (.place directory) name = .leaf directory := by
  unfold lookUp
  rw [if_neg hdot, if_neg hdotdot]
  dsimp only
  rw [if_neg (by omega), hnode]
  cases node with
  | file content modified => exact Or.inr rfl
  | directory modified => exact Or.inl rfl
  | link target => exact absurd rfl hlink
  | special modified => exact Or.inr rfl

/-! ### One more name -/

/-- Names that lead to a directory can be followed by others. -/
theorem advance_append {here spot : Spot} {names : List Bytes}
    (h : w.advance true here names = .done (.found spot)) (hspot : w.isDirectoryAt spot = true)
    (followLast : Bool) (tail : List Bytes) :
    w.advance followLast here (names ++ tail) = w.advance followLast spot tail := by
  induction names generalizing here with
  | nil =>
    cases h
    rfl
  | cons name names ih =>
    rw [advance_cons] at h
    rw [List.cons_append, advance_cons]
    rcases hname : w.lookUp here name with s | d | ⟨d, target⟩ | d | e
    · rw [hname] at h
      exact ih h
    · rw [hname, proceed] at h
      split_ifs at h
      cases h
    · rw [hname, proceed] at h
      simp at h
    · -- The names end here, at something that is no directory: more names cannot follow.
      rw [hname, proceed] at h
      split_ifs at h
      cases h
      change w.isDirectory (d ++ [name]) = true at hspot
      rw [isDirectory_of_leaf hname] at hspot
      cases hspot
    · rw [hname] at h
      cases h

/-- Names that are left over at a link can be followed by others. -/
theorem advance_append_of_link {here : Spot} {names rest : List Bytes} {directory : Place}
    {target : Path} (h : w.advance true here names = .link directory target rest)
    (followLast : Bool) {tail : List Bytes} (htail : tail ≠ []) :
    w.advance followLast here (names ++ tail) = .link directory target (rest ++ tail) := by
  induction names generalizing here with
  | nil => cases h
  | cons name names ih =>
    rw [advance_cons] at h
    rw [List.cons_append, advance_cons]
    rcases hname : w.lookUp here name with s | d | ⟨d, target⟩ | d | e
    · rw [hname] at h
      exact ih h
    · rw [hname, proceed] at h
      split_ifs at h
    · rw [hname, proceed] at h
      simp at h
      simp [proceed, htail, h]
    · rw [hname, proceed] at h
      split_ifs at h
    · rw [hname] at h
      cases h

theorem follow_of_link {here : Spot} {names rest : List Bytes} {directory : Place} {target : Path}
    (h : w.advance followLast here names = .link directory target rest) (links : Nat) :
    w.follow followLast (links + 1) here names =
      w.follow followLast links (.place (if target.isAbsolute then [] else directory))
        (target.names ++ rest) := by
  rw [follow, h]

/-- **Names can be followed by others where they lead to a directory**, with the links that are
left. -/
theorem follow_append {links : Nat} {here spot : Spot} {names : List Bytes}
    (h : w.follow true links here names = .ok (.found spot)) (hspot : w.isDirectoryAt spot = true)
    {tail : List Bytes} (htail : tail ≠ []) :
    ∃ left ≤ links, ∀ followLast,
      w.follow followLast links here (names ++ tail) = w.follow followLast left spot tail := by
  induction links generalizing here names with
  | zero =>
    unfold follow at h
    rcases hadvance : w.advance true here names with r | e | ⟨directory, target, rest⟩
    · rw [hadvance] at h
      cases h
      refine ⟨0, Nat.le_refl _, fun followLast => ?_⟩
      rw [follow, follow, advance_append hadvance hspot]
    · rw [hadvance] at h
      cases h
    · rw [hadvance] at h
      cases h
  | succ links ih =>
    unfold follow at h
    rcases hadvance : w.advance true here names with r | e | ⟨directory, target, rest⟩
    · rw [hadvance] at h
      cases h
      refine ⟨links + 1, Nat.le_refl _, fun followLast => ?_⟩
      rw [follow, follow, advance_append hadvance hspot]
    · rw [hadvance] at h
      cases h
    · rw [hadvance] at h
      -- The tail goes behind what the link has left over, and the induction is on the links.
      obtain ⟨left, hleft, hfollow⟩ := ih h
      refine ⟨left, by omega, fun followLast => ?_⟩
      rw [follow_of_link (advance_append_of_link hadvance followLast htail), ← List.append_assoc]
      exact hfollow followLast

end SnapStore.World
