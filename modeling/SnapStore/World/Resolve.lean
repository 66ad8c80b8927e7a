import SnapStore.Error
import SnapStore.World.Basic

/-!
# Where a path leads

`SnapStore.World.resolve` finds the spot that a path leads to, as the kernel does: name
by name, with symbolic links followed on the way and `..` going up from where the links
have led. It says why when there is none.

In a removed directory there is nothing, but a `..` still leads out of it
(`SnapStore.World.above`). Only a relative path can get into one: an absolute path that leads
anywhere leads to a place (`SnapStore.World.exists_place_of_resolve`).

Following the names of one list is `SnapStore.World.advance`. It stops at a link, since the
target brings names of its own; `SnapStore.World.follow` goes on with them, forty times at
most.

A slash at the end of a path stands for a `.` after it (`SnapStore.Path.names`): what comes
before must be a directory, and a link there is followed.
-/

namespace SnapStore

/-- The names of a path that are looked up one after the other. -/
def Path.names (p : Path) : List Bytes :=
  let pieces := p.bytes.split.filter (· ≠ [])
  if p.bytes.getLast? = some Bytes.slash then pieces ++ [[Bytes.dot]] else pieces

/-- Where a path has led. -/
inductive Resolved
  /-- To a spot where something is. -/
  | found (spot : Spot)
  /-- Into a directory, in which the last name is missing. -/
  | absent (directory : Place) (name : Bytes)
  deriving DecidableEq

/-- How far a list of names has led. -/
inductive Progress
  /-- To its end. -/
  | done (r : Resolved)
  /-- Nowhere. -/
  | refused (e : OsError)
  /-- To a link in this directory, with names left over. -/
  | link (directory : Place) (target : Path) (rest : List Bytes)
  deriving DecidableEq

namespace World

/-- The number of bytes that a name can have. -/
def maxName : Nat := 255

/-- The number of bytes that a path must stay below. -/
def maxPath : Nat := 4096

/-- The number of links that can be followed. -/
def maxLinks : Nat := 40

/-- The directory above one. The root is above itself. -/
def above (w : World) : Spot → Spot
  | .place p => .place p.dropLast
  | .removed level => w.home.ancestor (level + 1)

/-- Looks up names from a directory on, up to the first link that has to be followed. The link
at the end is followed only on request. -/
def advance (w : World) (followLast : Bool) (here : Spot) : List Bytes → Progress
  | [] => .done (.found here)
  | name :: rest =>
    if name = [Bytes.dot] then w.advance followLast here rest
    else if name = [Bytes.dot, Bytes.dot] then w.advance followLast (w.above here) rest
    else
      match here with
      | .removed _ => .refused .notFound
      | .place directory =>
        if maxName < name.length then .refused .nameTooLong
        else
          let place := directory ++ [name]
          match w.node? place with
          | none => if rest = [] then .done (.absent directory name) else .refused .notFound
          | some (.directory _) => w.advance followLast (.place place) rest
          | some (.link target) =>
            if rest = [] && !followLast then .done (.found (.place place))
            else .link directory target rest
          | some _ =>
            if rest = [] then .done (.found (.place place)) else .refused .notDirectory

/-- Looks up names from a directory on, following at most so many links. -/
def follow (w : World) (followLast : Bool) : Nat → Spot → List Bytes → Except OsError Resolved
  | links, here, names =>
    match w.advance followLast here names with
    | .done r => .ok r
    | .refused e => .error e
    | .link directory target rest =>
      match links with
      | 0 => .error .tooManyLinks
      | links + 1 =>
        w.follow followLast links (.place (if target.isAbsolute then [] else directory))
          (target.names ++ rest)

/-- Where a path leads. -/
def resolve (w : World) (followLast : Bool) (p : Path) : Except OsError Resolved :=
  if (0 : UInt8) ∈ p.bytes then .error .zeroByte
  else if p.bytes = [] then .error .notFound
  else if maxPath ≤ p.bytes.length then .error .nameTooLong
  else w.follow followLast maxLinks (if p.isAbsolute then .place [] else w.home.spot) p.names

/-- The spot that a path leads to. -/
def locate (w : World) (followLast : Bool) (p : Path) : Except OsError Spot :=
  match w.resolve followLast p with
  | .ok (.found spot) => .ok spot
  | .ok (.absent _ _) => .error .notFound
  | .error e => .error e

/-- What is where a path leads. -/
def find (w : World) (followLast : Bool) (p : Path) : Except OsError Node :=
  match w.locate followLast p with
  | .error e => .error e
  | .ok spot =>
    match w.nodeAt? spot with
    | some n => .ok n
    | none => .error .notFound

/-! ### From places to places -/

/-- Names lead from a place to a place. -/
theorem exists_place_of_advance {w : World} {followLast : Bool} {names : List Bytes} {p : Place}
    {s : Spot} (h : w.advance followLast (.place p) names = .done (.found s)) :
    ∃ q, s = .place q := by
  induction names generalizing p with
  | nil =>
    simp only [advance, Progress.done.injEq, Resolved.found.injEq] at h
    exact ⟨p, h.symm⟩
  | cons name rest ih =>
    simp only [advance] at h
    repeat' split at h
    all_goals first
      | exact ih h
      | (simp only [Progress.done.injEq, Resolved.found.injEq] at h; exact ⟨_, h.symm⟩)
      | cases h

/-- So they do when links are followed. -/
theorem exists_place_of_follow {w : World} {followLast : Bool} {links : Nat} {p : Place}
    {names : List Bytes} {s : Spot}
    (h : w.follow followLast links (.place p) names = .ok (.found s)) : ∃ q, s = .place q := by
  induction links generalizing p names with
  | zero =>
    unfold follow at h
    split at h
    · rename_i r hr
      cases h
      exact exists_place_of_advance hr
    · cases h
    · cases h
  | succ links ih =>
    unfold follow at h
    split at h
    · rename_i r hr
      cases h
      exact exists_place_of_advance hr
    · cases h
    · exact ih h

/-- What an absolute path leads to stands at a place. -/
theorem exists_place_of_resolve {w : World} {followLast : Bool} {p : Path} {s : Spot}
    (hp : p.isAbsolute = true) (h : w.resolve followLast p = .ok (.found s)) :
    ∃ q, s = .place q := by
  unfold resolve at h
  rw [if_pos hp] at h
  repeat' split at h
  all_goals first
    | exact exists_place_of_follow h
    | cases h

end World

end SnapStore
