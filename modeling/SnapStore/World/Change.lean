import SnapStore.World.Resolve

/-!
# Changing the world

`SnapStore.World.Change` lists what can be done to a world, and `SnapStore.World.apply` does
it. Either a change is made, or the system refuses it; parts of a change that were made
before the refusal stay, such as the directories above a file that then cannot be written.

Files are written and directories made together with the directories above them
(`SnapStore.World.makeDirectories`). A removal takes a whole tree away, but a link itself
and not what it leads to. It empties a directory first and then removes it by the same path
again, which may no longer lead anywhere (`SnapStore.World.removeEmptied`).
-/

namespace SnapStore.World

/-- Something that is done to a world. -/
inductive Change
  /-- Writes a file, in place of what it held, and sets its modification time. -/
  | write (path : Path) (content : Bytes) (modified : Timestamp)
  /-- Makes a directory. -/
  | makeDirectory (path : Path)
  /-- Makes a symbolic link. -/
  | link (target path : Path)
  /-- Makes a named pipe. -/
  | pipe (path : Path)
  /-- Sets a modification time. -/
  | touch (path : Path) (modified : Timestamp)
  /-- Removes what is at a path. -/
  | remove (path : Path)
  /-- Makes a directory the current one. -/
  | enter (path : Path)

/-- A world after an attempt to change it, and whether the system went along. -/
structure Outcome where
  /-- The world that is left. -/
  world : World
  /-- Whether the change was made. -/
  isDone : Bool

/-- A path without the slashes at its end, but for those of the root. -/
def trimSlashes (p : Path) : Path :=
  if p.bytes.all (· = Bytes.slash) then p
  else ⟨(p.bytes.reverse.dropWhile (· = Bytes.slash)).reverse⟩

/-- Puts a new node where nothing is yet. -/
def create (w : World) (p : Path) (n : Node) : Except OsError World :=
  match w.resolve false p with
  | .error e => .error e
  | .ok (.found _) => .error .alreadyExists
  | .ok (.absent directory name) => .ok (w.put (directory ++ [name]) n)

/-- Makes one directory. Slashes after its name do no harm. -/
def makeOne (w : World) (p : Path) : Except OsError World :=
  if maxPath ≤ p.bytes.length then .error .nameTooLong
  else w.create (trimSlashes p) (.directory .epoch)

/-- Whether a path leads to a directory. -/
def leadsToDirectory (w : World) (p : Path) : Bool :=
  match w.locate true p with
  | .ok spot => w.isDirectoryAt spot
  | .error _ => false

/-- Makes a directory and the ones above it, unless they are there; so many at most. -/
def makeDirectories (w : World) : Nat → Path → Outcome
  | 0, _ => ⟨w, false⟩
  | count + 1, p =>
    if p.bytes = [] then ⟨w, true⟩
    else
      match w.makeOne p with
      | .ok w' => ⟨w', true⟩
      | .error .notFound =>
        match p.parent? with
        | none => ⟨w, false⟩
        | some above =>
          let made := w.makeDirectories count above
          if made.isDone then
            match made.world.makeOne p with
            | .ok w' => ⟨w', true⟩
            | .error _ => ⟨made.world, made.world.leadsToDirectory p⟩
          else made
      | .error _ => ⟨w, w.leadsToDirectory p⟩

/-- Makes a directory and the ones above it, unless they are there. -/
def makeAll (w : World) (p : Path) : Outcome := w.makeDirectories (p.components.length + 1) p

/-- Writes a file into a directory that is there. -/
def writeFile (w : World) (p : Path) (content : Bytes) (modified : Timestamp) : Outcome :=
  match w.resolve true p with
  | .error _ => ⟨w, false⟩
  | .ok (.absent directory name) => ⟨w.put (directory ++ [name]) (.file content modified), true⟩
  | .ok (.found (.removed _)) => ⟨w, false⟩
  | .ok (.found (.place place)) =>
    match w.node? place with
    | some (.file _ _) => ⟨w.put place (.file content modified), true⟩
    | _ => ⟨w, false⟩

/-- Sets the modification time of what stands at a place. -/
def touchPlace (w : World) (place : Place) (modified : Timestamp) : World :=
  if place = [] then { w with rootModified := modified }
  else
    match w.node? place with
    | some n => w.put place (n.touch modified)
    | none => w

/-- Sets the modification time of what is at a spot. -/
def touchSpot (w : World) (spot : Spot) (modified : Timestamp) : World :=
  match spot with
  | .place place => w.touchPlace place modified
  | .removed level =>
    { w with home := { w.home with removed := w.home.removed.set level modified } }

/-! ### Removals -/

/-- The current directory after the removal of what stands at the chosen places. What lies below
a chosen place has to be chosen too. -/
def homeAfter (w : World) (gone : Place → Bool) : Home :=
  let levels := (List.range (w.home.place.length + 1)).map w.home.place.take
  let lost := (levels.filter gone).filterMap fun q => (w.node? q).map fun n => n.status.modified
  ⟨w.home.place.take (w.home.place.length - lost.length), w.home.removed ++ lost.reverse⟩

/-- Takes away what stands at the chosen places. The current directory may be among it. -/
def takeAway (w : World) (gone : Place → Bool) : World :=
  { w.clear gone with home := w.homeAfter gone }

/-- Takes away what stands at a place and below it. -/
def removePlace (w : World) (place : Place) : World := w.takeAway (place.isPrefixOf ·)

/-- Takes away what is in a directory. There is nothing in a removed one. -/
def emptySpot (w : World) : Spot → World
  | .place place => w.takeAway fun q => place.isPrefixOf q && place ≠ q
  | .removed _ => w

/-- Whether a path ends in a name, not in a dot or two and not at the root. -/
def endsInName (p : Path) : Bool :=
  match (trimSlashes p).names.getLast? with
  | some name => name ≠ [Bytes.dot] && name ≠ [Bytes.dot, Bytes.dot]
  | none => false

/-- Removes the directory at a spot, emptied before, by the path that led there. It has to be
the last name of the path that names it, not a dot or a link with a slash after it. The path
may have led through what was in the directory, and then nothing is left to be done. -/
def removeEmptied (w : World) (spot : Spot) (p : Path) : Outcome :=
  match w.locate false (trimSlashes p) with
  | .error e => ⟨w, e = .notFound⟩
  | .ok (.removed _) => ⟨w, false⟩
  | .ok (.place place) =>
    if spot = .place place && endsInName p then ⟨w.removePlace place, true⟩ else ⟨w, false⟩

/-- Removes what is at a spot, and with a directory all that is in it, by the path that led
there. -/
def removeSpot (w : World) (spot : Spot) (p : Path) : Outcome :=
  if w.isDirectoryAt spot then (w.emptySpot spot).removeEmptied spot p
  else
    match spot with
    | .place place => ⟨w.removePlace place, true⟩
    | .removed _ => ⟨w, false⟩

/-- Makes the directory at a spot the current one. -/
def enterSpot (w : World) : Spot → Outcome
  | .place place =>
    if w.isDirectory place then ⟨{ w with home := ⟨place, []⟩ }, true⟩ else ⟨w, false⟩
  | .removed level =>
    ⟨{ w with home := { w.home with removed := w.home.removed.drop level } }, true⟩

/-! ### All changes -/

/-- Attempts a change. -/
def apply (w : World) : Change → Outcome
  | .write p content modified =>
    let made : Outcome := match p.parent? with
      | some above => w.makeAll above
      | none => ⟨w, true⟩
    if made.isDone then made.world.writeFile p content modified else made
  | .makeDirectory p => w.makeAll p
  | .link target p =>
    if target.bytes = [] || (0 : UInt8) ∈ target.bytes || maxPath ≤ target.bytes.length then
      ⟨w, false⟩
    else
      match w.create p (.link target) with
      | .ok w' => ⟨w', true⟩
      | .error _ => ⟨w, false⟩
  | .pipe p =>
    match w.create p (.special .epoch) with
    | .ok w' => ⟨w', true⟩
    | .error _ => ⟨w, false⟩
  | .touch p modified =>
    match w.locate true p with
    | .ok spot => ⟨w.touchSpot spot modified, true⟩
    | .error _ => ⟨w, false⟩
  | .remove p =>
    match w.locate false p with
    | .error _ => ⟨w, false⟩
    | .ok spot => w.removeSpot spot p
  | .enter p =>
    match w.locate true p with
    | .error _ => ⟨w, false⟩
    | .ok spot => w.enterSpot spot

end SnapStore.World
