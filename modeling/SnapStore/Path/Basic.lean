import SnapStore.Text.Utf8

/-!
# Paths

A `SnapStore.Path` is what a caller writes down: any bytes at all. What matters about it
is mostly its list of **components** (`SnapStore.Path.components`), which is blind to
repeated and trailing slashes and to a `.` inside or at the end; only a `.` that opens a
relative path is a component.

* `SnapStore.Path.startsWith` is the prefix relation on components, and
  `SnapStore.Path.same` their equality;
* `SnapStore.Path.parent?` drops the last component;
* `SnapStore.Path.fileName?` is the last component where that is a name, and
  `SnapStore.Path.extension?` what follows the last dot of that name;
* `SnapStore.Path.child` joins a name on, with a slash in between unless there is one
  already.

None of these looks at a file system: what a path leads to is the business of
`SnapStore.World.resolve`.
-/

namespace SnapStore

/-- A path as it was written down. -/
structure Path where
  /-- The bytes of the path. -/
  bytes : Bytes
  deriving DecidableEq

/-- One step of a path. -/
inductive Component
  /-- The leading slash of an absolute path. -/
  | root
  /-- A `.` that opens a relative path. -/
  | current
  /-- A `..`. -/
  | parent
  /-- The name of an entry. -/
  | name (bytes : Bytes)
  deriving DecidableEq

open Bytes (slash dot)

/-- The bytes of a component other than the root. -/
def Component.bytes : Component → Bytes
  | .root => []
  | .current => [dot]
  | .parent => [dot, dot]
  | .name n => n

namespace Path

/-- The path that a text spells. -/
def ofString (s : String) : Path := ⟨Utf8.encode s⟩

/-- The path as it is shown in messages. -/
def display (p : Path) : String := Utf8.repair p.bytes

/-- The path as text, if it is UTF-8. -/
def toString? (p : Path) : Option String := Utf8.decode? p.bytes

/-- Whether the path starts at the root. -/
def isAbsolute (p : Path) : Bool := p.bytes.head? = some slash

/-! ### Components -/

/-- What a piece between two slashes stands for, away from the start of the path. -/
def stepsOfPiece (piece : Bytes) : List Component :=
  if piece = [] then []
  else if piece = [dot] then []
  else if piece = [dot, dot] then [.parent]
  else [.name piece]

/-- What the first piece stands for, given whether any piece follows it. -/
def stepsOfFirst (piece : Bytes) (more : Bool) : List Component :=
  if piece = [] && more then [.root]
  else if piece = [dot] then [.current]
  else stepsOfPiece piece

/-- The components of a path. -/
def components (p : Path) : List Component :=
  match p.bytes.split with
  | [] => []
  | first :: rest => stepsOfFirst first (!rest.isEmpty) ++ rest.flatMap stepsOfPiece

/-- Whether two paths have the same components. -/
def same (p q : Path) : Bool := p.components = q.components

/-- Whether the components of `q` open those of `p`. -/
def startsWith (p q : Path) : Bool := q.components.isPrefixOf p.components

/-! ### Putting together and taking apart -/

/-- The path of an entry called `name` in the directory at `p`. -/
def child (p : Path) (name : Bytes) : Path :=
  match p.bytes.getLast? with
  | none => ⟨name⟩
  | some b => if b = slash then ⟨p.bytes ++ name⟩ else ⟨p.bytes ++ slash :: name⟩

/-- The relative path through these names. -/
def ofNames (names : List Bytes) : Path := ⟨Bytes.joined names⟩

/-- The absolute path through these names. -/
def absoluteOfNames (names : List Bytes) : Path := ⟨slash :: Bytes.joined names⟩

/-- Whether a piece between two slashes stands for no step, away from the start of the path. -/
def isIdle (piece : Bytes) : Bool := piece = [] || piece = [dot]

/-- The path without its last component; the root has no parent, nor has the empty path. What
is left is spelled as it was, up to the end of the component before. -/
def parent? (p : Path) : Option Path :=
  match p.bytes.split with
  | [] => none
  | first :: rest =>
    match rest.reverse.dropWhile isIdle with
    | _ :: before =>
      let kept := (before.dropWhile isIdle).reverse
      some (if first = [] && kept = [] then ⟨[slash]⟩ else ⟨Bytes.joined (first :: kept)⟩)
    | [] => if first = [] then none else some ⟨[]⟩

/-- The name that the path ends in. -/
def fileName? (p : Path) : Option Bytes :=
  match p.components.getLast? with
  | some (.name n) => some n
  | _ => none

/-- What follows the last dot of a file name, unless that dot opens the name. -/
def extensionOfName (name : Bytes) : Option Bytes :=
  let tail := (name.reverse.takeWhile (· ≠ dot)).reverse
  if tail.length + 1 < name.length then some tail else none

/-- The extension of the name that the path ends in. -/
def extension? (p : Path) : Option Bytes := p.fileName?.bind extensionOfName

/-! ### How components see spelling -/

theorem startsWith_trans {p q r : Path} (hpq : p.startsWith q = true)
    (hqr : q.startsWith r = true) : p.startsWith r = true := by
  simp only [startsWith, List.isPrefixOf_iff_prefix] at *
  exact hqr.trans hpq

/-- Two opening parts of one path are comparable. -/
theorem startsWith_total {p q r : Path} (hq : p.startsWith q = true)
    (hr : p.startsWith r = true) : q.startsWith r = true ∨ r.startsWith q = true := by
  simp only [startsWith, List.isPrefixOf_iff_prefix] at *
  exact (List.prefix_or_prefix_of_prefix hr hq)

end Path

end SnapStore
