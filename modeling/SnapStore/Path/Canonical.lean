import SnapStore.Error

/-!
# Canonical paths

Snapshots are stored under the **canonical** form of a path: absolute, with `.` and `..`
resolved and no slash repeated or trailing, so that every spelling of a path leads to one
key. `SnapStore.Path.canonicalNames` computes the names along it and
`SnapStore.Path.canonical` writes them as text.

The resolution is purely lexical: a `..` takes back the name before it (and stays at the
root when there is none) whether or not that name is a symbolic link. The file system
takes no part, but for the current directory, to which a relative path is relative.
-/

namespace SnapStore.Path

/-- The names left after one more component. -/
def descend (names : List Bytes) : Component → List Bytes
  | .root => []
  | .current => names
  | .parent => names.dropLast
  | .name n => names ++ [n]

/-- The names along the canonical form of `p`, given those along the current directory. -/
def canonicalNames (cwd : List Bytes) (p : Path) : List Bytes :=
  p.components.foldl descend cwd

/-- The empty path has no absolute form. -/
def emptyFault : Error := .invalidPath ": cannot make an empty path absolute"

/-- A relative path has no absolute form while there is no current directory. -/
def homelessFault (p : Path) (e : OsError) : Error :=
  .invalidPath (p.display ++ ": " ++ e.text)

/-- The text of a canonical path, given the names along it. -/
def textOfNames (names : List Bytes) : Except Error String :=
  match (absoluteOfNames names).toString? with
  | some s => .ok s
  | none => .error (.notText (absoluteOfNames names))

/-- The canonical form of `p`, given the current directory. -/
def canonical (cwd : Except OsError Path) (p : Path) : Except Error String :=
  if p.bytes = [] then .error emptyFault
  else if p.isAbsolute then textOfNames (canonicalNames [] p)
  else
    match cwd with
    | .error e => .error (homelessFault p e)
    | .ok base => textOfNames (canonicalNames (canonicalNames [] base) p)

end SnapStore.Path
