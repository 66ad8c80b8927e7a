import SnapStore.Tree.Basic

/-!
# Walking a directory

`SnapStore.DirectoryTree.visit` walks through a directory on disk and reports what passes
the filter. Links are followed. It goes down depth first:

* the names in a directory are read at once and taken in the order of their bytes; the kind
  of each is the one it had at that moment;
* a link is resolved when its turn comes (`SnapStore.DirectoryTree.arrive`). If it leads to a
  directory that the walk is inside of, it closes a **loop**, and the walk fails;
* the names in a directory are read just before the directory is reported, so that one that
  cannot be read is still reported first;
* an entry whose path is not text is passed over, with everything below it.

Whatever has vanished by the time the walk gets to it is passed over; any other refusal of
the system ends the walk (`SnapStore.WalkFault`).

Every step down makes the path longer, and the system refuses paths of
`SnapStore.World.maxPath` bytes, which bounds the depth of the recursion.
-/

namespace SnapStore

/-- Why a walk cannot go on at some entry. -/
inductive WalkFault
  /-- The system refused a call, made for this entry if it is given. -/
  | refused (path : Option Path) (e : OsError)
  /-- A link leads back to a directory that the walk is inside of. -/
  | loop (child ancestor : Path)
  deriving DecidableEq

namespace WalkFault

/-- The wording of a fault. -/
def text : WalkFault → String
  | refused (some p) e => "IO error for operation on " ++ p.display ++ ": " ++ e.text
  | refused none e => e.text
  | loop child ancestor =>
    "File system loop found: " ++ child.display ++ " points to an ancestor " ++ ancestor.display

/-- Whether the fault is that something has vanished. -/
def isVanished : WalkFault → Bool
  | refused _ e => e = .notFound
  | loop _ _ => false

end WalkFault

namespace DirectoryTree

variable {m : Type → Type} [Monad m]

/-- An entry that the walk has reached. -/
structure Reached where
  /-- The path by which it was reached. -/
  path : Path
  /-- The names from the root of the tree to the entry. -/
  names : List Bytes
  /-- What it is, a link replaced by what it leads to. -/
  kind : Kind
  /-- Whether it was reached through a link. -/
  isFollowed : Bool

/-- How a special file is named in an error. -/
def specialKind : String :=
  "FileType \x7b is_file: false, is_dir: false, is_symlink: false, .. \x7d"

/-- The details of an entry on disk. -/
def details (calls : Calls m) (path : Path) (relative : RelativePath) (seen : Metadata) :
    Details m where
  path := path
  relative := relative
  modified := seen.modified
  openContent := openFile calls path
  digest h := ExceptT.mk (h.file path seen)

/-! ### Links -/

/-- Looks for the directory at `spot` among the open ones, the innermost first. -/
def findLoop (calls : Calls m) (child : Path) (spot : Spot) :
    List Path → ExceptT WalkFault m Unit
  | [] => return
  | ancestor :: outer => do
    match ← calls.identify ancestor with
    | .error e => throw (.refused none e)
    | .ok other =>
      if other = spot then throw (.loop child ancestor)
      else findLoop calls child spot outer

/-- What an entry is, given what it was when its name was read. A link is followed, and one
that leads to a directory must not lead to an open one. -/
def arrive (calls : Calls m) (inside : List Path) (path : Path) (listed : Kind) :
    ExceptT WalkFault m (Kind × Bool) := do
  if listed ≠ .link then return (listed, false)
  match ← calls.stat path with
  | .error e => throw (.refused (some path) e)
  | .ok s =>
    if s.kind = .directory then
      match ← calls.identify path with
      | .error e => throw (.refused none e)
      | .ok spot => findLoop calls path spot inside
    return (s.kind, true)

/-! ### Entries -/

/-- Passes over what has vanished; any other fault ends the walk. -/
def raise (t : DirectoryTree) (fault : WalkFault) : ExceptT Failure m Unit := do
  unless fault.isVanished do throw (.error (.walk t.root.display fault.text))

/-- Reports an entry that passes the filter. -/
def reportAllowed (calls : Calls m) (v : Visitor m) (e : Reached) : ExceptT Failure m Unit := do
  match ← (if e.isFollowed then calls.stat e.path else calls.linkStat e.path) with
  | .error .notFound => return
  | .error cause =>
    throw (.error (.read e.path.display (WalkFault.refused (some e.path) cause).text))
  | .ok s =>
    let seen ← Metadata.ofStatus s
    let relative ← RelativePath.ofPath (e.kind ≠ .directory) (.ofNames e.names)
    let d := details calls e.path relative seen
    match e.kind with
    | .directory => v.directory d
    | .file => v.file d
    | _ => throw (.error (.unrecognizedFileType e.path.display specialKind))

/-- Reports an entry if it belongs to the tree, and says whether what is below it may. -/
def report (calls : Calls m) (t : DirectoryTree) (v : Visitor m) (e : Reached) :
    ExceptT Failure m Bool := do
  if e.path.toString?.isNone then return false
  match t.filter.level (.ofNames e.names) (e.kind = .directory) with
  | .deny => return false
  | .traverse => return true
  | .allow =>
    reportAllowed calls v e
    return true

/-! ### Directories -/

/-- What reading a directory gave. -/
abbrev Listing := Except OsError (List (Bytes × Kind))

/-- The names of a listing in the order in which they are visited. -/
def inOrder (names : List (Bytes × Kind)) : List (Bytes × Kind) :=
  names.mergeSort fun a b => a.1.le b.1

/-- Visits what is listed in the innermost open directory, which lies at `names` below the
root of the tree, and what is below that. The recursion stops after so many levels. -/
def visitBelow (calls : Calls m) (t : DirectoryTree) (v : Visitor m) :
    Nat → List Path → Path → List Bytes → Listing → ExceptT Failure m Unit
  | 0, _, _, _, _ => return
  | _ + 1, _, here, _, .error e => t.raise (.refused (some here) e)
  | levels + 1, inside, here, names, .ok listed =>
    (inOrder listed).forM fun entry => do
      let path := here.child entry.1
      match ← (arrive calls inside path entry.2).run with
      | .error fault => t.raise fault
      | .ok (kind, isFollowed) =>
        let listing ← if kind = .directory then calls.list path else pure (.ok [])
        let goOn ← report calls t v ⟨path, names ++ [entry.1], kind, isFollowed⟩
        if kind = .directory && goOn then
          visitBelow calls t v levels (path :: inside) path (names ++ [entry.1]) listing

/-- Visits a tree whose root is a single file. -/
def visitFile (calls : Calls m) (t : DirectoryTree) (v : Visitor m) (s : Status) :
    ExceptT Failure m Unit := do
  match t.root.fileName? with
  | none => return
  | some name =>
    if t.filter.level ⟨name⟩ false ≠ .allow then return
    match Utf8.decode? name with
    | none => return
    | some text =>
      let relative ← RelativePath.ofSegments true [text]
      let seen ← Metadata.ofStatus s
      v.file (details calls t.root relative seen)

/-- Visits a tree whose root is to be a directory. -/
def visitDirectory (calls : Calls m) (t : DirectoryTree) (v : Visitor m) :
    ExceptT Failure m Unit := do
  match ← calls.linkStat t.root with
  | .error e => t.raise (.refused (some t.root) e)
  | .ok s =>
    match ← (arrive calls [] t.root s.kind).run with
    | .error fault => t.raise fault
    | .ok (kind, _) =>
      if kind = .directory then
        let listing ← calls.list t.root
        visitBelow calls t v World.maxPath [t.root] t.root [] listing

/-- Reports what belongs to the tree. A root that is a file is a tree of that file alone, and
a root that does not exist an empty tree. -/
def visit (calls : Calls m) (t : DirectoryTree) : TreeSource m := fun v => do
  match ← calls.stat t.root with
  | .ok s => if s.kind = .file then visitFile calls t v s else visitDirectory calls t v
  | .error _ => visitDirectory calls t v

end DirectoryTree

end SnapStore
