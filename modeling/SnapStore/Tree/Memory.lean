import SnapStore.Tree.Basic

/-!
# Trees in memory

A `SnapStore.MemoryTree` holds files that are not on disk. Only files are put in
(`SnapStore.MemoryTree.insert`); the directories above them are implied, and are reported
before what lies below them, each once (`SnapStore.MemoryTree.visit`). Files are kept and
visited in the order of their segments.

The root gives the entries their paths and plays no other part. All entries were last
changed at the start of 1970, and a directory has an empty content.
-/

namespace SnapStore

/-- Files held in memory. -/
structure MemoryTree where
  /-- The path under which the entries are reported. -/
  root : Path
  /-- The files by their segments, in ascending order. -/
  files : List (List String × Bytes)

namespace MemoryTree

/-- The tree without files. -/
def empty (root : Path) : MemoryTree := ⟨root, []⟩

/-- The number of files. -/
def size (t : MemoryTree) : Nat := t.files.length

/-- A file put in its place among others in ascending order, instead of one with the same
segments. -/
def place (file : List String × Bytes) :
    List (List String × Bytes) → List (List String × Bytes)
  | [] => [file]
  | f :: fs =>
    if file.1 = f.1 then file :: fs
    else if RelativePath.segmentsLe file.1 f.1 then file :: f :: fs
    else f :: place file fs

/-- The parts of a text between its slashes. -/
def cut (s : String) : List String := (Pieces.split '/' s.toList).map String.ofList

/-- Adds a file, or replaces it; the path is cut at its slashes. -/
def insert (t : MemoryTree) (path : String) (content : Bytes) : Except Error MemoryTree := do
  let relative ← RelativePath.ofSegments true (cut path)
  return { t with files := place (relative.segments, content) t.files }

/-- The path of an entry. -/
def pathOf (t : MemoryTree) (segments : List String) : Path :=
  segments.foldl (fun p s => p.child (Utf8.encode s)) t.root

/-- The tree with these files, added one after the other; the first that is refused ends it. -/
def ofFiles (root : Path) (files : List (String × Bytes)) : Except Error MemoryTree :=
  files.foldlM (fun t f => t.insert f.1 f.2) (empty root)

variable {m : Type → Type} [Monad m]

/-- The details of an entry. -/
def details (t : MemoryTree) (relative : RelativePath) (content : Bytes) : Details m :=
  let path := t.pathOf relative.segments
  { path := path
    relative := relative
    modified := Timestamp.epoch.text
    openContent := return .ofBytes content
    digest := digestByReading path (return .ofBytes content) }

/-- The directories above a file, the outermost first. -/
def above (segments : List String) : List (List String) :=
  (List.range (segments.length - 1)).map fun i => segments.take (i + 1)

/-- Reports files with the directories above them that have not been reported yet. -/
def visitFiles (t : MemoryTree) (v : Visitor m) (seen : List (List String)) :
    List (List String × Bytes) → ExceptT Failure m Unit
  | [] => return
  | (segments, content) :: files => do
    let fresh := (above segments).filter fun d => d ∉ seen
    fresh.forM fun d => do
      let relative ← RelativePath.ofSegments false d
      v.directory (t.details relative [])
    let relative ← RelativePath.ofSegments true segments
    v.file (t.details relative content)
    visitFiles t v (fresh ++ seen) files

/-- Reports all files and the directories above them. -/
def visit (t : MemoryTree) : TreeSource m := fun v => t.visitFiles v [] t.files

end MemoryTree

end SnapStore
