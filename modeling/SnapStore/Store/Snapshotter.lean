import SnapStore.Store.Host
import SnapStore.Tree.Walk

/-!
# Taking snapshots

The requests that a snapshot store answers, on any `SnapStore.Host`:

* `SnapStore.Host.snapshotSelf`, the entry of a path itself;
* `SnapStore.Host.snapshotTree`, the entries below a directory;
* `SnapStore.Host.snapshotSource`, the entries that some tree source reports;
* `SnapStore.Host.expand`, the entries of a collection of paths and trees;
* `SnapStore.Host.snapshotCollection`, one aggregate for a collection;
* `SnapStore.Host.snapshotAll`, the aggregate of a path and all that is below it.

Entries, unfiltered trees and the aggregates of paths are kept, under the canonical form of
the path that was asked for. A tree is walked under the path as it was spelled.

A file that has vanished by the time it is hashed is a missing entry and not an error.
-/

namespace SnapStore

/-- Collects entries. -/
abbrev Collecting (m : Type → Type) := StateT (List Entry) m

variable {m : Type → Type} [Monad m]

/-- System calls made while something else is kept track of. -/
def Calls.lift {σ : Type} (c : Calls m) : Calls (StateT σ m) where
  workingDirectory := StateT.lift c.workingDirectory
  stat p := StateT.lift (c.stat p)
  linkStat p := StateT.lift (c.linkStat p)
  list p := StateT.lift (c.list p)
  identify p := StateT.lift (c.identify p)
  openReader p := StateT.lift (c.openReader p)

/-- Digests computed while something else is kept track of. -/
def Hasher.lift {σ : Type} (h : Hasher m) : Hasher (StateT σ m) where
  content what r := StateT.lift (h.content what r)
  file p seen := StateT.lift (h.file p seen)

/-- A root of a collection. -/
inductive Element (m : Type → Type)
  /-- A path, with everything below it if it is a directory. -/
  | path (p : Path)
  /-- What is below a directory. -/
  | directory (t : DirectoryTree)
  /-- What some tree source reports. -/
  | source (s : TreeSource (Collecting m))

namespace Host

/-! ### Single paths -/

/-- How an entry of an unknown type is named in an error. -/
def otherKind : String := "Other"

/-- Looks at the path of a key and hashes what is there. -/
def observe (h : Host m) (key : String) : ExceptT Failure m Entry := do
  let path := Path.ofString key
  let name := (path.fileName?.map Utf8.repair).getD ""
  let seen ← ExceptT.mk (h.stat path)
  match seen.fileType with
  | .missing => return .missing key name
  | .directory => return .directory key (← RelativePath.ofPath false (.ofString name)) true
  | .regularFile =>
    let hashed : Except Error Digest ← ExceptT.lift (h.hasher.file path seen)
    match hashed with
    | .ok digest =>
      let relative ← RelativePath.ofPath true (.ofString name)
      return .file key relative true ⟨digest, seen.modified⟩
    | .error (.notFound _) => return .missing key name
    | .error e => throw (.error e)
  | .other => throw (.error (.unrecognizedFileType key otherKind))

/-- The entry of a path. -/
def snapshotSelf (h : Host m) (p : Path) : ExceptT Failure m Entry := do
  let key ← h.key p
  h.cached h.entries .entry key (h.observe key)

/-! ### Trees -/

/-- Adds an entry to those collected, the latest first. -/
def collect (e : Entry) : ExceptT Failure (Collecting m) Unit := modify (e :: ·)

/-- Makes an entry of everything that is reported. -/
def collector (h : Host m) : Visitor (Collecting m) where
  directory d := do
    let path ← ExceptT.mk (StateT.lift (h.key d.path).run)
    collect (.directory path d.relative false)
  file d := do
    let path ← ExceptT.mk (StateT.lift (h.key d.path).run)
    let hashed : Except Error Digest ← ExceptT.lift (d.digest h.hasher.lift).run
    match hashed with
    | .ok digest => collect (.file path d.relative false ⟨digest, d.modified⟩)
    | .error (.notFound _) => collect (.missing path d.relative.name)
    | .error e => throw (.error e)

/-- The entries that a tree source reports. -/
def walk (h : Host m) (base : Option String) (s : TreeSource (Collecting m)) :
    ExceptT Failure m TreeSnapshot := do
  let (ending, entries) ← ExceptT.lift ((s h.collector).run.run [])
  match ending with
  | .ok () => return ⟨base, entries.reverse⟩
  | .error e => throw e

/-- The entries below a directory that pass its filter. A filtered tree is not kept, since
its key could not tell one filter from another. -/
def snapshotTree (h : Host m) (t : DirectoryTree) : ExceptT Failure m TreeSnapshot := do
  let key ← h.key t.root
  let compute := h.walk (some key) (t.visit h.calls.lift)
  if t.isFiltered then compute else h.cached h.trees .tree key compute

/-- The entries that a tree source reports. They have no key and are not kept. -/
def snapshotSource (h : Host m) (s : TreeSource (Collecting m)) : ExceptT Failure m TreeSnapshot :=
  h.walk none s

/-! ### Collections -/

/-- The entries of one root of a collection. -/
def expandElement (h : Host m) : Element m → ExceptT Failure m (List Entry)
  | .path p => do
    let e ← h.snapshotSelf p
    match e with
    | .directory _ _ _ => return e :: (← h.snapshotTree (.all p)).entries
    | _ => return [e]
  | .directory t => return (← h.snapshotTree t).entries
  | .source s => return (← h.snapshotSource s).entries

/-- The entries of a collection, root by root. -/
def expand (h : Host m) : List (Element m) → ExceptT Failure m (List Entry)
  | [] => return []
  | e :: es => do
    let first ← h.keepingValue (·.map Entry.path) (h.expandElement e)
    let rest ← h.expand es
    return first ++ rest

/-- One aggregate for a collection. -/
def snapshotCollection (h : Host m) (s : Strategy) (es : List (Element m)) :
    ExceptT Failure m Aggregate :=
  return s.combine (← h.expand es)

/-- The aggregate of a path and all that is below it. -/
def snapshotAll (h : Host m) (s : Strategy) (p : Path) : ExceptT Failure m Aggregate := do
  let key ← h.key p
  h.cached h.aggregates .aggregate key (h.snapshotCollection s [.path (.ofString key)])

end Host

end SnapStore
