import SnapStore.Session.Host
import SnapStore.Tree.Source

/-!
# Recording a visit

`SnapStore.Session.visit` visits a tree and writes down what is reported: a
`SnapStore.Sighting` for every entry, with its content and its digest if they were asked for.

While it looks on, the `SnapStore.Recorder` can do things to the world when it is told of an
entry, before it opens it, and it can refuse to be told more.
-/

namespace SnapStore

/-- What came of opening a content and reading it. -/
inductive Reading
  /-- It was read. -/
  | content (bytes : Bytes)
  /-- It could be opened and not be read. -/
  | unreadable
  /-- It could not be opened. -/
  | refused (e : Error)

/-- An entry that was reported. -/
structure Sighting where
  /-- Whether it was reported as a directory. -/
  isDirectory : Bool
  /-- Its path. -/
  path : Path
  /-- Where it lies. -/
  relative : RelativePath
  /-- When it was last changed. -/
  modified : String
  /-- Its content and digest, if they were asked for. -/
  inspected : Option (Reading × Except Error Digest)

/-- What to do in the course of a visit. -/
structure Recorder where
  /-- The number of entries after which the visit is stopped. -/
  stopAt : Option Nat
  /-- Whether directories are opened and hashed too. -/
  opensDirectories : Bool
  /-- What is done to the world when an entry that is shown so is reported. -/
  actions : List (String × List World.Change)

namespace Recorder

/-- A visit that writes down what it sees, the latest first. -/
abbrev Visit := StateT (List Sighting) Session.Run

/-- How the recorder stops a visit. -/
def stopped (r : RelativePath) : Error := .invalidArgument ("stopped at " ++ r.display)

/-- Opens and reads a content. -/
def readContent (d : Details Visit) : Visit Reading := do
  match ← d.openContent.run with
  | .error e => return .refused e
  | .ok reader =>
    match reader.drain with
    | ⟨content, none⟩ => return .content content
    | ⟨_, some _⟩ => return .unreadable

/-- Opens, reads and hashes a content. -/
def inspect (d : Details Visit) : Visit (Reading × Except Error Digest) := do
  let reading ← readContent d
  let digest ← (d.digest (Hasher.sha256 Session.systemCalls).lift).run
  return (reading, digest)

/-- Does what is to be done when an entry is reported. -/
def act (r : Recorder) (relative : RelativePath) : Visit Unit :=
  ((r.actions.lookup relative.display).getD []).forM fun c => do
    let _ ← StateT.lift (Session.change c)

/-- Is told of an entry. -/
def note (r : Recorder) (isDirectory : Bool) (d : Details Visit) : ExceptT Failure Visit Unit := do
  let seen ← get
  if r.stopAt = some seen.length then throw (.error (stopped d.relative))
  ExceptT.lift (r.act d.relative)
  let inspected ←
    if isDirectory && !r.opensDirectories then pure none else some <$> ExceptT.lift (inspect d)
  modify (⟨isDirectory, d.path, d.relative, d.modified, inspected⟩ :: ·)

/-- The visitor that records. -/
def visitor (r : Recorder) : Visitor Visit := ⟨r.note true, r.note false⟩

end Recorder

namespace Session

/-- Visits a tree: what was seen, and the failure that ended the visit. -/
def visit (s : Source) (r : Recorder) : Run (List Sighting × Option Failure) := do
  let (ending, seen) ← (s.visit systemCalls.lift r.visitor).run.run []
  match ending with
  | .ok () => return (seen.reverse, none)
  | .error e => return (seen.reverse, some e)

end Session

end SnapStore
