import SnapStore.Filter
import SnapStore.Snapshot.Entry
import SnapStore.World.Calls

/-!
# Trees and visitors

A **tree source** reports what a tree holds to a `SnapStore.Visitor`: every directory before
what lies below it, siblings in the order of their names. Of each entry the visitor learns
the `SnapStore.Details`; contents are opened and hashed only when it asks for them, so what
it finds then may differ from what was reported.

A `SnapStore.Hasher` computes digests. It is asked in two ways, for the content of a reader
and for a file given by its path, so that a hasher may know files by other means than by
reading them. `SnapStore.Hasher.sha256` reads.
-/

namespace SnapStore

/-- What is known of a node as metadata, its time written in the given way. -/
def Status.metadata (s : Status) (modified : String) : Metadata :=
  match s.kind with
  | .directory => ⟨.directory, modified, 0⟩
  | .file => ⟨.regularFile, modified, s.size⟩
  | _ => ⟨.other, modified, 0⟩

@[simp] theorem Status.modified_metadata (s : Status) (modified : String) :
    (s.metadata modified).modified = modified := by
  unfold metadata
  split <;> rfl

/-- What is known of a node as metadata. There is no writing down a time without a date. -/
def Metadata.ofStatus (s : Status) : Except Failure Metadata :=
  match s.modified.text? with
  | some modified => .ok (s.metadata modified)
  | none => .error .panic

namespace Metadata

variable {s : Status}

theorem ofStatus_of_representable (h : s.modified.Representable) :
    ofStatus s = .ok (s.metadata s.modified.text) := by
  rw [ofStatus, Timestamp.text?, if_pos h]

theorem ofStatus_of_not_representable (h : ¬ s.modified.Representable) :
    ofStatus s = .error .panic := by
  rw [ofStatus, Timestamp.text?, if_neg h]

/-- A node is known as metadata if its time has a date. -/
theorem ofStatus_eq_ok_iff {seen : Metadata} :
    ofStatus s = .ok seen ↔ s.modified.Representable ∧ s.metadata s.modified.text = seen := by
  by_cases h : s.modified.Representable
  · simp [ofStatus_of_representable h, h]
  · simp [ofStatus_of_not_representable h, h]

end Metadata

/-- Computes the digests of contents. -/
structure Hasher (m : Type → Type) where
  /-- The digest of what a reader delivers; failures are reported of the given name. -/
  content : String → Reader → m (Except Error Digest)
  /-- The digest of a file, of which this has been seen just before. -/
  file : Path → Metadata → m (Except Error Digest)

/-- Opens a file for reading. -/
def openFile {m : Type → Type} [Monad m] (calls : Calls m) (p : Path) : ExceptT Error m Reader := do
  match ← calls.openReader p with
  | .ok r => return r
  | .error e => throw (.ofOs p.display e)

/-- The hasher that reads everything. -/
def Hasher.sha256 {m : Type → Type} [Monad m] (calls : Calls m) : Hasher m where
  content what r := return r.digest what
  file p _ := ExceptT.run do
    let r ← openFile calls p
    ExceptT.mk (return r.digest p.display)

/-- What a visitor learns of an entry. -/
structure Details (m : Type → Type) where
  /-- The path of the entry, as the source spells it. -/
  path : Path
  /-- Where the entry lies below the root of the tree. -/
  relative : RelativePath
  /-- When the entry was last changed. -/
  modified : String
  /-- Opens the content. -/
  openContent : ExceptT Error m Reader
  /-- Computes the digest of the content. -/
  digest : Hasher m → ExceptT Error m Digest

/-- Opens a content and hashes what it delivers. -/
def digestByReading {m : Type → Type} [Monad m] (path : Path)
    (openContent : ExceptT Error m Reader) (h : Hasher m) : ExceptT Error m Digest := do
  let r ← openContent
  ExceptT.mk (h.content path.display r)

/-- Is told what a tree holds. A failure ends the visit. -/
structure Visitor (m : Type → Type) where
  /-- There is a directory. -/
  directory : Details m → ExceptT Failure m Unit
  /-- There is a file. -/
  file : Details m → ExceptT Failure m Unit

/-- Tells a visitor what some tree holds. -/
abbrev TreeSource (m : Type → Type) := Visitor m → ExceptT Failure m Unit

/-- A directory, narrowed by a filter. -/
structure DirectoryTree where
  /-- The root of the tree. -/
  root : Path
  /-- What belongs to the tree. -/
  filter : Filter
  deriving DecidableEq

namespace DirectoryTree

/-- Everything below a directory. -/
def all (root : Path) : DirectoryTree := ⟨root, .empty⟩

/-- Whether part of the directory may be left out. -/
def isFiltered (t : DirectoryTree) : Bool := !t.filter.isEmpty

/-- Whether two trees have the same root and the same rules, paths compared by their
components. -/
def same (t u : DirectoryTree) : Bool := t.root.same u.root && t.filter.same u.filter

end DirectoryTree

end SnapStore
