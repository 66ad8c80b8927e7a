import SnapStore.Digest.Basic
import SnapStore.Path.Relative

/-!
# Snapshots

What is remembered of a path is a `SnapStore.Entry`: that nothing was there, or a file
with its digest and modification time, or a directory. A `SnapStore.TreeSnapshot` is the
list of entries below a directory.

What counts when contents are compared is the `SnapStore.Content` of an entry
(`SnapStore.Entry.content`), and it takes part in hashes with its **signature**
(`SnapStore.Content.signature`): a word for missing paths and for directories, and the
digest itself for files. The signature carries neither tag nor length.
-/

namespace SnapStore

/-- What stands at a path. -/
inductive FileType
  /-- Nothing. -/
  | missing
  /-- A directory. -/
  | directory
  /-- A regular file. -/
  | regularFile
  /-- Anything else, such as a socket or a device. -/
  | other
  deriving DecidableEq

/-- What is seen of a path at one moment. -/
structure Metadata where
  /-- What stands there. -/
  fileType : FileType
  /-- The modification time, empty if nothing is there. -/
  modified : String
  /-- The size of a regular file, else zero. -/
  size : Nat
  deriving DecidableEq

/-- What is seen where there is nothing. -/
def Metadata.missing : Metadata := ⟨.missing, "", 0⟩

/-- The content of a file and when it was last changed. -/
structure FileSnapshot where
  /-- The digest of the content. -/
  digest : Digest
  /-- The modification time. -/
  modified : String
  deriving DecidableEq

/-- The part of an entry that matters when contents are compared. -/
inductive Content
  /-- Nothing was there. -/
  | missing
  /-- A directory was there. -/
  | directory
  /-- A file was there, with this digest. -/
  | file (digest : Digest)
  deriving DecidableEq

namespace Content

/-- What a content contributes to a hash. -/
def signature : Content → Bytes
  | missing => Utf8.encode "MISSING"
  | directory => Utf8.encode "DIR"
  | file d => d.bytes

/-- Missing paths come first, then directories, then files by their digests. -/
def le : Content → Content → Bool
  | missing, _ => true
  | directory, missing => false
  | directory, _ => true
  | file _, missing => false
  | file _, directory => false
  | file d, file e => d.le e

end Content

/-- What was found at a path. -/
inductive Entry
  /-- Nothing. -/
  | missing (path : String) (name : String)
  /-- A regular file. It is a root if it was asked for itself, and not found below a
  directory. -/
  | file (path : String) (relative : RelativePath) (isRoot : Bool) (snapshot : FileSnapshot)
  /-- A directory. -/
  | directory (path : String) (relative : RelativePath) (isRoot : Bool)
  deriving DecidableEq

namespace Entry

/-- The canonical path of the entry. -/
def path : Entry → String
  | missing p _ => p
  | file p _ _ _ => p
  | directory p _ _ => p

/-- The name of the entry. -/
def name : Entry → String
  | missing _ n => n
  | file _ r _ _ => r.name
  | directory _ r _ => r.name

/-- Where the entry lies below its root; nothing is said of a missing one. -/
def relative? : Entry → Option RelativePath
  | missing _ _ => none
  | file _ r _ _ => some r
  | directory _ r _ => some r

/-- What stood at the path. -/
def fileType : Entry → FileType
  | missing _ _ => .missing
  | file _ _ _ _ => .regularFile
  | directory _ _ _ => .directory

/-- What counts of the entry when contents are compared. -/
def content : Entry → Content
  | missing _ _ => .missing
  | file _ _ _ s => .file s.digest
  | directory _ _ _ => .directory

end Entry

/-- The entries below a root, the root itself left out. -/
structure TreeSnapshot where
  /-- The canonical path of the directory; a tree that is not a directory's has none. -/
  base : Option String
  /-- The entries, every directory before what lies below it. -/
  entries : List Entry
  deriving DecidableEq

/-- One digest for a path and everything below it. -/
structure Aggregate where
  /-- The combined digest. -/
  digest : Digest
  deriving DecidableEq

/-- What an aggregate contributes to a hash. -/
def Aggregate.signature (a : Aggregate) : Bytes := a.digest.bytes

end SnapStore
