import SnapStore.Encoding.Value
import SnapStore.Snapshot.Entry

/-!
# Snapshots as values

For every type of `SnapStore.Snapshot.Entry`, and for digests and relative paths, a function
`toValue` that writes it as a `SnapStore.Value` and a function `ofValue` that reads it. A
digest is an array of its thirty-two bytes, a record an object of its fields, and an entry
the name of its kind with its fields.

Reading a relative path refuses segments that are `.` or `..`, and no others
(`SnapStore.RelativePath.segmentsOfValue`).
-/

namespace SnapStore

open Value (Decoded field require item readRow variant alone carried carriedFields)

/-- A number as a value. -/
def Value.nat (n : Nat) : Value := .number n

/-! ### Digests and paths -/

namespace Digest

/-- Writes a digest. -/
def toValue (d : Digest) : Value := .array (d.bytes.map fun b => .nat b.toNat)

/-- Reads a digest. -/
def ofValue (v : Value) : Decoded Digest := do
  let numbers ← v.toList (Value.toNat 256)
  require (ofBytes? (numbers.map UInt8.ofNat))

end Digest

namespace RelativePath

/-- Writes a relative path. -/
def toValue (p : RelativePath) : Value :=
  .object [("is_file", .bool p.isFile), ("segments", .array (p.segments.map .string))]

/-- Reads segments. -/
def segmentsOfValue (v : Value) : Decoded (List String) := do
  let segments ← v.toList Value.toText
  if "." ∈ segments ∨ ".." ∈ segments then .error .dottedSegment else .ok segments

/-- Reads a relative path from the fields of an object. -/
def ofFields (fields : List (String × Value)) : Decoded RelativePath := do
  let isFile ← field fields "is_file" Value.toBool
  let segments ← field fields "segments" segmentsOfValue
  return ⟨← require isFile, ← require segments⟩

/-- Reads a relative path from the items of an array. -/
def row : Value.Row RelativePath := do
  let isFile ← item Value.toBool
  let segments ← item segmentsOfValue
  return ⟨isFile, segments⟩

/-- Reads a relative path. -/
def ofValue : Value → Decoded RelativePath
  | .object fields => ofFields fields
  | .array items => readRow row items
  | _ => .error .shape

end RelativePath

/-! ### Metadata -/

namespace FileType

/-- Writes what stands at a path. -/
def toValue : FileType → Value
  | missing => .string "Missing"
  | directory => .string "Directory"
  | regularFile => .string "RegularFile"
  | other => .string "Other"

/-- Reads what stands at a path. -/
def ofValue (v : Value) : Decoded FileType := do
  match ← variant v with
  | ("Missing", rest) => alone missing rest
  | ("Directory", rest) => alone directory rest
  | ("RegularFile", rest) => alone regularFile rest
  | ("Other", rest) => alone other rest
  | _ => .error .shape

end FileType

namespace Metadata

/-- Sizes stay below this number. -/
def sizeBound : Nat := UInt64.size

/-- Writes metadata. -/
def toValue (s : Metadata) : Value :=
  .object [("file_type", s.fileType.toValue), ("mtime", .string s.modified), ("size", .nat s.size)]

/-- Reads metadata from the fields of an object. -/
def ofFields (fields : List (String × Value)) : Decoded Metadata := do
  let fileType ← field fields "file_type" FileType.ofValue
  let modified ← field fields "mtime" Value.toText
  let size ← field fields "size" (Value.toNat sizeBound)
  return ⟨← require fileType, ← require modified, ← require size⟩

/-- Reads metadata from the items of an array. -/
def row : Value.Row Metadata := do
  let fileType ← item FileType.ofValue
  let modified ← item Value.toText
  let size ← item (Value.toNat sizeBound)
  return ⟨fileType, modified, size⟩

/-- Reads metadata. -/
def ofValue : Value → Decoded Metadata
  | .object fields => ofFields fields
  | .array items => readRow row items
  | _ => .error .shape

end Metadata

/-! ### Files and contents -/

namespace FileSnapshot

/-- Writes what is remembered of a file. -/
def toValue (s : FileSnapshot) : Value :=
  .object [("hash", s.digest.toValue), ("mtime", .string s.modified)]

/-- Reads what is remembered of a file from the fields of an object. -/
def ofFields (fields : List (String × Value)) : Decoded FileSnapshot := do
  let digest ← field fields "hash" Digest.ofValue
  let modified ← field fields "mtime" Value.toText
  return ⟨← require digest, ← require modified⟩

/-- Reads what is remembered of a file from the items of an array. -/
def row : Value.Row FileSnapshot := do
  let digest ← item Digest.ofValue
  let modified ← item Value.toText
  return ⟨digest, modified⟩

/-- Reads what is remembered of a file. -/
def ofValue : Value → Decoded FileSnapshot
  | .object fields => ofFields fields
  | .array items => readRow row items
  | _ => .error .shape

end FileSnapshot

namespace Content

/-- Writes a content. -/
def toValue : Content → Value
  | missing => .string "Missing"
  | directory => .string "Directory"
  | file d => .object [("File", d.toValue)]

/-- Reads a content. -/
def ofValue (v : Value) : Decoded Content := do
  match ← variant v with
  | ("Missing", rest) => alone missing rest
  | ("Directory", rest) => alone directory rest
  | ("File", rest) => file <$> carried Digest.ofValue rest
  | _ => .error .shape

end Content

/-! ### Entries and trees -/

namespace Entry

/-- Writes an entry. -/
def toValue : Entry → Value
  | missing path name =>
    .object [("Missing", .object [("path", .string path), ("name", .string name)])]
  | file path relative isRoot snapshot =>
    .object [("File", .object [("path", .string path), ("relative_path", relative.toValue),
      ("root", .bool isRoot), ("content", snapshot.toValue)])]
  | directory path relative isRoot =>
    .object [("Directory", .object [("path", .string path), ("relative_path", relative.toValue),
      ("root", .bool isRoot)])]

/-- Reads the fields of a missing entry. -/
def missingOfFields (fields : List (String × Value)) : Decoded Entry := do
  let name ← field fields "name" Value.toText
  let path ← field fields "path" Value.toText
  return missing (← require path) (← require name)

/-- Reads the fields of a file. -/
def fileOfFields (fields : List (String × Value)) : Decoded Entry := do
  let snapshot ← field fields "content" FileSnapshot.ofValue
  let path ← field fields "path" Value.toText
  let relative ← field fields "relative_path" RelativePath.ofValue
  let isRoot ← field fields "root" Value.toBool
  return file (← require path) (← require relative) (← require isRoot) (← require snapshot)

/-- Reads the fields of a directory. -/
def directoryOfFields (fields : List (String × Value)) : Decoded Entry := do
  let path ← field fields "path" Value.toText
  let relative ← field fields "relative_path" RelativePath.ofValue
  let isRoot ← field fields "root" Value.toBool
  return directory (← require path) (← require relative) (← require isRoot)

/-- Reads an entry. -/
def ofValue (v : Value) : Decoded Entry := do
  match ← variant v with
  | ("Missing", rest) => carriedFields missingOfFields rest
  | ("File", rest) => carriedFields fileOfFields rest
  | ("Directory", rest) => carriedFields directoryOfFields rest
  | _ => .error .shape

end Entry

namespace TreeSnapshot

/-- Writes a text that may be absent. -/
def baseValue : Option String → Value
  | none => .null
  | some base => .string base

/-- Writes a tree. -/
def toValue (t : TreeSnapshot) : Value :=
  .object [("base_path", baseValue t.base), ("entries", .array (t.entries.map Entry.toValue))]

/-- Reads a tree from the fields of an object; the base may be missing. -/
def ofFields (fields : List (String × Value)) : Decoded TreeSnapshot := do
  let base ← field fields "base_path" (Value.toOption Value.toText)
  let entries ← field fields "entries" (Value.toList Entry.ofValue)
  return ⟨base.join, ← require entries⟩

/-- Reads a tree from the items of an array. -/
def row : Value.Row TreeSnapshot := do
  let base ← item (Value.toOption Value.toText)
  let entries ← item (Value.toList Entry.ofValue)
  return ⟨base, entries⟩

/-- Reads a tree. -/
def ofValue : Value → Decoded TreeSnapshot
  | .object fields => ofFields fields
  | .array items => readRow row items
  | _ => .error .shape

end TreeSnapshot

namespace Aggregate

/-- Writes an aggregate. -/
def toValue (a : Aggregate) : Value := .object [("hash", a.digest.toValue)]

/-- Reads an aggregate. -/
def ofValue : Value → Decoded Aggregate
  | .object fields => do return ⟨← require (← field fields "hash" Digest.ofValue)⟩
  | .array items => readRow (do return ⟨← item Digest.ofValue⟩) items
  | _ => .error .shape

end Aggregate

end SnapStore
