import SnapStore.Encoding.Snapshot
import SnapStore.Snapshot.Strategy
import SnapStore.Store.Cache
import SnapStore.Tree.Basic

/-!
# Rules as values

Filters, directory trees, strategies, lookup counts and errors as `SnapStore.Value`s, after
the pattern of `SnapStore.Encoding.Snapshot`.

A filter whose rules hold paths that are not text cannot be written
(`SnapStore.Filter.toValue?`). One that is read is taken as it is: its extensions are not
folded to lower case.
-/

namespace SnapStore

open Value (Decoded field require item readRow variant alone carried carriedFields)

/-! ### Filters -/

namespace Level

/-- Writes a level. -/
def toValue : Level → Value
  | deny => .string "Deny"
  | traverse => .string "Traverse"
  | allow => .string "Allow"

/-- Reads a level. -/
def ofValue (v : Value) : Decoded Level := do
  match ← variant v with
  | ("Deny", rest) => alone deny rest
  | ("Traverse", rest) => alone traverse rest
  | ("Allow", rest) => alone allow rest
  | _ => .error .shape

end Level

namespace Path

/-- Writes a path, if it is text. -/
def toValue? (p : Path) : Option Value := p.toString?.map .string

/-- Reads a path. -/
def ofValue (v : Value) : Decoded Path := ofString <$> v.toText

end Path

namespace NameSet

/-- Writes a set of names. -/
def toValue (s : NameSet) : Value := .array (s.members.map .string)

/-- Reads a set of names. -/
def ofValue (v : Value) : Decoded NameSet := ofList <$> v.toList Value.toText

end NameSet

namespace Filter

/-- Writes a filter, if all its paths are text. -/
def toValue? (f : Filter) : Option Value := do
  let included ← f.includeRoots.mapM Path.toValue?
  let excluded ← f.excludeRoots.mapM Path.toValue?
  return .object [("include_roots", .array included), ("exclude_roots", .array excluded),
    ("extensions", f.extensions.toValue), ("file_names", f.fileNames.toValue)]

/-- Reads a filter from the fields of an object. -/
def ofFields (fields : List (String × Value)) : Decoded Filter := do
  let excluded ← field fields "exclude_roots" (Value.toList Path.ofValue)
  let extensions ← field fields "extensions" NameSet.ofValue
  let fileNames ← field fields "file_names" NameSet.ofValue
  let included ← field fields "include_roots" (Value.toList Path.ofValue)
  return ⟨← require included, ← require excluded, ← require extensions, ← require fileNames⟩

/-- Reads a filter from the items of an array. -/
def row : Value.Row Filter := do
  let included ← item (Value.toList Path.ofValue)
  let excluded ← item (Value.toList Path.ofValue)
  let extensions ← item NameSet.ofValue
  let fileNames ← item NameSet.ofValue
  return ⟨included, excluded, extensions, fileNames⟩

/-- Reads a filter. -/
def ofValue : Value → Decoded Filter
  | .object fields => ofFields fields
  | .array items => readRow row items
  | _ => .error .shape

end Filter

namespace DirectoryTree

/-- Writes a directory tree, if all its paths are text. -/
def toValue? (t : DirectoryTree) : Option Value := do
  let root ← t.root.toValue?
  let filter ← t.filter.toValue?
  return .object [("dir", root), ("filter", filter)]

/-- Reads a directory tree from the fields of an object. -/
def ofFields (fields : List (String × Value)) : Decoded DirectoryTree := do
  let root ← field fields "dir" Path.ofValue
  let filter ← field fields "filter" Filter.ofValue
  return ⟨← require root, ← require filter⟩

/-- Reads a directory tree from the items of an array. -/
def row : Value.Row DirectoryTree := do
  let root ← item Path.ofValue
  let filter ← item Filter.ofValue
  return ⟨root, filter⟩

/-- Reads a directory tree. -/
def ofValue : Value → Decoded DirectoryTree
  | .object fields => ofFields fields
  | .array items => readRow row items
  | _ => .error .shape

end DirectoryTree

/-! ### Strategies -/

namespace Comparison

/-- Writes whether order counts. -/
def toValue : Comparison → Value
  | ordered => .string "Ordered"
  | unordered => .string "Unordered"

/-- Reads whether order counts. -/
def ofValue (v : Value) : Decoded Comparison := do
  match ← variant v with
  | ("Ordered", rest) => alone ordered rest
  | ("Unordered", rest) => alone unordered rest
  | _ => .error .shape

end Comparison

namespace Normalization

/-- Writes which part of a path counts. -/
def toValue : Normalization → Value
  | absolute => .string "Absolute"
  | relative => .string "Relative"
  | nameOnly => .string "NameOnly"
  | ignored => .string "Ignored"

/-- Reads which part of a path counts. -/
def ofValue (v : Value) : Decoded Normalization := do
  match ← variant v with
  | ("Absolute", rest) => alone absolute rest
  | ("Relative", rest) => alone relative rest
  | ("NameOnly", rest) => alone nameOnly rest
  | ("Ignored", rest) => alone ignored rest
  | _ => .error .shape

end Normalization

namespace Strategy

/-- Writes a strategy. -/
def toValue (s : Strategy) : Value :=
  .object [("compare", s.comparison.toValue), ("normalization", s.normalization.toValue)]

/-- Reads a strategy from the fields of an object. -/
def ofFields (fields : List (String × Value)) : Decoded Strategy := do
  let comparison ← field fields "compare" Comparison.ofValue
  let normalization ← field fields "normalization" Normalization.ofValue
  return ⟨← require comparison, ← require normalization⟩

/-- Reads a strategy from the items of an array. -/
def row : Value.Row Strategy := do
  let comparison ← item Comparison.ofValue
  let normalization ← item Normalization.ofValue
  return ⟨comparison, normalization⟩

/-- Reads a strategy. -/
def ofValue : Value → Decoded Strategy
  | .object fields => ofFields fields
  | .array items => readRow row items
  | _ => .error .shape

end Strategy

/-! ### Counts -/

namespace LookupCounts

/-- Counts stay below this number. -/
def bound : Nat := UInt64.size

/-- Writes counts. -/
def toValue (c : LookupCounts) : Value :=
  .object [("hits", .nat c.hits), ("misses", .nat c.misses)]

/-- Reads counts from the fields of an object. -/
def ofFields (fields : List (String × Value)) : Decoded LookupCounts := do
  let hits ← field fields "hits" (Value.toNat bound)
  let misses ← field fields "misses" (Value.toNat bound)
  return ⟨← require hits, ← require misses⟩

/-- Reads counts from the items of an array. -/
def row : Value.Row LookupCounts := do
  let hits ← item (Value.toNat bound)
  let misses ← item (Value.toNat bound)
  return ⟨hits, misses⟩

/-- Reads counts. -/
def ofValue : Value → Decoded LookupCounts
  | .object fields => ofFields fields
  | .array items => readRow row items
  | _ => .error .shape

end LookupCounts

/-! ### Errors -/

namespace Error

/-- Writes an error. -/
def toValue : Error → Value
  | read what how => .object [("Read", .object [("what", .string what), ("how", .string how)])]
  | notFound what => .object [("NotFound", .string what)]
  | invalidArgument what => .object [("InvalidArgument", .string what)]
  | unrecognizedFileType path kind =>
    .object [("UnrecognizedFileType", .object [("path", .string path), ("kind", .string kind)])]
  | walk what how => .object [("Walk", .object [("what", .string what), ("how", .string how)])]
  | create what how =>
    .object [("Create", .object [("what", .string what), ("how", .string how)])]
  | invalidPath what => .object [("InvalidPath", .object [("what", .string what)])]

/-- Reads an error of two texts. -/
def ofTexts (make : String → String → Error) (first second : String)
    (fields : List (String × Value)) : Decoded Error := do
  let a ← field fields first Value.toText
  let b ← field fields second Value.toText
  return make (← require a) (← require b)

/-- Reads an error. -/
def ofValue (v : Value) : Decoded Error := do
  match ← variant v with
  | ("Read", rest) => carriedFields (ofTexts read "what" "how") rest
  | ("NotFound", rest) => notFound <$> carried Value.toText rest
  | ("InvalidArgument", rest) => invalidArgument <$> carried Value.toText rest
  | ("UnrecognizedFileType", rest) =>
    carriedFields (ofTexts unrecognizedFileType "path" "kind") rest
  | ("Walk", rest) => carriedFields (ofTexts walk "what" "how") rest
  | ("Create", rest) => carriedFields (ofTexts create "what" "how") rest
  | ("InvalidPath", rest) =>
    carriedFields (fun fields => do
      return invalidPath (← require (← field fields "what" Value.toText))) rest
  | _ => .error .shape

end Error

end SnapStore
