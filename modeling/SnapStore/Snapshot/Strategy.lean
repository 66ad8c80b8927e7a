import SnapStore.Snapshot.Entry
import SnapStore.Text.NameSet

/-!
# Combining entries

`SnapStore.Strategy.combine` makes one digest of a list of entries. A strategy says what
is to count:

* the **normalization** chooses the part of an entry's path that counts
  (`SnapStore.Normalization.apply`), from all of it to none, and may leave an entry out;
* the **comparison** says whether the order of the entries counts; if not, they are sorted.

What remains of each entry is a pair of a path text and a content. The pairs are written
one after the other (`SnapStore.Strategy.stream`), each as the length of its path, the path
and the signature of the content, and the stream is hashed. An entry whose path has been
seen before does not count (`SnapStore.Entry.distinct`).
-/

namespace SnapStore

/-- Whether the order of entries counts. -/
inductive Comparison
  /-- It does. -/
  | ordered
  /-- It does not. -/
  | unordered
  deriving DecidableEq

/-- Which part of an entry's path counts. -/
inductive Normalization
  /-- All of it. -/
  | absolute
  /-- The path below the root; of a root, the name. -/
  | relative
  /-- The name. -/
  | nameOnly
  /-- None, and directories do not count either. -/
  | ignored
  deriving DecidableEq

/-- What counts when entries are combined. -/
structure Strategy where
  /-- Whether their order counts. -/
  comparison : Comparison
  /-- Which part of their paths counts. -/
  normalization : Normalization
  deriving DecidableEq

/-- Unless otherwise said, the order of entries does not count and all of their paths
does. -/
def Strategy.default : Strategy := ⟨.unordered, .absolute⟩

/-- The path text that an entry contributes, unless it is left out. -/
def Normalization.apply : Normalization → Entry → Option String
  | absolute, e => some e.path
  | relative, .missing _ n => some n
  | relative, .file _ r isRoot _ => some (if isRoot then r.name else r.display)
  | relative, .directory _ r isRoot => some (if isRoot then r.name else r.display)
  | nameOnly, e => some e.name
  | ignored, .directory _ _ _ => none
  | ignored, _ => some ""

/-- The entries whose paths have not come before, given the paths that have. -/
def Entry.distinctFrom (seen : List String) : List Entry → List Entry
  | [] => []
  | e :: es =>
    if e.path ∈ seen then distinctFrom seen es
    else e :: distinctFrom (e.path :: seen) es

/-- The entries without those whose path came before. -/
def Entry.distinct (es : List Entry) : List Entry := Entry.distinctFrom [] es

namespace Strategy

/-- A path text and a content: what remains of an entry. -/
abbrev Pair := String × Content

/-- By path, and among equal paths by content. -/
def Pair.le (a b : Pair) : Bool := if a.1 = b.1 then a.2.le b.2 else Utf8.le a.1 b.1

/-- What remains of the entries, in their order. -/
def normalized (s : Strategy) (es : List Entry) : List Pair :=
  (Entry.distinct es).filterMap fun e => (s.normalization.apply e).map (·, e.content)

/-- What remains of the entries, in the order in which it is hashed. -/
def pairs (s : Strategy) (es : List Entry) : List Pair :=
  match s.comparison with
  | .ordered => s.normalized es
  | .unordered => (s.normalized es).mergeSort Pair.le

/-- A pair in bytes. -/
def encodePair (p : Pair) : Bytes :=
  Bytes.littleEndian64 (Utf8.encode p.1).length ++ Utf8.encode p.1 ++ p.2.signature

/-- Pairs in bytes, one after the other. -/
def stream (ps : List Pair) : Bytes := ps.flatMap encodePair

/-- One digest for all entries. -/
def combine (s : Strategy) (es : List Entry) : Aggregate := ⟨.ofMessage (stream (s.pairs es))⟩

end Strategy

end SnapStore
