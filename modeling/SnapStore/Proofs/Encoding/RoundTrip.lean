import SnapStore.Proofs.Encoding.Rules
import SnapStore.Proofs.Encoding.Snapshot
import SnapStore.Proofs.Session.Undotted

/-!
# What is written can be read

A `SnapStore.ModelType` is one of the types that are exchanged as values, and
`SnapStore.ModelType.write?` and `SnapStore.ModelType.read` are its two functions.

Not every member of these types can come about. A relative path is made from checked segments or
from a path, a set of names by insertions, and sizes and counts are numbers of 64 bits; apart from
that members are put together at will. Others come out of snapshots, and others are read.
`SnapStore.Produced` says so case by case. What comes about is **sound**
(`SnapStore.Produced.isSound`), and what is sound and text is read back from its value. That is
`SnapStore.ModelType.read_write`, and as whatever is read is sound and text it says besides that
reading, writing and reading once more is no different from reading once.
-/

namespace SnapStore

open Value (Decoded)

/-- The types that are exchanged as values. -/
inductive ModelType
  /-- Digests. -/
  | digest
  /-- Relative paths. -/
  | relativePath
  /-- What is remembered of files. -/
  | fileSnapshot
  /-- Entries. -/
  | entry
  /-- Contents. -/
  | content
  /-- Trees. -/
  | tree
  /-- Aggregates. -/
  | aggregate
  /-- What stands at a path. -/
  | fileType
  /-- Metadata. -/
  | metadata
  /-- What a walk does with a path. -/
  | level
  /-- Filters. -/
  | filter
  /-- Directory trees. -/
  | directoryTree
  /-- Whether order counts. -/
  | comparison
  /-- Which part of a path counts. -/
  | normalization
  /-- Strategies. -/
  | strategy
  /-- Counts of lookups. -/
  | lookupCounts
  /-- Errors. -/
  | error

namespace ModelType

/-- The members of a type. -/
def Carrier : ModelType → Type
  | digest => Digest
  | relativePath => RelativePath
  | fileSnapshot => FileSnapshot
  | entry => Entry
  | content => Content
  | tree => TreeSnapshot
  | aggregate => Aggregate
  | fileType => FileType
  | metadata => Metadata
  | level => Level
  | filter => Filter
  | directoryTree => DirectoryTree
  | comparison => Comparison
  | normalization => Normalization
  | strategy => Strategy
  | lookupCounts => LookupCounts
  | error => Error

/-- Writes a member, if it can be written. -/
def write? : (T : ModelType) → T.Carrier → Option Value
  | digest, d => some (Digest.toValue d)
  | relativePath, p => some (RelativePath.toValue p)
  | fileSnapshot, s => some (FileSnapshot.toValue s)
  | entry, e => some (Entry.toValue e)
  | content, c => some (Content.toValue c)
  | tree, t => some (TreeSnapshot.toValue t)
  | aggregate, a => some (Aggregate.toValue a)
  | fileType, t => some (FileType.toValue t)
  | metadata, m => some (Metadata.toValue m)
  | level, l => some (Level.toValue l)
  | filter, f => Filter.toValue? f
  | directoryTree, t => DirectoryTree.toValue? t
  | comparison, c => some (Comparison.toValue c)
  | normalization, n => some (Normalization.toValue n)
  | strategy, s => some (Strategy.toValue s)
  | lookupCounts, c => some (LookupCounts.toValue c)
  | error, e => some (Error.toValue e)

/-- Reads a member. -/
def read : (T : ModelType) → Value → Decoded T.Carrier
  | digest => Digest.ofValue
  | relativePath => RelativePath.ofValue
  | fileSnapshot => FileSnapshot.ofValue
  | entry => Entry.ofValue
  | content => Content.ofValue
  | tree => TreeSnapshot.ofValue
  | aggregate => Aggregate.ofValue
  | fileType => FileType.ofValue
  | metadata => Metadata.ofValue
  | level => Level.ofValue
  | filter => Filter.ofValue
  | directoryTree => DirectoryTree.ofValue
  | comparison => Comparison.ofValue
  | normalization => Normalization.ofValue
  | strategy => Strategy.ofValue
  | lookupCounts => LookupCounts.ofValue
  | error => Error.ofValue

/-- The paths in a member are text. All others than those of rules are texts by their type. -/
def IsText : (T : ModelType) → T.Carrier → Prop
  | filter, f => Filter.IsText f
  | directoryTree, t =>
    (DirectoryTree.root t).toString?.isSome = true ∧ (DirectoryTree.filter t).IsText
  | _, _ => True

/-- What is true of the members that come about. -/
def IsSound : (T : ModelType) → T.Carrier → Prop
  | relativePath, p => RelativePath.IsUndotted p
  | entry, e => Entry.IsUndotted e
  | tree, t => TreeSnapshot.IsUndotted t
  | metadata, m => Metadata.IsBounded m
  | filter, f => Filter.IsSorted f
  | directoryTree, t => (DirectoryTree.filter t).IsSorted
  | lookupCounts, c => LookupCounts.IsBounded c
  | _, _ => True

end ModelType

/-- **The members of the model types that come about.** -/
inductive Produced : (T : ModelType) → T.Carrier → Prop
  -- What can be put together at will.
  /-- A digest is any thirty-two bytes. -/
  | digest (d : Digest) : Produced .digest d
  /-- A digest and a modification time. -/
  | fileSnapshot (s : FileSnapshot) : Produced .fileSnapshot s
  /-- A content. -/
  | content (c : Content) : Produced .content c
  /-- A digest. -/
  | aggregate (a : Aggregate) : Produced .aggregate a
  /-- One of four. -/
  | fileType (t : FileType) : Produced .fileType t
  /-- One of three. -/
  | level (l : Level) : Produced .level l
  /-- One of two. -/
  | comparison (c : Comparison) : Produced .comparison c
  /-- One of four. -/
  | normalization (n : Normalization) : Produced .normalization n
  /-- A strategy. -/
  | strategy (s : Strategy) : Produced .strategy s
  /-- An error. -/
  | error (e : Error) : Produced .error e
  /-- A size is a number of 64 bits. -/
  | metadata (m : Metadata) (h : m.size < UInt64.size) : Produced .metadata m
  /-- So are counts. -/
  | lookupCounts (c : LookupCounts) (hhits : c.hits < UInt64.size)
    (hmisses : c.misses < UInt64.size) : Produced .lookupCounts c
  -- Relative paths, and what is put together from them.
  /-- A relative path through checked segments. -/
  | ofSegments {isFile : Bool} {segments : List String} {p : RelativePath}
    (h : RelativePath.ofSegments isFile segments = .ok p) : Produced .relativePath p
  /-- A relative path through the names of a path. -/
  | ofPath {isFile : Bool} {path : Path} {p : RelativePath}
    (h : RelativePath.ofPath isFile path = .ok p) : Produced .relativePath p
  /-- The entry of a path where there is nothing. -/
  | missing (path name : String) : Produced .entry (Entry.missing path name)
  /-- The entry of a file. -/
  | file (path : String) {relative : RelativePath} (h : Produced .relativePath relative)
    (isRoot : Bool) (snapshot : FileSnapshot) :
    Produced .entry (Entry.file path relative isRoot snapshot)
  /-- The entry of a directory. -/
  | directory (path : String) {relative : RelativePath} (h : Produced .relativePath relative)
    (isRoot : Bool) : Produced .entry (Entry.directory path relative isRoot)
  /-- A tree of entries. -/
  | tree (base : Option String) {entries : List Entry} (h : ∀ e ∈ entries, Produced .entry e) :
    Produced .tree (TreeSnapshot.mk base entries)
  -- Filters, rule by rule, and what is put together from them.
  /-- The filter without rules. -/
  | emptyFilter : Produced .filter Filter.empty
  /-- A filter with one more root that is included. -/
  | allowPath {f : Filter} (h : Produced .filter f) (p : Path) : Produced .filter (f.allowPath p)
  /-- A filter with one more root that is excluded. -/
  | denyPath {f : Filter} (h : Produced .filter f) (p : Path) : Produced .filter (f.denyPath p)
  /-- A filter with one more extension. -/
  | allowExtension {f : Filter} (h : Produced .filter f) (extension : String) :
    Produced .filter (f.allowExtension extension)
  /-- A filter with one more file name. -/
  | allowFileName {f : Filter} (h : Produced .filter f) (name : String) :
    Produced .filter (f.allowFileName name)
  /-- A filter with all its rules. -/
  | ofRules (allowed denied : List Path) (names extensions : List String) :
    Produced .filter (Filter.ofRules allowed denied names extensions)
  /-- A directory and a filter. -/
  | directoryTree (root : Path) {f : Filter} (h : Produced .filter f) :
    Produced .directoryTree (DirectoryTree.mk root f)
  -- What a session answers, if what its cache holds has come about.
  /-- The entry of a path. -/
  | snapshotSelf {s : Session} (hs : ∀ i ∈ s.cache.entries.items, Produced .entry i.2)
    (ht : ∀ i ∈ s.cache.trees.items, Produced .tree i.2) {p : Path} {e : Entry}
    (h : (Session.snapshotSelf p s).1 = .ok e) : Produced .entry e
  /-- The tree of a directory. -/
  | snapshotTree {s : Session} (hs : ∀ i ∈ s.cache.entries.items, Produced .entry i.2)
    (ht : ∀ i ∈ s.cache.trees.items, Produced .tree i.2) {t : DirectoryTree} {tree : TreeSnapshot}
    (h : (Session.snapshotTree t s).1 = .ok tree) : Produced .tree tree
  /-- The tree that a source tells of; the relative paths in a script have come about, too. -/
  | snapshotSource {s : Session} (hs : ∀ i ∈ s.cache.entries.items, Produced .entry i.2)
    (ht : ∀ i ∈ s.cache.trees.items, Produced .tree i.2) {source : Source}
    (hsource : ∀ t, source = .scripted t → ∀ item ∈ t.items, Produced .relativePath item.relative)
    {tree : TreeSnapshot} (h : (Session.snapshotSource source s).1 = .ok tree) : Produced .tree tree
  /-- An entry of a collection. -/
  | expand {s : Session} (hs : ∀ i ∈ s.cache.entries.items, Produced .entry i.2)
    (ht : ∀ i ∈ s.cache.trees.items, Produced .tree i.2) {c : List Member}
    (hc : ∀ t, .source (.scripted t) ∈ c → ∀ item ∈ t.items, Produced .relativePath item.relative)
    {es : List Entry} (h : (Session.expand c s).1 = .ok es) {e : Entry} (he : e ∈ es) :
    Produced .entry e
  /-- What is read from a value. -/
  | decoded {T : ModelType} {v : Value} {a : T.Carrier} (h : T.read v = .ok a) : Produced T a

namespace ModelType

variable {T : ModelType} {a : T.Carrier}

/-- **What is sound and text comes back.** -/
theorem exists_value (hsound : T.IsSound a) (htext : T.IsText a) :
    ∃ v, T.write? a = some v ∧ T.read v = .ok a := by
  cases T with
  | digest => exact ⟨_, rfl, Digest.ofValue_toValue a⟩
  | relativePath => exact ⟨_, rfl, RelativePath.ofValue_toValue hsound⟩
  | fileSnapshot => exact ⟨_, rfl, FileSnapshot.ofValue_toValue a⟩
  | entry => exact ⟨_, rfl, Entry.ofValue_toValue hsound⟩
  | content => exact ⟨_, rfl, Content.ofValue_toValue a⟩
  | tree => exact ⟨_, rfl, TreeSnapshot.ofValue_toValue hsound⟩
  | aggregate => exact ⟨_, rfl, Aggregate.ofValue_toValue a⟩
  | fileType => exact ⟨_, rfl, FileType.ofValue_toValue a⟩
  | metadata => exact ⟨_, rfl, Metadata.ofValue_toValue hsound⟩
  | level => exact ⟨_, rfl, Level.ofValue_toValue a⟩
  | filter => exact Filter.exists_value hsound htext
  | directoryTree => exact DirectoryTree.exists_value hsound htext.1 htext.2
  | comparison => exact ⟨_, rfl, Comparison.ofValue_toValue a⟩
  | normalization => exact ⟨_, rfl, Normalization.ofValue_toValue a⟩
  | strategy => exact ⟨_, rfl, Strategy.ofValue_toValue a⟩
  | lookupCounts => exact ⟨_, rfl, LookupCounts.ofValue_toValue hsound⟩
  | error => exact ⟨_, rfl, Error.ofValue_toValue a⟩

/-- **What is read is sound and text**, whatever form it was read from. -/
theorem of_read {v : Value} (h : T.read v = .ok a) : T.IsSound a ∧ T.IsText a := by
  cases T with
  | relativePath => exact ⟨RelativePath.isUndotted_of_ofValue v a h, trivial⟩
  | entry => exact ⟨Entry.isUndotted_of_ofValue v a h, trivial⟩
  | tree => exact ⟨TreeSnapshot.isUndotted_of_ofValue v a h, trivial⟩
  | metadata => exact ⟨Metadata.isBounded_of_ofValue v a h, trivial⟩
  | filter => exact Filter.yields_ofValue v a h
  | directoryTree => exact DirectoryTree.yields_ofValue v a h
  | lookupCounts => exact ⟨LookupCounts.isBounded_of_ofValue v a h, trivial⟩
  | _ => exact ⟨trivial, trivial⟩

end ModelType

/-- **What comes about is sound.** -/
theorem Produced.isSound {T : ModelType} {a : T.Carrier} (h : Produced T a) : T.IsSound a := by
  induction h with
  | digest => exact trivial
  | fileSnapshot => exact trivial
  | content => exact trivial
  | aggregate => exact trivial
  | fileType => exact trivial
  | level => exact trivial
  | comparison => exact trivial
  | normalization => exact trivial
  | strategy => exact trivial
  | error => exact trivial
  | metadata m h => exact h
  | lookupCounts c hhits hmisses => exact ⟨hhits, hmisses⟩
  | ofSegments h => exact RelativePath.isUndotted_of_ofSegments h
  | ofPath h => exact RelativePath.isUndotted_of_ofPath h
  | missing path name => exact (nofun : (Entry.missing path name).IsUndotted)
  | file path _ isRoot snapshot ih =>
    rintro _ ⟨⟩
    exact ih
  | directory path _ isRoot ih =>
    rintro _ ⟨⟩
    exact ih
  | tree base _ ih => exact ih
  | emptyFilter => exact Filter.isSorted_empty
  | allowPath _ p ih => exact Filter.IsSorted.allowPath ih p
  | denyPath _ p ih => exact Filter.IsSorted.denyPath ih p
  | allowExtension _ extension ih => exact Filter.IsSorted.allowExtension ih extension
  | allowFileName _ name ih => exact Filter.IsSorted.allowFileName ih name
  | ofRules allowed denied names extensions =>
    exact Filter.isSorted_ofRules allowed denied names extensions
  | directoryTree root _ ih => exact ih
  | snapshotSelf _ _ h hentries htrees =>
    exact Session.isUndotted_of_snapshotSelf ⟨hentries, htrees⟩ h
  | snapshotTree _ _ h hentries htrees =>
    exact Session.isUndotted_of_snapshotTree ⟨hentries, htrees⟩ h
  | snapshotSource _ _ _ h hentries htrees hsource =>
    exact Session.isUndotted_of_snapshotSource ⟨hentries, htrees⟩ hsource h
  | expand _ _ _ h he hentries htrees hc =>
    exact Session.isUndotted_of_expand ⟨hentries, htrees⟩ hc h _ he
  | decoded h => exact (ModelType.of_read h).1

namespace ModelType

/-- **What comes about is read back as it was written**, if its paths are text; and what is read,
from whatever form, can be written again and read again. -/
theorem read_write :
    (∀ (T : ModelType) (a : T.Carrier), Produced T a → T.IsText a →
      ∃ v, T.write? a = some v ∧ T.read v = .ok a) ∧
    ∀ (T : ModelType) (v : Value) (a : T.Carrier), T.read v = .ok a →
      ∃ v', T.write? a = some v' ∧ T.read v' = .ok a := by
  refine ⟨fun T a hproduced htext => exists_value hproduced.isSound htext, fun T v a hread => ?_⟩
  obtain ⟨hsound, htext⟩ := of_read hread
  exact exists_value hsound htext

/-- A directory whose name holds a backslash, as it comes out of a snapshot; a filter with rules of
all kinds; and an entry in the form of a variant with an object that has one field too many. -/
theorem read_write_of_backslash :
    let w := (World.empty.apply (.makeDirectory (.ofString "/a\\b"))).world
    let s : Session := { Session.start .all false false with world := w }
    let e := Entry.directory "/a\\b" ⟨false, ["a\\b"]⟩ true
    let f := Filter.ofRules [.ofString "x"] [.ofString "x/y"] ["n", "m"] ["RS"]
    let v := Value.object [("Directory", .object [("path", .string "/a\\b"), ("more", .null),
      ("relative_path", .array [.bool false, .array [.string "a\\b"]]), ("root", .bool true)])]
    (Session.snapshotSelf (.ofString "/a\\b") s).1 = .ok e ∧
      (Produced .entry e ∧ ∃ v, write? .entry e = some v ∧ read .entry v = .ok e) ∧
      (Produced .filter f ∧ IsText .filter f ∧
        ∃ v, write? .filter f = some v ∧ read .filter v = .ok f) ∧
      read .entry v = .ok e ∧ ∃ v', write? .entry e = some v' ∧ read .entry v' = .ok e := by
  intro w s e f v
  have hsnapshot : (Session.snapshotSelf (.ofString "/a\\b") s).1 = .ok e := by decide +kernel
  have hentry : Produced .entry e :=
    .snapshotSelf (List.forall_mem_nil _) (List.forall_mem_nil _) hsnapshot
  have hfilter : Produced .filter f := .ofRules _ _ _ _
  have htext : IsText .filter f := ⟨by decide +kernel, by decide +kernel⟩
  have hread : read .entry v = .ok e := rfl
  exact ⟨hsnapshot, ⟨hentry, read_write.1 .entry e hentry trivial⟩,
    ⟨hfilter, htext, read_write.1 .filter f hfilter htext⟩, hread, read_write.2 .entry v e hread⟩

end ModelType

end SnapStore
