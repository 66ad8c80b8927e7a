import SnapStore.Path.Basic
import SnapStore.Text.Lowercase
import SnapStore.Text.NameSet

/-!
# Filters

A `SnapStore.Filter` narrows a directory tree. It holds rules of four kinds: roots that
are included, roots that are excluded, extensions and file names. All paths are relative to
the base of the tree, and a kind without rules excludes nothing.

`SnapStore.Filter.level` says what a walk does with a path: it leaves it out with all that
is below (`deny`), or goes through it without listing it (`traverse`), or lists it
(`allow`). Two rules need a word of explanation.

* A directory above an included root is traversed, as the root is only reached through it.
* With extension or file name rules a directory is traversed and not listed: files further
  down may still match. A file has to match the rules of both kinds.

Extensions are compared without regard to case. The rules are folded to lower case when
they are added (`SnapStore.Filter.allowExtension`), and a file's extension when it is
looked up.
-/

namespace SnapStore

/-- What a walk does with a path. -/
inductive Level
  /-- Leave it out, with everything below. -/
  | deny
  /-- Go through it without listing it. -/
  | traverse
  /-- List it. -/
  | allow
  deriving DecidableEq

/-- Rules about what belongs to a tree. -/
structure Filter where
  /-- If there are any, only what lies below one of these belongs to the tree. -/
  includeRoots : List Path
  /-- Nothing below one of these belongs to the tree. -/
  excludeRoots : List Path
  /-- If there are any, only files with one of these extensions belong to the tree. -/
  extensions : NameSet
  /-- If there are any, only files with one of these names belong to the tree. -/
  fileNames : NameSet
  deriving DecidableEq

namespace Filter

/-- The filter that lets everything through. -/
def empty : Filter := ⟨[], [], .empty, .empty⟩

/-- Whether there is no rule. -/
def isEmpty (f : Filter) : Bool :=
  f.includeRoots.isEmpty && f.excludeRoots.isEmpty && f.extensions.isEmpty && f.fileNames.isEmpty

/-! ### Adding rules -/

/-- Includes what lies below `p`. -/
def allowPath (f : Filter) (p : Path) : Filter := { f with includeRoots := f.includeRoots ++ [p] }

/-- Excludes what lies below `p`. -/
def denyPath (f : Filter) (p : Path) : Filter := { f with excludeRoots := f.excludeRoots ++ [p] }

/-- Lets files with this extension through, in whatever case. -/
def allowExtension (f : Filter) (extension : String) : Filter :=
  { f with extensions := f.extensions.insert (lowercase extension) }

/-- Lets files of this name through. -/
def allowFileName (f : Filter) (name : String) : Filter :=
  { f with fileNames := f.fileNames.insert name }

/-- The filter with these rules. -/
def ofRules (allowed denied : List Path) (names extensions : List String) : Filter :=
  let f := allowed.foldl allowPath empty
  let f := denied.foldl denyPath f
  let f := names.foldl allowFileName f
  extensions.foldl allowExtension f

/-! ### Applying rules -/

/-- Whether a file's extension satisfies the rules. -/
def extensionMatches (f : Filter) (p : Path) : Bool :=
  f.extensions.isEmpty ||
    match p.extension?.bind Utf8.decode? with
    | some e => f.extensions.contains (lowercase e)
    | none => false

/-- Whether a file's name satisfies the rules. -/
def fileNameMatches (f : Filter) (p : Path) : Bool :=
  f.fileNames.isEmpty ||
    match p.fileName?.bind Utf8.decode? with
    | some n => f.fileNames.contains n
    | none => false

/-- Whether the path lies below an excluded root. -/
def isExcluded (f : Filter) (p : Path) : Bool := f.excludeRoots.any p.startsWith

/-- Whether the path lies below an included root. -/
def isIncluded (f : Filter) (p : Path) : Bool :=
  f.includeRoots.isEmpty || f.includeRoots.any p.startsWith

/-- Whether an included root lies below the path. -/
def leadsToRoot (f : Filter) (p : Path) : Bool := f.includeRoots.any (·.startsWith p)

/-- Whether there are rules about files. -/
def hasFileRules (f : Filter) : Bool := !(f.extensions.isEmpty && f.fileNames.isEmpty)

/-- What a walk does with `p`, given whether it is a directory. -/
def level (f : Filter) (p : Path) (isDirectory : Bool) : Level :=
  if f.isExcluded p then .deny
  else if f.isIncluded p then
    if isDirectory then
      if f.hasFileRules then .traverse else .allow
    else if f.extensionMatches p && f.fileNameMatches p then .allow else .deny
  else if isDirectory && f.leadsToRoot p then .traverse
  else .deny

/-- Whether two filters hold the same rules, paths compared by their components. -/
def same (f g : Filter) : Bool :=
  f.includeRoots.map Path.components = g.includeRoots.map Path.components &&
    f.excludeRoots.map Path.components = g.excludeRoots.map Path.components &&
    f.extensions = g.extensions && f.fileNames = g.fileNames

/-- Everything passes the filter without rules. -/
theorem level_empty (p : Path) (isDirectory : Bool) : empty.level p isDirectory = .allow := by
  cases isDirectory <;> rfl

end Filter

end SnapStore
