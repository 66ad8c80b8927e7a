import SnapStore.Tree.Basic

/-!
# Scripted trees

A tree source need not hold a tree: it may report whatever it likes. A
`SnapStore.ScriptedTree` is a list of reports that is gone through in order, with an error at
the end if one is wanted. It says what a source can do to a program that listens to it.
-/

namespace SnapStore

/-- One report of a scripted tree. -/
structure ScriptedItem where
  /-- Whether a directory is reported. -/
  isDirectory : Bool
  /-- The path of the entry. -/
  path : Path
  /-- Where it is said to lie. -/
  relative : RelativePath
  /-- When it is said to have been changed. -/
  modified : String
  /-- What opening it gives. -/
  content : Except Error Bytes

/-- Reports to be made. -/
structure ScriptedTree where
  /-- The reports, in order. -/
  items : List ScriptedItem
  /-- The error after the last of them. -/
  ending : Option Error

namespace ScriptedTree

variable {m : Type → Type} [Monad m]

/-- The details of a reported entry. -/
def details (item : ScriptedItem) : Details m :=
  let openContent : ExceptT Error m Reader := ExceptT.mk (return item.content.map .ofBytes)
  { path := item.path
    relative := item.relative
    modified := item.modified
    openContent := openContent
    digest := digestByReading item.path openContent }

/-- Makes the reports. -/
def visit (t : ScriptedTree) : TreeSource m := fun v => do
  t.items.forM fun item =>
    if item.isDirectory then v.directory (details item) else v.file (details item)
  match t.ending with
  | none => return
  | some e => throw (.error e)

end ScriptedTree

end SnapStore
