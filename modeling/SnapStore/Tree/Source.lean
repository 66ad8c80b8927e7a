import SnapStore.Tree.Memory
import SnapStore.Tree.Scripted
import SnapStore.Tree.Walk

/-!
# Kinds of tree sources

A `SnapStore.Source` is one of the tree sources of the library: a directory on disk, files in
memory, or a script. `SnapStore.Source.visit` tells a visitor what it holds.
-/

namespace SnapStore

/-- A tree that can be visited. -/
inductive Source
  /-- What is below a directory on disk. -/
  | directory (t : DirectoryTree)
  /-- Files in memory. -/
  | memory (t : MemoryTree)
  /-- Reports that are made up. -/
  | scripted (t : ScriptedTree)

namespace Source

/-- Tells a visitor what the tree holds. -/
def visit {m : Type → Type} [Monad m] (calls : Calls m) : Source → TreeSource m
  | directory t => t.visit calls
  | memory t => t.visit
  | scripted t => t.visit

end Source

end SnapStore
