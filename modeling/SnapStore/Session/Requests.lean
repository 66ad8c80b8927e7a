import SnapStore.Session.Host
import SnapStore.Tree.Source

/-!
# Requests in a session

What a session can be asked, each as one `SnapStore.Session.Run`: the requests of
`SnapStore.Store.Snapshotter` on the host of the session, and a look and a digest that go to the
world directly. A request holds no key when it is over.

Several threads that make the same request are run one after the other
(`SnapStore.Session.several`).
-/

namespace SnapStore

/-- A root of a collection. -/
inductive Member
  /-- A path, with everything below it. -/
  | path (p : Path)
  /-- What is below a directory. -/
  | directory (t : DirectoryTree)
  /-- What a tree source reports. -/
  | source (s : Source)

namespace Session

/-- A root as the store takes it. -/
def element : Member → Element Run
  | .path p => .path p
  | .directory t => .directory t
  | .source s => .source (s.visit systemCalls.lift)

/-- A request to the stores. -/
def request {α : Type} (act : ExceptT Failure Run α) : Run (Except Failure α) := lettingGo act.run

/-! ### Snapshots -/

/-- The entry of a path. -/
def snapshotSelf (p : Path) : Run (Except Failure Entry) := request (host.snapshotSelf p)

/-- The aggregate of a path and all that is below it. -/
def snapshotAll (s : Strategy) (p : Path) : Run (Except Failure Aggregate) :=
  request (host.snapshotAll s p)

/-- The entries below a directory. -/
def snapshotTree (t : DirectoryTree) : Run (Except Failure TreeSnapshot) :=
  request (host.snapshotTree t)

/-- The entries that a tree source reports. -/
def snapshotSource (s : Source) : Run (Except Failure TreeSnapshot) :=
  request (host.snapshotSource (s.visit systemCalls.lift))

/-- The entries of a collection. -/
def expand (c : List Member) : Run (Except Failure (List Entry)) :=
  request (host.expand (c.map element))

/-- One aggregate for a collection. -/
def snapshotCollection (s : Strategy) (c : List Member) : Run (Except Failure Aggregate) :=
  request (host.snapshotCollection s (c.map element))

/-- The canonical form of a path. -/
def canonical (p : Path) : Run (Except Error String) := return p.canonical (← now).workingDirectory

/-- The digest of a file, whatever the rules say. -/
def hashFile (p : Path) : Run (Except Error Digest) := (Hasher.sha256 systemCalls).file p .missing

/-! ### Many requests -/

/-- The entries of numbered paths, from the given number on, one after the other; the last
one counts. -/
def snapshotNumbered (stem : String) (last : Option Entry) (first : Nat) :
    Nat → Run (Except Failure (Option Entry))
  | 0 => return .ok last
  | count + 1 => do
    match ← snapshotSelf (.ofString (stem ++ toString first)) with
    | .error e => return .error e
    | .ok entry => snapshotNumbered stem (some entry) (first + 1) count

/-- Makes the same request so many times: the first answer, and whether the others are equal
to it. -/
def several {α : Type} [BEq α] (act : Run α) : Nat → Run (Option (α × Bool))
  | 0 => return none
  | count + 1 => do
    let first ← act
    let others ← (List.replicate count act).mapM id
    return some (first, others.all (· == first))

end Session

end SnapStore
