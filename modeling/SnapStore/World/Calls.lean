import SnapStore.Digest.Reader
import SnapStore.World.Resolve

/-!
# System calls

A program learns about the world through system calls, and each call sees the world as it
is at that moment. `SnapStore.Calls` lists the calls that the library makes, in whatever
monad the program runs; `SnapStore.Calls.live` answers them from the world that the monad
holds when they are made, and `SnapStore.Calls.still` from a world that never changes.

All that a call reports is computed by a function of the world alone:
`SnapStore.World.stat`, `SnapStore.World.linkStat`, `SnapStore.World.list`,
`SnapStore.World.openReader` and `SnapStore.World.workingDirectory`. Which spot it is, for telling
whether two paths lead to the same directory, is answered by `SnapStore.World.locate`.
-/

namespace SnapStore

namespace World

/-- What the system says of what a path leads to. -/
def stat (w : World) (p : Path) : Except OsError Status := (w.find true p).map Node.status

/-- The same, but of a link itself if the path ends in one. -/
def linkStat (w : World) (p : Path) : Except OsError Status := (w.find false p).map Node.status

/-- The names in a directory and the kinds of what they name, in no particular order. -/
def list (w : World) (p : Path) : Except OsError (List (Bytes × Kind)) :=
  match w.locate true p with
  | .error e => .error e
  | .ok (.removed _) => .ok []
  | .ok (.place place) =>
    if w.isDirectory place then .ok (w.children place) else .error .notDirectory

/-- Opens what a path leads to for reading. A directory can be opened; it is reading from it
that fails. -/
def openReader (w : World) (p : Path) : Except OsError Reader :=
  (w.find true p).map fun n =>
    match n with
    | .file content _ => .ofBytes content
    | .directory _ => .broken OsError.isDirectory.toIo
    | .link _ => .ofBytes []
    | .special _ => .ofBytes []

/-- The path of the current directory. A removed one has none. -/
def workingDirectory (w : World) : Except OsError Path :=
  if w.home.isRemoved then .error .notFound else .ok (.absoluteOfNames w.home.place)

end World

/-- The system calls that the library makes. -/
structure Calls (m : Type → Type) where
  /-- The path of the current directory. -/
  workingDirectory : m (Except OsError Path)
  /-- What a path leads to. -/
  stat : Path → m (Except OsError Status)
  /-- What a path leads to, a link at its end not followed. -/
  linkStat : Path → m (Except OsError Status)
  /-- What is in a directory. -/
  list : Path → m (Except OsError (List (Bytes × Kind)))
  /-- The spot a path leads to, as the identity of what is there. -/
  identify : Path → m (Except OsError Spot)
  /-- Opens a path for reading. -/
  openReader : Path → m (Except OsError Reader)

namespace Calls

/-- Calls that are answered from the world as it is when they are made. -/
def live {m : Type → Type} [Monad m] (now : m World) : Calls m where
  workingDirectory := return (← now).workingDirectory
  stat p := return (← now).stat p
  linkStat p := return (← now).linkStat p
  list p := return (← now).list p
  identify p := return (← now).locate true p
  openReader p := return (← now).openReader p

/-- Calls that are answered from a world that never changes. -/
def still (w : World) : Calls Id := @live Id _ w

end Calls

end SnapStore
