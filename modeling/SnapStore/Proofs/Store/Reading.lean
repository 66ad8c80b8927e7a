import SnapStore.Proofs.Tree.Course
import SnapStore.Store.Snapshotter

/-!
# Reading from a world that stands still

A visitor that asks for the content or the digest of an entry gets what stands at its path at that
moment. On a world that does not change this is a value, whatever the monad:
`SnapStore.World.sha256_file` says so of digests.
-/

namespace SnapStore.World

/-- What hashing the file at a path gives. -/
def hashed (w : World) (p : Path) : Except Error Digest :=
  match w.openReader p with
  | .ok reader => reader.digest p.display
  | .error e => .error (.ofOs p.display e)

/-- A file that is there can be hashed. -/
theorem hashed_of_find {w : World} {p : Path} {content : Bytes} {modified : Timestamp}
    (h : w.find true p = .ok (.file content modified)) : w.hashed p = .ok (.ofMessage content) := by
  rw [hashed, openReader, h]
  exact Reader.digest_ofBytes _ _

variable {m : Type → Type} [Monad m] [LawfulMonad m] (w : World) (p : Path)

theorem lift_live {σ : Type} :
    (Calls.live (pure w) : Calls m).lift = (Calls.live (pure w) : Calls (StateT σ m)) := by
  have hlift : ∀ {α : Type} (a : α), StateT.lift (pure a : m α) = (pure a : StateT σ m α) := by
    intro α a
    ext s
    simp
  simp [Calls.lift, Calls.live, hlift]

theorem run_openFile :
    (openFile (Calls.live (pure w)) p : ExceptT Error m Reader).run =
      pure (match w.openReader p with
        | .ok reader => .ok reader
        | .error e => .error (.ofOs p.display e)) := by
  unfold openFile
  rcases h : w.openReader p with e | reader
  · simp [Calls.live, h]
  · simp [Calls.live, h]

theorem sha256_file (seen : Metadata) :
    (Hasher.sha256 (Calls.live (pure w) : Calls m)).file p seen = pure (w.hashed p) := by
  unfold Hasher.sha256 hashed
  dsimp only
  rw [ExceptT.run_bind, run_openFile]
  rcases w.openReader p with e | reader
  · simp
  · simp

end SnapStore.World
