import SnapStore.Path.Basic

/-!
# What can go wrong

`SnapStore.OsError` lists the ways in which the operating system refuses a call, and
`SnapStore.IoFailure` is what is left of a refusal, or of a reader that breaks off, by
the time it is reported: whether something was *not there*, and a text.

`SnapStore.Error` is what a request on a snapshot store can fail with. Its constructors
are the causes a caller can tell apart, and `SnapStore.Error.message` words them. The
one distinction that decides anything is `notFound`: a file that is not there any more
when it is read is reported as missing, not as an error, and `SnapStore.Error.ofIo` keeps
that case apart from all other failures.

A `SnapStore.Failure` is all that a request can end in if it gives no answer: an error, or a
*panic*, in which it is abandoned on the spot. Nothing that may go wrong in the middle of a
request is stopped from ending it, so that a panic passes through everything an error does.
-/

namespace SnapStore

/-- Why the operating system refuses a call. -/
inductive OsError
  /-- A name leads nowhere. -/
  | notFound
  /-- Something else stands where a directory is needed. -/
  | notDirectory
  /-- A directory stands where a file is needed. -/
  | isDirectory
  /-- A name or a path is too long. -/
  | nameTooLong
  /-- Too many symbolic links had to be followed. -/
  | tooManyLinks
  /-- A path holds a zero byte and cannot be handed over at all. -/
  | zeroByte
  /-- The name is taken. -/
  | alreadyExists
  /-- The call makes no sense for this path. -/
  | invalid
  deriving DecidableEq

/-- The system's wording. -/
def OsError.text : OsError → String
  | .notFound => "No such file or directory (os error 2)"
  | .notDirectory => "Not a directory (os error 20)"
  | .isDirectory => "Is a directory (os error 21)"
  | .nameTooLong => "File name too long (os error 36)"
  | .tooManyLinks => "Too many levels of symbolic links (os error 40)"
  | .zeroByte => "file name contained an unexpected NUL byte"
  | .alreadyExists => "File exists (os error 17)"
  | .invalid => "Invalid argument (os error 22)"

/-- A failed input operation: whether its object was not there, and a text. -/
structure IoFailure where
  /-- Whether the failure says that something does not exist. -/
  absent : Bool
  /-- The wording. -/
  text : String
  deriving DecidableEq

/-- What is reported of a refusal. -/
def OsError.toIo (e : OsError) : IoFailure := ⟨e = .notFound, e.text⟩

/-- Why a request fails. -/
inductive Error
  /-- Asking about, opening or reading `what` failed. -/
  | read (what how : String)
  /-- `what` was not there when it was to be read. -/
  | notFound (what : String)
  /-- The caller supplied something unusable. -/
  | invalidArgument (what : String)
  /-- There is something at the path that has no snapshot. -/
  | unrecognizedFileType (path kind : String)
  /-- The walk through a directory broke off. -/
  | walk (what how : String)
  /-- Something could not be created. -/
  | create (what how : String)
  /-- A path has no canonical form. -/
  | invalidPath (what : String)
  deriving DecidableEq

namespace Error

/-- The wording of an error. -/
def message : Error → String
  | read what how => "Failed to read " ++ what ++ ": " ++ how
  | notFound what => "Not found: " ++ what
  | invalidArgument what => "Invalid argument: " ++ what
  | unrecognizedFileType path kind => "Unrecognized file type " ++ kind ++ " for " ++ path
  | walk what how => "Failed to walk " ++ what ++ ": " ++ how
  | create what how => "Failed to create " ++ what ++ ": " ++ how
  | invalidPath what => "Invalid path: " ++ what

/-- A failed input operation on `what`. -/
def ofIo (what : String) (failure : IoFailure) : Error :=
  if failure.absent then notFound what else read what failure.text

/-- A refused system call on `what`. -/
def ofOs (what : String) (e : OsError) : Error := ofIo what e.toIo

/-- A segment that no relative path can have. -/
def badSegment (segment : String) : Error :=
  invalidArgument ("Invalid path segment: " ++ segment)

/-- A path that is needed as text and is not text. -/
def notText (p : Path) : Error := invalidPath ("non UTF-8 path " ++ p.display)

/-- A relative path that leads out of the directory it is relative to. -/
def escapesBase (p : Path) : Error :=
  invalidArgument ("relative path " ++ p.display ++ " escapes its base")

/-- Only what does not exist is reported as not found. -/
theorem ofOs_eq_notFound_iff {what other : String} {e : OsError} :
    ofOs what e = notFound other ↔ e = .notFound ∧ what = other := by
  cases e <;> simp [ofOs, ofIo, OsError.toIo]

end Error

/-- How a request ends that gives no answer. -/
inductive Failure
  /-- It fails with an error. -/
  | error (e : Error)
  /-- It is abandoned on the spot. -/
  | panic
  deriving DecidableEq

namespace Failure

/-- What fails with an error can be part of a request. -/
instance : MonadLift (Except Error) (Except Failure) := ⟨Except.mapError .error⟩

theorem mapError_eq_ok_iff {α : Type} {x : Except Error α} {a : α} :
    x.mapError Failure.error = .ok a ↔ x = .ok a := by
  cases x with
  | error e => exact ⟨nofun, nofun⟩
  | ok b =>
    change Except.ok b = _ ↔ _
    rw [Except.ok.injEq, Except.ok.injEq]

theorem mapError_eq_error_iff {α : Type} {x : Except Error α} {failure : Failure} :
    x.mapError Failure.error = .error failure ↔ ∃ e, x = .error e ∧ failure = .error e := by
  cases x with
  | error e =>
    change Except.error (Failure.error e) = _ ↔ _
    simp [eq_comm]
  | ok b => exact ⟨nofun, nofun⟩

end Failure

end SnapStore
