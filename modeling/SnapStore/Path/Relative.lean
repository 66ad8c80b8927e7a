import SnapStore.Error

/-!
# Relative paths

A `SnapStore.RelativePath` says where an entry lies below the root it was found under: a
list of **segments**, and whether the entry is a file. It is shown with slashes between
the segments (`SnapStore.RelativePath.display`).

There are two ways to make one.

* `SnapStore.RelativePath.ofSegments` checks segments that a caller supplies. A segment
  must be a plain name: not empty, not `.` or `..`, and without slash or backslash.
* `SnapStore.RelativePath.ofPath` cuts a path into its names. Roots and dots are skipped, a
  `..` is refused, and so is a name that is not text. It is the more liberal of the two: a
  backslash is an ordinary character of a name.
-/

namespace SnapStore

/-- A path below some root. -/
structure RelativePath where
  /-- Whether the path is that of a file. -/
  isFile : Bool
  /-- The names along the path. -/
  segments : List String
  deriving DecidableEq

namespace RelativePath

/-- The segments with slashes between them. -/
def display (p : RelativePath) : String := String.intercalate "/" p.segments

/-- The last segment. -/
def lastName? (p : RelativePath) : Option String := p.segments.getLast?

/-- The last segment, or nothing at all. -/
def name (p : RelativePath) : String := p.lastName?.getD ""

/-! ### Order -/

/-- The order of lists of segments: segment by segment, each by its bytes. -/
def segmentsLe (a b : List String) : Bool := (compare (a.map Utf8.encode) (b.map Utf8.encode)).isLE

/-- Directories come before files; among these, the segments decide. -/
def le (p q : RelativePath) : Bool :=
  if p.isFile = q.isFile then segmentsLe p.segments q.segments else q.isFile

/-! ### From segments -/

/-- Whether a text can be a segment. -/
def IsPlain (s : String) : Prop :=
  s ≠ "" ∧ s ≠ "." ∧ s ≠ ".." ∧ '/' ∉ s.toList ∧ '\\' ∉ s.toList

instance (s : String) : Decidable (IsPlain s) := by
  unfold IsPlain; infer_instance

/-- The path through the given segments; the first one that is not plain is refused. -/
def ofSegments (isFile : Bool) (segments : List String) : Except Error RelativePath :=
  match segments.find? fun s => !decide (IsPlain s) with
  | some bad => .error (.badSegment bad)
  | none => .ok ⟨isFile, segments⟩

theorem ofSegments_of_forall_isPlain {isFile : Bool} {segments : List String}
    (h : ∀ s ∈ segments, IsPlain s) : ofSegments isFile segments = .ok ⟨isFile, segments⟩ := by
  have : segments.find? (fun s => !decide (IsPlain s)) = none := by
    simpa [List.find?_eq_none] using h
  simp [ofSegments, this]

theorem isPlain_of_ofSegments {isFile : Bool} {segments : List String} {p : RelativePath}
    (h : ofSegments isFile segments = .ok p) :
    p = ⟨isFile, segments⟩ ∧ ∀ s ∈ segments, IsPlain s := by
  unfold ofSegments at h
  split at h
  · cases h
  · rename_i hn
    simp only [Except.ok.injEq] at h
    exact ⟨h.symm, by simpa [List.find?_eq_none] using hn⟩

/-! ### From a path -/

/-- The segments that the components of `p` stand for. -/
def segmentsOf (p : Path) : List Component → Except Error (List String)
  | [] => .ok []
  | .root :: rest => segmentsOf p rest
  | .current :: rest => segmentsOf p rest
  | .parent :: _ => .error (.escapesBase p)
  | .name n :: rest =>
    match Utf8.decode? n with
    | none => .error (.notText p)
    | some s => (segmentsOf p rest).map (s :: ·)

/-- The names of a path, as a relative path. -/
def ofPath (isFile : Bool) (p : Path) : Except Error RelativePath :=
  (segmentsOf p p.components).map (⟨isFile, ·⟩)

end RelativePath

end SnapStore
