import SnapStore.Digest.Basic
import SnapStore.Error

/-!
# Reading and hashing

A `SnapStore.Reader` is something that is read in portions: it delivers its chunks one
after the other and then ends, or breaks off. A single read fetches at most as many bytes
as the buffer holds and never more than what is left of one chunk
(`SnapStore.Reader.read`), so a chunk longer than the buffer takes several reads and an
empty chunk is a read of nothing.

A read of nothing means the end. `SnapStore.Reader.drain` reads until then and gives what
it read, or the failure that came first; `SnapStore.Reader.digest` is the digest of that.
-/

namespace SnapStore

/-- Something to read from. -/
structure Reader where
  /-- The portions still to come. -/
  chunks : List Bytes
  /-- How reading fails after the last of them, if it does. -/
  ending : Option IoFailure

namespace Reader

/-- The number of bytes that a buffer holds. -/
def bufferSize : Nat := 8192

/-- A reader of these bytes, in one portion. -/
def ofBytes (content : Bytes) : Reader := ⟨if content = [] then [] else [content], none⟩

/-- A reader that breaks off at once. -/
def broken (failure : IoFailure) : Reader := ⟨[], some failure⟩

/-- One read: the bytes fetched and the reader that is left, or a failure. -/
def read (r : Reader) : Except IoFailure (Bytes × Reader) :=
  match r.chunks with
  | [] =>
    match r.ending with
    | none => .ok ([], r)
    | some failure => .error failure
  | chunk :: rest =>
    if chunk.length ≤ bufferSize then .ok (chunk, ⟨rest, r.ending⟩)
    else .ok (chunk.take bufferSize, ⟨chunk.drop bufferSize :: rest, r.ending⟩)

/-- What reading to the end has come to: the bytes read, and the failure that stopped it
early. -/
structure Drained where
  /-- The bytes fetched. -/
  content : Bytes
  /-- The failure, if there was one. -/
  failure : Option IoFailure
  deriving DecidableEq

/-- A bound on the number of reads that fetch something. -/
def size (r : Reader) : Nat := r.chunks.foldr (fun c n => c.length + 1 + n) 0

/-- A read of something leaves less to read. -/
theorem size_lt_of_read {r rest : Reader} {b : UInt8} {bs : Bytes}
    (h : r.read = .ok (b :: bs, rest)) : rest.size < r.size := by
  unfold read at h
  split at h
  · split at h <;> simp_all
  · rename_i chunk more hc
    split at h
    · simp only [Except.ok.injEq, Prod.mk.injEq] at h
      rw [← h.2]
      simp only [size, hc, List.foldr_cons]
      omega
    · simp only [Except.ok.injEq, Prod.mk.injEq] at h
      rw [← h.2]
      simp only [size, hc, List.foldr_cons, List.length_drop, bufferSize] at *
      omega

/-- Reads until a read of nothing or a failure. -/
def drain (r : Reader) : Drained :=
  match _h : r.read with
  | .error failure => ⟨[], some failure⟩
  | .ok ([], _) => ⟨[], none⟩
  | .ok (b :: bs, rest) =>
    let tail := drain rest
    ⟨(b :: bs) ++ tail.content, tail.failure⟩
termination_by r.size
decreasing_by exact size_lt_of_read ‹_›

/-- Reading goes on after a read of something. -/
theorem drain_of_read {r rest : Reader} {bs : Bytes} (hbs : bs ≠ [])
    (h : r.read = .ok (bs, rest)) :
    r.drain = ⟨bs ++ rest.drain.content, rest.drain.failure⟩ := by
  rw [drain]
  split
  · rename_i hr
    rw [h] at hr
    cases hr
  · rename_i hr
    rw [h] at hr
    cases hr
    exact absurd rfl hbs
  · rename_i hr
    rw [h] at hr
    cases hr
    rfl

/-- Reading ends with a read of nothing. -/
theorem drain_of_read_nil {r rest : Reader} (h : r.read = .ok ([], rest)) :
    r.drain = ⟨[], none⟩ := by
  rw [drain]
  split
  · rename_i hr
    rw [h] at hr
    cases hr
  · rfl
  · rename_i hr
    rw [h] at hr
    cases hr

/-- Reading ends with a failure. -/
theorem drain_of_read_error {r : Reader} {failure : IoFailure} (h : r.read = .error failure) :
    r.drain = ⟨[], some failure⟩ := by
  rw [drain]
  split
  · rename_i hr
    rw [h] at hr
    cases hr
    rfl
  · rename_i hr
    rw [h] at hr
    cases hr
  · rename_i hr
    rw [h] at hr
    cases hr

/-- A single chunk is read whole, however many reads that takes. -/
theorem drain_singleton (chunk : Bytes) : drain ⟨[chunk], none⟩ = ⟨chunk, none⟩ := by
  by_cases hnil : chunk = []
  · rw [hnil]
    exact drain_of_read_nil rfl
  · by_cases hfit : chunk.length ≤ bufferSize
    · have hread : read ⟨[chunk], none⟩ = .ok (chunk, ⟨[], none⟩) := if_pos hfit
      have hend : drain ⟨[], none⟩ = ⟨[], none⟩ := drain_of_read_nil rfl
      rw [drain_of_read hnil hread, hend, List.append_nil]
    · have hread : read ⟨[chunk], none⟩
          = .ok (chunk.take bufferSize, ⟨[chunk.drop bufferSize], none⟩) := if_neg hfit
      have htake : chunk.take bufferSize ≠ [] := by
        simpa [List.take_eq_nil_iff, bufferSize] using hnil
      rw [drain_of_read htake hread, drain_singleton (chunk.drop bufferSize),
        List.take_append_drop]
termination_by chunk.length
decreasing_by
  rw [List.length_drop]
  simp only [bufferSize] at *
  omega

/-- A reader of given bytes delivers these bytes. -/
theorem drain_ofBytes (content : Bytes) : (ofBytes content).drain = ⟨content, none⟩ := by
  unfold ofBytes
  split
  · rename_i h
    rw [h]
    exact drain_of_read_nil rfl
  · exact drain_singleton content

/-- The digest of what is read, or the failure, reported of `what`. -/
def digest (what : String) (r : Reader) : Except Error Digest :=
  match r.drain with
  | ⟨_, some failure⟩ => .error (.ofIo what failure)
  | ⟨content, none⟩ => .ok (.ofMessage content)

/-- Hashing a reader of given bytes hashes these bytes. -/
theorem digest_ofBytes (what : String) (content : Bytes) :
    (ofBytes content).digest what = .ok (.ofMessage content) := by
  simp [digest, drain_ofBytes]

end Reader

end SnapStore
