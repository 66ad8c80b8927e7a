import Mathlib.Data.List.TakeWhile
import SnapStore.Digest.Reader
import SnapStore.Proofs.Digest.Pieces

/-!
# Reading in portions

A reader cuts its content twice over: into the chunks that it delivers and, where these do not fit
into the buffer, into the portions of a single read. `SnapStore.Reader.digestInPieces` hands each
portion on to a `SnapStore.Sha256.Context` as soon as it has been read, and gives back what is left
of the reader.

None of the cuts matters (`SnapStore.Reader.digest_of_chunks`). What is read is what stands before
the first empty chunk (`SnapStore.Reader.whole`), since a read of nothing is taken for the end; what
is behind it is left (`SnapStore.Reader.left`); and a failure at the end of the reader is met only
if there is no empty chunk before it (`SnapStore.Reader.failure?`). Each of the three is said of a
single read first, and then of the loop.
-/

namespace SnapStore

namespace Reader

/-- What stands before the first empty chunk. -/
def whole (r : Reader) : Bytes := (r.chunks.takeWhile (· ≠ [])).flatten

/-- The reader behind the first empty chunk. -/
def left (r : Reader) : Reader := ⟨(r.chunks.dropWhile (· ≠ [])).tail, r.ending⟩

/-- The failure that is met, if there is no empty chunk before it. -/
def failure? (r : Reader) : Option IoFailure := if [] ∈ r.chunks then none else r.ending

/-- Reads to the end or to a failure. Each portion goes into the context at once. -/
def feed (c : Sha256.Context) (r : Reader) : Except IoFailure Sha256.Context × Reader :=
  match _h : r.read with
  | .error failure => (.error failure, r)
  | .ok ([], rest) => (.ok c, rest)
  | .ok (b :: bs, rest) => feed (c.update (b :: bs)) rest
termination_by r.size
decreasing_by exact size_lt_of_read ‹_›

/-- The digest of what is read, portion by portion, or the failure, reported of `what`; and what is
left of the reader. -/
def digestInPieces (what : String) (r : Reader) : Except Error Digest × Reader :=
  match r.feed .start with
  | (.error failure, rest) => (.error (.ofIo what failure), rest)
  | (.ok c, rest) => (.ok (.ofContext c), rest)

/-! ### A single read -/

variable {r rest : Reader} {failure : IoFailure} {portion : Bytes}

/-- A read that fails is the last one. -/
theorem of_read_error (h : r.read = .error failure) :
    r.whole = [] ∧ r.left = r ∧ r.failure? = some failure := by
  obtain ⟨chunks, ending⟩ := r
  rcases chunks with _ | ⟨chunk, chunks⟩
  · cases ending <;> simp_all [read, whole, left, failure?]
  · simp only [read] at h
    split at h <;> simp at h

/-- So is a read of nothing. -/
theorem of_read_nil (h : r.read = .ok ([], rest)) :
    r.whole = [] ∧ r.left = rest ∧ r.failure? = none := by
  obtain ⟨chunks, ending⟩ := r
  rcases chunks with _ | ⟨chunk, chunks⟩
  · cases ending <;> simp_all [read, whole, left, failure?]
  · simp only [read] at h
    split at h
    · obtain ⟨rfl, rfl⟩ : chunk = [] ∧ ⟨chunks, ending⟩ = rest := by simpa using h
      simp [whole, left, failure?]
    · -- A chunk that does not fit into the buffer is not empty.
      simp_all [bufferSize]

/-- **A read of something leaves the rest of what there is to read.** -/
theorem of_read_portion (h : r.read = .ok (portion, rest)) (hportion : portion ≠ []) :
    r.whole = portion ++ rest.whole ∧ r.left = rest.left ∧ r.failure? = rest.failure? := by
  obtain ⟨chunks, ending⟩ := r
  rcases chunks with _ | ⟨chunk, chunks⟩
  · cases ending <;> simp_all [read]
  · simp only [read] at h
    split_ifs at h with hfit
    · obtain ⟨rfl, rfl⟩ : chunk = portion ∧ ⟨chunks, ending⟩ = rest := by simpa using h
      simp [whole, left, failure?, hportion, Ne.symm hportion]
    · obtain ⟨rfl, rfl⟩ :
          chunk.take bufferSize = portion ∧ ⟨chunk.drop bufferSize :: chunks, ending⟩ = rest := by
        simpa using h
      have hchunk : chunk ≠ [] := by
        rintro rfl
        simp at hportion
      have hdrop : chunk.drop bufferSize ≠ [] := by
        rw [Ne, List.drop_eq_nil_iff]
        exact hfit
      refine ⟨?_, ?_, ?_⟩
      · simp only [whole, ne_eq, hchunk, hdrop, not_false_eq_true, decide_true,
          List.takeWhile_cons_of_pos, List.flatten_cons]
        rw [← List.append_assoc, List.take_append_drop]
      · simp [left, hchunk, hdrop]
      · simp [failure?, Ne.symm hchunk, Ne.symm hdrop]

/-! ### All reads -/

/-- **Reading portion by portion comes to what stands before the first empty chunk.** -/
theorem feed_eq (c : Sha256.Context) (r : Reader) :
    r.feed c = (match r.failure? with
      | some failure => .error failure
      | none => .ok (c.update r.whole), r.left) := by
  fun_induction feed c r with
  | case1 c r failure hread =>
    obtain ⟨-, hleft, hfailure⟩ := of_read_error hread
    rw [hleft, hfailure]
  | case2 c r rest hread =>
    obtain ⟨hwhole, hleft, hfailure⟩ := of_read_nil hread
    simp [hwhole, hleft, hfailure, Sha256.Context.update]
  | case3 c r b bs rest hread ih =>
    obtain ⟨hwhole, hleft, hfailure⟩ := of_read_portion hread (List.cons_ne_nil b bs)
    rw [ih, hwhole, hleft, hfailure, Sha256.Context.update_append]

/-- So does reading it all at once. -/
theorem drain_eq (r : Reader) : r.drain = ⟨r.whole, r.failure?⟩ := by
  fun_induction drain r with
  | case1 r failure hread =>
    obtain ⟨hwhole, -, hfailure⟩ := of_read_error hread
    rw [hwhole, hfailure]
  | case2 r rest hread =>
    obtain ⟨hwhole, -, hfailure⟩ := of_read_nil hread
    rw [hwhole, hfailure]
  | case3 r b bs rest hread tail ih =>
    obtain ⟨hwhole, -, hfailure⟩ := of_read_portion hread (List.cons_ne_nil b bs)
    simp only [tail, ih, hwhole, hfailure]

theorem digest_eq (what : String) (r : Reader) :
    r.digest what = match r.failure? with
      | some failure => .error (.ofIo what failure)
      | none => .ok (.ofMessage r.whole) := by
  rw [digest, drain_eq]
  cases r.failure? <;> rfl

theorem digestInPieces_eq (what : String) (r : Reader) :
    r.digestInPieces what = (r.digest what, r.left) := by
  rw [digestInPieces, feed_eq, digest_eq]
  rcases r.failure? with _ | failure
  · have hfinish := Sha256.Context.finish_eq_digest [r.whole]
    simp only [List.foldl_cons, List.foldl_nil, List.flatten_cons, List.flatten_nil,
      List.append_nil] at hfinish
    simp [Digest.ofContext, Digest.ofMessage, hfinish]
  · rfl

/-- What is read and what is left make up the content. -/
theorem flatten_chunks (r : Reader) : r.chunks.flatten = r.whole ++ r.left.chunks.flatten := by
  obtain ⟨chunks, ending⟩ := r
  induction chunks with
  | nil => simp [whole, left]
  | cons chunk chunks ih =>
    by_cases hchunk : chunk = []
    · simp [whole, left, hchunk]
    · simpa [whole, left, hchunk] using ih

theorem failure?_eq_some_iff :
    r.failure? = some failure ↔ [] ∉ r.chunks ∧ r.ending = some failure := by
  simp [failure?]

theorem failure?_eq_none_iff : r.failure? = none ↔ [] ∈ r.chunks ∨ r.ending = none := by
  by_cases h : [] ∈ r.chunks <;> simp [failure?, h]

theorem whole_eq_flatten (h : [] ∉ r.chunks) : r.whole = r.chunks.flatten := by
  rw [whole, List.takeWhile_eq_self_iff.2]
  intro chunk hchunk
  have hne : chunk ≠ [] := fun heq => h (heq ▸ hchunk)
  simpa using hne

/-- **It does not matter how reads are split.** Portion by portion or at once, the digest is that of
the chunks before the first empty one, which are what is taken from the reader. There is none if and
only if the reader breaks off before there was a read of nothing, and then the failure is reported
of `what`. So readers that deliver the same bytes in chunks that are not empty have the same
digest. -/
theorem digest_of_chunks (what : String) (r : Reader) :
    r.digestInPieces what = (r.digest what, r.left) ∧
    r.chunks.flatten = r.whole ++ r.left.chunks.flatten ∧
    r.drain.content = r.whole ∧
    (∀ d, r.digest what = .ok d ↔
      ([] ∈ r.chunks ∨ r.ending = none) ∧ d = .ofMessage r.whole) ∧
    (∀ e, r.digest what = .error e ↔ [] ∉ r.chunks ∧ ∃ failure, r.ending = some failure ∧
      e = if failure.absent then .notFound what else .read what failure.text) ∧
    ∀ other : Reader, [] ∉ r.chunks → [] ∉ other.chunks → other.ending = r.ending →
      other.chunks.flatten = r.chunks.flatten → other.digest what = r.digest what := by
  refine ⟨digestInPieces_eq what r, flatten_chunks r, by rw [drain_eq], fun d => ?_, fun e => ?_,
    ?_⟩
  · rw [← failure?_eq_none_iff, digest_eq]
    rcases r.failure? with _ | failure
    · simp [eq_comm]
    · simp
  · rw [digest_eq]
    rcases hfailure : r.failure? with _ | failure
    · have hnone := failure?_eq_none_iff.1 hfailure
      simp only [reduceCtorEq, false_iff, not_and, not_exists]
      rintro hchunks failure hending -
      simp [hchunks, hending] at hnone
    · obtain ⟨hchunks, hending⟩ := failure?_eq_some_iff.1 hfailure
      simp only [hchunks, hending, Error.ofIo, not_false_eq_true, true_and, Option.some.injEq,
        exists_eq_left', Except.error.injEq]
      exact eq_comm
  · intro other hchunks hchunks' hending hflatten
    have hwhole : other.whole = r.whole := by
      rw [whole_eq_flatten hchunks', whole_eq_flatten hchunks, hflatten]
    have hfailure : other.failure? = r.failure? := by
      rw [failure?, failure?, if_neg hchunks, if_neg hchunks', hending]
    rw [digest_eq, digest_eq, hwhole, hfailure]

/-- Three bytes, cut behind the first and behind the second. -/
theorem digest_of_chunks_of_cut :
    digest "content" ⟨[[1, 2], [3]], none⟩ = digest "content" ⟨[[1], [2, 3]], none⟩ :=
  (digest_of_chunks "content" ⟨[[1], [2, 3]], none⟩).2.2.2.2.2 ⟨[[1, 2], [3]], none⟩
    (by decide) (by decide) rfl rfl

end Reader

end SnapStore
