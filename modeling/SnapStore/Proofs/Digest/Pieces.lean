import Mathlib.Tactic.SplitIfs
import SnapStore.Digest.Basic

/-!
# Hashing in pieces

A message need not be there as a whole to be hashed. A `SnapStore.Sha256.Context` takes it piece by
piece, as the pieces come: what fills whole blocks has gone into the state, and the bytes of a block
that has only begun are kept until it is full. What is true of a context in between is said of every
single byte (`SnapStore.Sha256.Context.Holds.push`). So however a message is cut, its digest is the
same (`SnapStore.Sha256.Context.finish_eq_digest`).
-/

namespace SnapStore

namespace Sha256

/-! ### Cutting messages -/

/-- Where no word can be read there are fewer bytes than a word has. -/
theorem length_lt_four {a : Bytes} (h : ∀ w x y z rest, a = w :: x :: y :: z :: rest → False) :
    a.length < 4 := by
  rcases a with _ | ⟨w, _ | ⟨x, _ | ⟨y, _ | ⟨z, rest⟩⟩⟩⟩
  · simp
  · simp
  · simp
  · simp
  · exact (h w x y z rest rfl).elim

/-- Whole words can be read first. -/
theorem words_append {a : Bytes} (h : a.length % 4 = 0) (b : Bytes) :
    words (a ++ b) = words a ++ words b := by
  fun_induction words a with
  | case1 w x y z rest ih =>
    have hrest : rest.length % 4 = 0 := by
      simp only [List.length_cons] at h
      omega
    simp only [List.cons_append, words, ih hrest]
  | case2 a hshort =>
    have hlt := length_lt_four hshort
    have hnil : a = [] := List.length_eq_zero_iff.1 (by omega)
    simp [hnil]

theorem length_words (a : Bytes) : (words a).length = a.length / 4 := by
  fun_induction words a with
  | case1 w x y z rest ih =>
    simp only [List.length_cons, ih]
    omega
  | case2 a hshort =>
    have hlt := length_lt_four hshort
    simp only [List.length_nil]
    omega

/-- Whole blocks can be absorbed first. -/
theorem absorb_append {s : State} {ws : List UInt32} (h : ws.length % 16 = 0) (vs : List UInt32) :
    absorb s (ws ++ vs) = absorb (absorb s ws) vs := by
  fun_induction absorb s ws with
  | case1 s => rfl
  | case2 s w rest ih =>
    simp only [List.length_cons] at h
    have hlength : 15 ≤ rest.length := by omega
    have hrest : (rest.drop 15).length % 16 = 0 := by
      rw [List.length_drop]
      omega
    rw [List.cons_append, absorb, List.take_append_of_le_length hlength,
      List.drop_append_of_le_length hlength, ih hrest]

/-- What stands behind a message of this length. -/
def padding (length : Nat) : Bytes :=
  0x80 :: List.replicate (zeros length) 0 ++ Bytes.bigEndian64 (8 * length)

theorem pad_eq (message : Bytes) : pad message = message ++ padding message.length := by
  simp [pad, padding]

/-! ### Contexts -/

/-- **A message of which only the beginning is known.** -/
structure Context where
  /-- What the whole blocks have made of the state. -/
  state : State
  /-- The bytes of the block that has begun. -/
  pending : Bytes
  /-- The number of bytes so far. -/
  length : Nat

namespace Context

/-- The message that has not begun. -/
def start : Context := ⟨initial, [], 0⟩

/-- Takes one more byte, and compresses the block if it is full. -/
def push (c : Context) (b : UInt8) : Context :=
  if c.pending.length = 63 then
    ⟨compress c.state (words (c.pending ++ [b])), [], c.length + 1⟩
  else ⟨c.state, c.pending ++ [b], c.length + 1⟩

/-- Takes one more piece. -/
def update (c : Context) (piece : Bytes) : Context := piece.foldl push c

/-- The digest of the message, if nothing more comes. -/
def finish (c : Context) : Bytes :=
  (absorb c.state (words (c.pending ++ padding c.length))).bytes

theorem length_finish (c : Context) : c.finish.length = 32 := by
  simp [finish, State.bytes, bytesOfWord]

theorem update_append (c : Context) (a b : Bytes) :
    c.update (a ++ b) = (c.update a).update b := by
  simp [update]

/-- **What a context knows of its message.** -/
structure Holds (c : Context) (message blocks : Bytes) : Prop where
  /-- The message is made of blocks and of what is pending. -/
  message_eq : message = blocks ++ c.pending
  /-- The blocks are whole. -/
  blocks_whole : blocks.length % 64 = 0
  /-- What is pending is no block. -/
  pending_short : c.pending.length < 64
  /-- The blocks have gone into the state. -/
  state_eq : c.state = absorb initial (words blocks)
  /-- All bytes are counted. -/
  length_eq : c.length = message.length

theorem holds_start : start.Holds [] [] where
  message_eq := rfl
  blocks_whole := rfl
  pending_short := by simp [start]
  state_eq := by simp [start, words, absorb]
  length_eq := rfl

/-- Words of whole blocks are whole blocks of words. -/
theorem absorb_words_append {s : State} {blocks : Bytes} (h : blocks.length % 64 = 0)
    (rest : Bytes) :
    absorb s (words (blocks ++ rest)) = absorb (absorb s (words blocks)) (words rest) := by
  have hwords : (words blocks).length % 16 = 0 := by
    rw [length_words]
    omega
  rw [words_append (by omega), absorb_append hwords]

/-- **One more byte is one more byte of the message.** -/
theorem Holds.push {c : Context} {message blocks : Bytes} (h : c.Holds message blocks) (b : UInt8) :
    ∃ blocks', (c.push b).Holds (message ++ [b]) blocks' := by
  have hshort := h.pending_short
  unfold Context.push
  split_ifs with hfull
  · refine ⟨blocks ++ (c.pending ++ [b]), ?_, ?_, ?_, ?_, ?_⟩
    · simp [h.message_eq]
    · have hblocks := h.blocks_whole
      simp only [List.length_append, List.length_singleton]
      omega
    · simp
    · obtain ⟨w, ws, hblock⟩ : ∃ w ws, words (c.pending ++ [b]) = w :: ws := by
        refine List.exists_cons_of_ne_nil fun hnil => ?_
        have hlength := length_words (c.pending ++ [b])
        simp [hnil, hfull] at hlength
      have hws : ws.length ≤ 15 := by
        have hlength := length_words (c.pending ++ [b])
        simp [hblock, hfull] at hlength
        omega
      rw [absorb_words_append h.blocks_whole, ← h.state_eq, hblock, absorb_block _ hws]
    · simp [h.length_eq]
  · refine ⟨blocks, ?_, h.blocks_whole, ?_, h.state_eq, ?_⟩
    · simp [h.message_eq]
    · simp only [List.length_append, List.length_singleton]
      omega
    · simp [h.length_eq]

theorem Holds.update {c : Context} {message blocks : Bytes} (h : c.Holds message blocks)
    (piece : Bytes) : ∃ blocks', (c.update piece).Holds (message ++ piece) blocks' := by
  induction piece generalizing c message blocks with
  | nil => exact ⟨blocks, by simpa [Context.update] using h⟩
  | cons b piece ih =>
    obtain ⟨next, hnext⟩ := h.push b
    obtain ⟨last, hlast⟩ := ih hnext
    exact ⟨last, by simpa [Context.update] using hlast⟩

theorem Holds.finish_eq {c : Context} {message blocks : Bytes} (h : c.Holds message blocks) :
    c.finish = digest message := by
  have hpad : pad message = blocks ++ (c.pending ++ padding c.length) := by
    rw [pad_eq, ← h.length_eq, ← List.append_assoc, ← h.message_eq]
  rw [finish, digest, hpad, absorb_words_append h.blocks_whole, ← h.state_eq]

/-- **A message may be cut anywhere.** -/
theorem finish_eq_digest (pieces : List Bytes) :
    (pieces.foldl update start).finish = digest pieces.flatten := by
  have hfold : ∀ c : Context, pieces.foldl update c = c.update pieces.flatten := by
    intro c
    induction pieces generalizing c with
    | nil => simp [update]
    | cons piece pieces ih => rw [List.foldl_cons, ih, List.flatten_cons, update_append]
  obtain ⟨blocks, hblocks⟩ := holds_start.update pieces.flatten
  rw [hfold]
  exact hblocks.finish_eq

end Context

end Sha256

/-- The digest of the message that a context knows. -/
def Digest.ofContext (c : Sha256.Context) : Digest := ⟨c.finish, c.length_finish⟩

end SnapStore
