import SnapStore.Text.Bytes

/-!
# SHA-256

The hash function of the Secure Hash Standard on byte strings, `SnapStore.Sha256.digest`.
A message is padded to whole blocks of sixteen words (`SnapStore.Sha256.pad`), each block
is stretched to a schedule of sixty-four words (`SnapStore.Sha256.schedule`), and the
rounds over the schedule change a state of eight words (`SnapStore.Sha256.compress`), whose
bytes at the end are the digest: thirty-two of them (`SnapStore.Sha256.length_digest`).
-/

namespace SnapStore.Sha256

/-- The round constants. -/
def constants : List UInt32 := [
  0x428a2f98, 0x71374491, 0xb5c0fbcf, 0xe9b5dba5, 0x3956c25b, 0x59f111f1, 0x923f82a4, 0xab1c5ed5,
  0xd807aa98, 0x12835b01, 0x243185be, 0x550c7dc3, 0x72be5d74, 0x80deb1fe, 0x9bdc06a7, 0xc19bf174,
  0xe49b69c1, 0xefbe4786, 0x0fc19dc6, 0x240ca1cc, 0x2de92c6f, 0x4a7484aa, 0x5cb0a9dc, 0x76f988da,
  0x983e5152, 0xa831c66d, 0xb00327c8, 0xbf597fc7, 0xc6e00bf3, 0xd5a79147, 0x06ca6351, 0x14292967,
  0x27b70a85, 0x2e1b2138, 0x4d2c6dfc, 0x53380d13, 0x650a7354, 0x766a0abb, 0x81c2c92e, 0x92722c85,
  0xa2bfe8a1, 0xa81a664b, 0xc24b8b70, 0xc76c51a3, 0xd192e819, 0xd6990624, 0xf40e3585, 0x106aa070,
  0x19a4c116, 0x1e376c08, 0x2748774c, 0x34b0bcb5, 0x391c0cb3, 0x4ed8aa4a, 0x5b9cca4f, 0x682e6ff3,
  0x748f82ee, 0x78a5636f, 0x84c87814, 0x8cc70208, 0x90befffa, 0xa4506ceb, 0xbef9a3f7, 0xc67178f2]

/-- The eight words that a block changes. -/
structure State where
  a : UInt32
  b : UInt32
  c : UInt32
  d : UInt32
  e : UInt32
  f : UInt32
  g : UInt32
  h : UInt32

/-- The state before the first block. -/
def initial : State :=
  ⟨0x6a09e667, 0xbb67ae85, 0x3c6ef372, 0xa54ff53a, 0x510e527f, 0x9b05688c, 0x1f83d9ab, 0x5be0cd19⟩

/-- A word turned right by `n` bits. -/
def rotate (x : UInt32) (n : UInt32) : UInt32 := (x >>> n) ||| (x <<< (32 - n))

/-! ### Padding -/

/-- The zero bytes between the mark and the length: the fewest that fill whole blocks. -/
def zeros (length : Nat) : Nat := (119 - length % 64) % 64

/-- The message, a mark, zeros and the length in bits. -/
def pad (message : Bytes) : Bytes :=
  message ++ 0x80 :: List.replicate (zeros message.length) 0
    ++ Bytes.bigEndian64 (8 * message.length)

/-- A padded message is a whole number of blocks. -/
theorem length_pad_mod (message : Bytes) : (pad message).length % 64 = 0 := by
  simp only [pad, zeros, Bytes.bigEndian64, List.length_append, List.length_cons,
    List.length_replicate, List.length_reverse, Bytes.length_littleEndian64]
  omega

/-- Four bytes as a word, the most significant first. -/
def wordOfBytes (a b c d : UInt8) : UInt32 :=
  (a.toUInt32 <<< 24) ||| (b.toUInt32 <<< 16) ||| (c.toUInt32 <<< 8) ||| d.toUInt32

/-- The bytes of a word, the most significant first. -/
def bytesOfWord (x : UInt32) : Bytes :=
  [(x >>> 24).toUInt8, (x >>> 16).toUInt8, (x >>> 8).toUInt8, x.toUInt8]

/-- The words of a byte string. -/
def words : Bytes → List UInt32
  | a :: b :: c :: d :: rest => wordOfBytes a b c d :: words rest
  | _ => []

/-! ### One block -/

/-- The word that follows the words of a schedule so far. -/
def nextWord (w : Array UInt32) : UInt32 :=
  let at16 := w.getD (w.size - 16) 0
  let at15 := w.getD (w.size - 15) 0
  let at7 := w.getD (w.size - 7) 0
  let at2 := w.getD (w.size - 2) 0
  let low := rotate at15 7 ^^^ rotate at15 18 ^^^ (at15 >>> 3)
  let high := rotate at2 17 ^^^ rotate at2 19 ^^^ (at2 >>> 10)
  at16 + low + at7 + high

/-- The schedule of a block of sixteen words. -/
def schedule (block : List UInt32) : List UInt32 :=
  ((List.range 48).foldl (fun w _ => w.push (nextWord w)) block.toArray).toList

/-- One round, with its constant and its word of the schedule. -/
def round (s : State) (kw : UInt32 × UInt32) : State :=
  let choice := (s.e &&& s.f) ^^^ (~~~s.e &&& s.g)
  let majority := (s.a &&& s.b) ^^^ (s.a &&& s.c) ^^^ (s.b &&& s.c)
  let turnE := rotate s.e 6 ^^^ rotate s.e 11 ^^^ rotate s.e 25
  let turnA := rotate s.a 2 ^^^ rotate s.a 13 ^^^ rotate s.a 22
  let t := s.h + turnE + choice + kw.1 + kw.2
  ⟨t + (turnA + majority), s.a, s.b, s.c, s.d + t, s.e, s.f, s.g⟩

/-- The words of two states, added. -/
def State.add (s t : State) : State :=
  ⟨s.a + t.a, s.b + t.b, s.c + t.c, s.d + t.d, s.e + t.e, s.f + t.f, s.g + t.g, s.h + t.h⟩

/-- What a block makes of the state. -/
def compress (s : State) (block : List UInt32) : State :=
  s.add ((constants.zip (schedule block)).foldl round s)

/-! ### The whole message -/

/-- What the blocks of sixteen words make of the state, one after the other. -/
def absorb (s : State) (ws : List UInt32) : State :=
  match ws with
  | [] => s
  | w :: rest => absorb (compress s (w :: rest.take 15)) (rest.drop 15)
termination_by ws.length
decreasing_by simp only [List.length_drop, List.length_cons]; omega

/-- A block alone. -/
theorem absorb_block (s : State) {w : UInt32} {ws : List UInt32} (h : ws.length ≤ 15) :
    absorb s (w :: ws) = compress s (w :: ws) := by
  rw [absorb, List.take_of_length_le h, List.drop_of_length_le h, absorb]

/-- The bytes of a state. -/
def State.bytes (s : State) : Bytes :=
  [s.a, s.b, s.c, s.d, s.e, s.f, s.g, s.h].flatMap bytesOfWord

/-- The SHA-256 digest of a message. -/
def digest (message : Bytes) : Bytes := (absorb initial (words (pad message))).bytes

/-- A short message is hashed as one block. -/
theorem digest_of_block {message : Bytes} (h : (words (pad message)).length = 16) :
    digest message = (compress initial (words (pad message))).bytes := by
  rw [digest]
  rcases hwords : words (pad message) with _ | ⟨w, ws⟩
  · rw [hwords] at h
    cases h
  · rw [hwords, List.length_cons] at h
    rw [absorb_block _ (by omega)]

theorem length_digest (message : Bytes) : (digest message).length = 32 := by
  simp [digest, State.bytes, bytesOfWord]

end SnapStore.Sha256
