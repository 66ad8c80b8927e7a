import SnapStore.Text.Bytes

/-!
# Text in bytes

A `String` is text; a path or a file holds bytes that may or may not be the UTF-8
form of some text. `SnapStore.Utf8.encode` writes text as bytes and
`SnapStore.Utf8.decode?` reads it back, refusing whatever is not UTF-8: the two are
inverse to each other (`SnapStore.Utf8.decode?_eq_some_iff`).

`SnapStore.Utf8.repair` is for messages, which must show a path whatever it holds. It
puts the replacement character U+FFFD in the place of every **maximal invalid part**:
the longest start of a well-formed character that is cut short, or else a single byte
that can start nothing. Text comes out unchanged (`SnapStore.Utf8.repair_encode`).
-/

namespace SnapStore.Utf8

/-- The UTF-8 form of a text. -/
def encode (s : String) : Bytes := s.toUTF8.data.toList

/-- The text that the bytes are the UTF-8 form of, if there is one. -/
def decode? (b : Bytes) : Option String := String.fromUTF8? ⟨b.toArray⟩

theorem decode?_encode (s : String) : decode? (encode s) = some s := by
  have h : ByteArray.IsValidUTF8 (ByteArray.mk s.toUTF8.data.toList.toArray) := by
    simpa using s.isValidUTF8
  rw [decode?, encode, String.fromUTF8?, dif_pos h]
  rfl

theorem encode_of_decode? {b : Bytes} {s : String} (h : decode? b = some s) : encode s = b := by
  simp only [decode?, String.fromUTF8?] at h
  split at h
  · cases h; rfl
  · cases h

/-- Reading accepts exactly what writing produces. -/
theorem decode?_eq_some_iff {b : Bytes} {s : String} : decode? b = some s ↔ b = encode s :=
  ⟨fun h => (encode_of_decode? h).symm, fun h => h ▸ decode?_encode s⟩

theorem encode_injective {s t : String} (h : encode s = encode t) : s = t := by
  simpa [decode?_encode] using congrArg decode? h

theorem encode_append (s t : String) : encode (s ++ t) = encode s ++ encode t := by
  simp [encode, String.toUTF8_eq_toByteArray, String.toByteArray_append, ByteArray.data_append]

/-! ### Repair -/

/-- The replacement character. -/
def replacement : Char := '\uFFFD'

/-- What the first byte of a character promises: how many bytes follow it, and the
range that the first of them must lie in. A byte that can start no character promises
nothing. -/
def promise (b : UInt8) : Option (Nat × UInt8 × UInt8) :=
  if b < 0x80 then some (0, 0x80, 0xBF)
  else if 0xC2 ≤ b && b ≤ 0xDF then some (1, 0x80, 0xBF)
  else if b = 0xE0 then some (2, 0xA0, 0xBF)
  else if b = 0xED then some (2, 0x80, 0x9F)
  else if 0xE1 ≤ b && b ≤ 0xEF then some (2, 0x80, 0xBF)
  else if b = 0xF0 then some (3, 0x90, 0xBF)
  else if 0xF1 ≤ b && b ≤ 0xF3 then some (3, 0x80, 0xBF)
  else if b = 0xF4 then some (3, 0x80, 0x8F)
  else none

/-- How many of the `n` promised bytes are there, the first in the given range and the
others in the range of every later byte. -/
def kept : Nat → UInt8 → UInt8 → Bytes → Nat
  | n + 1, low, high, b :: bs => if low ≤ b && b ≤ high then kept n 0x80 0xBF bs + 1 else 0
  | _, _, _, _ => 0

/-- The code point whose first byte is `b`, with `n` bytes to follow. -/
def codePoint (b : UInt8) (n : Nat) (following : Bytes) : Nat :=
  let lead := match n with
    | 0 => b.toNat
    | 1 => b.toNat % 0x20
    | 2 => b.toNat % 0x10
    | _ => b.toNat % 0x08
  (following.take n).foldl (fun c x => c * 0x40 + x.toNat % 0x40) lead

/-- The character that starts here, or the replacement character, and how many bytes
after the first belong to it. -/
def firstChar (b : UInt8) (bs : Bytes) : Char × Nat :=
  match promise b with
  | none => (replacement, 0)
  | some (n, low, high) =>
    let k := kept n low high bs
    if k = n then (Char.ofNat (codePoint b n bs), n) else (replacement, k)

/-- Reads characters and invalid parts off a byte string whose first `skip` bytes have
been dealt with. -/
def scan : Nat → Bytes → List Char
  | _, [] => []
  | skip + 1, _ :: bs => scan skip bs
  | 0, b :: bs => (firstChar b bs).1 :: scan (firstChar b bs).2 bs

/-- The text of the bytes, with U+FFFD for every maximal invalid part. -/
def repair (b : Bytes) : String :=
  match decode? b with
  | some s => s
  | none => String.ofList (scan 0 b)

/-- Text needs no repair. -/
theorem repair_encode (s : String) : repair (encode s) = s := by
  simp [repair, decode?_encode]

-- A character that is cut short is one invalid part.
example : repair [0x61, 0xF0, 0x9F, 0x98, 0x62] = "a\uFFFDb" := by decide

-- A surrogate has no UTF-8 form: none of its three bytes belongs to a character.
example : repair [0xED, 0xA0, 0x80] = "\uFFFD\uFFFD\uFFFD" := by decide

end SnapStore.Utf8
