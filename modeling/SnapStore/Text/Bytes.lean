import SnapStore.Text.Pieces

/-!
# Byte strings

File names, file contents and the streams that are hashed are byte strings, and a
byte string is a list of bytes: `SnapStore.Bytes`. This file holds the few
operations on them that the rest of the library needs.

* `SnapStore.Bytes.split` cuts a byte string at every slash and
  `SnapStore.Bytes.joined` puts pieces together, after `SnapStore.Pieces`;
* `SnapStore.Bytes.hex` writes a byte string in lower-case hexadecimal;
* `SnapStore.Bytes.littleEndian64` and `SnapStore.Bytes.bigEndian64` write a number
  in eight bytes.

The order of byte strings is the lexicographic one that lists inherit from their
elements, and `SnapStore.Bytes.le` is its Boolean form, for sorting.
-/

namespace SnapStore

/-- A byte string. -/
abbrev Bytes := List UInt8

namespace Bytes

/-- The byte that separates the names of a path. -/
def slash : UInt8 := 0x2f

/-- The byte that introduces the extension of a file name. -/
def dot : UInt8 := 0x2e

/-- Lexicographic order, a shorter byte string before its extensions. -/
def le (a b : Bytes) : Bool := (compare a b).isLE

/-! ### Cutting at slashes -/

/-- The pieces between the slashes of a byte string. -/
def split (b : Bytes) : List Bytes := Pieces.split slash b

/-- The pieces with one slash between any two neighbours. -/
def joined (pieces : List Bytes) : Bytes := Pieces.joined slash pieces

/-! ### Hexadecimal -/

/-- The lower-case digit of a number below sixteen. -/
def hexDigit (n : Nat) : Char :=
  if n < 10 then Char.ofNat (48 + n) else Char.ofNat (87 + n)

/-- Two lower-case hexadecimal digits for every byte. -/
def hex (b : Bytes) : String :=
  String.ofList (b.flatMap fun x => [hexDigit (x.toNat / 16), hexDigit (x.toNat % 16)])

/-! ### Numbers in eight bytes -/

/-- A number below `2 ^ 64` in eight bytes, the least significant first. -/
def littleEndian64 (n : Nat) : Bytes :=
  (List.range 8).map fun i => UInt8.ofNat (n >>> (8 * i))

/-- A number below `2 ^ 64` in eight bytes, the most significant first. -/
def bigEndian64 (n : Nat) : Bytes := (littleEndian64 n).reverse

theorem length_littleEndian64 (n : Nat) : (littleEndian64 n).length = 8 := by
  simp [littleEndian64]

end Bytes

end SnapStore
