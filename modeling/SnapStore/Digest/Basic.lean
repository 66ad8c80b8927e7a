import SnapStore.Digest.Sha256

/-!
# Digests

A `SnapStore.Digest` is the thirty-two bytes that stand for a content.
`SnapStore.Digest.ofMessage` is the digest of a byte string; no other property of it is
used than that equal byte strings have equal digests. Digests are ordered by their bytes
and shown in lower-case hexadecimal.
-/

namespace SnapStore

/-- A digest of 256 bits. -/
structure Digest where
  /-- The bytes. -/
  bytes : Bytes
  /-- There are thirty-two of them. -/
  length_bytes : bytes.length = 32
  deriving DecidableEq

namespace Digest

/-- The digest of a byte string. -/
def ofMessage (message : Bytes) : Digest := ⟨Sha256.digest message, Sha256.length_digest message⟩

/-- The digest of these bytes, if there are as many as a digest has. -/
def ofBytes? (bytes : Bytes) : Option Digest :=
  if h : bytes.length = 32 then some ⟨bytes, h⟩ else none

/-- The digest whose bytes are all the same. -/
def uniform (b : UInt8) : Digest := ⟨List.replicate 32 b, List.length_replicate⟩

/-- The digest in lower-case hexadecimal. -/
def hex (d : Digest) : String := d.bytes.hex

/-- The digest as it stands in diagnostics. -/
def diagnostic (d : Digest) : String := "HashCode(" ++ d.hex ++ ")"

/-- The order of the bytes. -/
def le (d e : Digest) : Bool := d.bytes.le e.bytes

end Digest

end SnapStore
