import Mathlib.Data.List.Basic
import SnapStore.Snapshot.Strategy

/-!
# Reading a stream of pairs back

What is hashed for an aggregate is a stream of bytes, `SnapStore.Strategy.stream`. The path of a
pair can be read back from it, since its length comes first. The content cannot always: its
signature is a word or a digest, and nothing says which. A digest is any thirty-two bytes. If it
begins with the word for a missing path or for a directory, then the stream may as well go on
behind that word, and what is left of the digest is read as the beginning of further pairs.

This is the only way to read a stream wrongly (`SnapStore.Strategy.stream_eq_iff`): two lists of
pairs with the same stream are equal, or one of them is **forged** from the other
(`SnapStore.Strategy.Forged`). Nothing can be forged from a list in which no digest begins with one
of the two words (`SnapStore.Strategy.Forged.exists_digest`). A digest that does, and goes on as it
has to, will hardly be that of any content, but it is a digest like any other.
-/

namespace SnapStore

/-! ### Numbers in eight bytes -/

/-- A number of so many bytes is known from its bytes. -/
theorem Bytes.eq_of_shiftRight {n a b : Nat} (ha : a >>> (8 * n) = 0) (hb : b >>> (8 * n) = 0)
    (h : ∀ i < n, a >>> (8 * i) % 256 = b >>> (8 * i) % 256) : a = b := by
  induction n generalizing a b with
  | zero => exact ha.trans hb.symm
  | succ n ih =>
    have hshift : ∀ c i : Nat, (c >>> 8) >>> (8 * i) = c >>> (8 * (i + 1)) := by
      intro c i
      rw [← Nat.shiftRight_add, Nat.mul_add, Nat.add_comm]
    have hrest : a >>> 8 = b >>> 8 := by
      refine ih (by rw [hshift, ha]) (by rw [hshift, hb]) fun i hi => ?_
      rw [hshift, hshift]
      exact h (i + 1) (by omega)
    have hlast : a % 256 = b % 256 := h 0 (by omega)
    omega

/-- A number below `2 ^ 64` can be read back from its eight bytes. -/
theorem Bytes.littleEndian64_inj {a b : Nat} (ha : a < UInt64.size) (hb : b < UInt64.size)
    (h : littleEndian64 a = littleEndian64 b) : a = b := by
  have ha' : a >>> (8 * 8) = 0 := Nat.shiftRight_eq_zero a 64 ha
  have hb' : b >>> (8 * 8) = 0 := Nat.shiftRight_eq_zero b 64 hb
  refine eq_of_shiftRight ha' hb' fun i hi => ?_
  have hi' := List.map_inj_left.1 h i (List.mem_range.2 hi)
  simpa using congrArg UInt8.toNat hi'

/-! ### Signatures -/

namespace Content

/-- The contents whose signature is a word. -/
def IsWord (c : Content) : Prop := c = .missing ∨ c = .directory

theorem signature_missing : signature .missing = [77, 73, 83, 83, 73, 78, 71] := by decide

theorem signature_directory : signature .directory = [68, 73, 82] := by decide

/-- A word is shorter than a digest. -/
theorem IsWord.length_signature {c : Content} (hc : c.IsWord) : c.signature.length ≤ 32 := by
  rcases hc with rfl | rfl
  · rw [signature_missing]
    decide
  · rw [signature_directory]
    decide

/-- Neither word begins as the other one does. -/
theorem IsWord.eq_of_signature_append {c d : Content} (hc : c.IsWord) (hd : d.IsWord)
    {xs ys : Bytes} (h : c.signature ++ xs = d.signature ++ ys) : c = d ∧ xs = ys := by
  rcases hc with rfl | rfl <;> rcases hd with rfl | rfl
  · exact ⟨rfl, List.append_cancel_left h⟩
  · simp [signature_missing, signature_directory] at h
  · simp [signature_missing, signature_directory] at h
  · exact ⟨rfl, List.append_cancel_left h⟩

/-- The bytes of a digest and of what follows it are those of a word and of what follows that. -/
def Reads (digest : Digest) (xs : Bytes) (c : Content) (ys : Bytes) : Prop :=
  c.IsWord ∧ digest.bytes ++ xs = c.signature ++ ys

/-- The digest begins with the word for a missing path or for a directory. -/
def BeginsWithWord (digest : Digest) : Prop :=
  ∃ c : Content, c.IsWord ∧ c.signature <+: digest.bytes

theorem Reads.beginsWithWord {digest : Digest} {xs ys : Bytes} {c : Content}
    (h : Reads digest xs c ys) : BeginsWithWord digest := by
  have hword : c.signature <+: digest.bytes ++ xs := ⟨ys, h.2.symm⟩
  refine ⟨c, h.1, List.prefix_of_prefix_length_le hword (List.prefix_append _ _) ?_⟩
  rw [digest.length_bytes]
  exact h.1.length_signature

/-- **Where a signature ends** is certain, unless a digest passes for a word. -/
theorem signature_append_eq_iff {c d : Content} {xs ys : Bytes} :
    c.signature ++ xs = d.signature ++ ys ↔
      (c = d ∧ xs = ys) ∨ (∃ digest, c = .file digest ∧ Reads digest xs d ys) ∨
        ∃ digest, d = .file digest ∧ Reads digest ys c xs := by
  constructor
  · intro h
    have hword : ∀ e : Content, e.IsWord ∨ ∃ digest, e = .file digest := by
      rintro (_ | _ | digest)
      · exact Or.inl (Or.inl rfl)
      · exact Or.inl (Or.inr rfl)
      · exact Or.inr ⟨digest, rfl⟩
    rcases hword c with hc | ⟨digest, rfl⟩ <;> rcases hword d with hd | ⟨digest', rfl⟩
    · exact Or.inl (hc.eq_of_signature_append hd h)
    · exact Or.inr (Or.inr ⟨digest', rfl, hc, h.symm⟩)
    · exact Or.inr (Or.inl ⟨digest, rfl, hd, h⟩)
    · have hlength : digest.bytes.length = digest'.bytes.length := by
        rw [digest.length_bytes, digest'.length_bytes]
      obtain ⟨hbytes, hrest⟩ := List.append_inj h hlength
      have hdigest : digest = digest' := by
        cases digest
        cases digest'
        cases hbytes
        rfl
      exact Or.inl ⟨congrArg _ hdigest, hrest⟩
  · rintro (⟨rfl, rfl⟩ | ⟨digest, rfl, h⟩ | ⟨digest, rfl, h⟩)
    · rfl
    · exact h.2
    · exact h.2.symm

end Content

/-! ### Pairs -/

namespace Strategy

open Content (Reads BeginsWithWord)

/-- The length of the path can be written in eight bytes. -/
def Pair.Fits (p : Pair) : Prop := (Utf8.encode p.1).length < UInt64.size

/-- **Where a path ends** is certain. -/
theorem encodePair_append_eq_iff {p q : Pair} (hp : p.Fits) (hq : q.Fits) {xs ys : Bytes} :
    encodePair p ++ xs = encodePair q ++ ys ↔
      p.1 = q.1 ∧ p.2.signature ++ xs = q.2.signature ++ ys := by
  constructor
  · intro h
    simp only [encodePair, List.append_assoc] at h
    obtain ⟨hlength, hrest⟩ := List.append_inj h
      (by rw [Bytes.length_littleEndian64, Bytes.length_littleEndian64])
    obtain ⟨hpath, hcontent⟩ := List.append_inj hrest (Bytes.littleEndian64_inj hp hq hlength)
    exact ⟨Utf8.encode_injective hpath, hcontent⟩
  · rintro ⟨hpath, hcontent⟩
    simp only [encodePair, List.append_assoc, hpath, hcontent]

theorem encodePair_ne_nil (p : Pair) : encodePair p ≠ [] := by
  intro h
  have hlength := congrArg List.length h
  simp [encodePair, Bytes.length_littleEndian64] at hlength

/-! ### Streams -/

/-- **The second list is read where the first was written**: the two are equal up to a pair with
the same path in both, whose content is a file in the first and a word in the second; and the
digest of the file passes for that word. -/
inductive Forged : List Pair → List Pair → Prop
  /-- The lists part here. -/
  | here {path : String} {digest : Digest} {c : Content} {ps qs : List Pair}
      (h : Reads digest (stream ps) c (stream qs)) :
      Forged ((path, .file digest) :: ps) ((path, c) :: qs)
  /-- The lists part further on. -/
  | later {p : Pair} {ps qs : List Pair} (h : Forged ps qs) : Forged (p :: ps) (p :: qs)

theorem stream_cons (p : Pair) (ps : List Pair) : stream (p :: ps) = encodePair p ++ stream ps :=
  List.flatMap_cons

/-- A list that something is forged from has a digest that begins with a word. -/
theorem Forged.exists_digest {ps qs : List Pair} (h : Forged ps qs) :
    ∃ path digest, (path, Content.file digest) ∈ ps ∧ BeginsWithWord digest := by
  induction h with
  | @here path digest c ps qs h =>
    exact ⟨path, digest, List.mem_cons_self, h.beginsWithWord⟩
  | later _ ih =>
    obtain ⟨path, digest, hmem, hdigest⟩ := ih
    exact ⟨path, digest, List.mem_cons_of_mem _ hmem, hdigest⟩

theorem Forged.stream_eq {ps qs : List Pair} (h : Forged ps qs) : stream ps = stream qs := by
  induction h with
  | here h => simp only [stream_cons, encodePair, List.append_assoc, Content.signature, h.2]
  | later _ ih => rw [stream_cons, stream_cons, ih]

/-- **Lists with the same stream** are equal, or one is forged from the other. -/
theorem eq_or_forged_of_stream_eq {ps qs : List Pair} (hps : ∀ p ∈ ps, p.Fits)
    (hqs : ∀ q ∈ qs, q.Fits) (h : stream ps = stream qs) :
    ps = qs ∨ Forged ps qs ∨ Forged qs ps := by
  induction ps generalizing qs with
  | nil =>
    cases qs with
    | nil => exact Or.inl rfl
    | cons q qs => exact absurd (List.append_eq_nil_iff.1 h.symm).1 (encodePair_ne_nil q)
  | cons p ps ih =>
    cases qs with
    | nil => exact absurd (List.append_eq_nil_iff.1 h).1 (encodePair_ne_nil p)
    | cons q qs =>
      rw [stream_cons, stream_cons,
        encodePair_append_eq_iff (hps p List.mem_cons_self) (hqs q List.mem_cons_self)] at h
      obtain ⟨path, c⟩ := p
      obtain ⟨path', d⟩ := q
      obtain ⟨rfl, hcontent⟩ : path = path' ∧ _ := h
      rcases Content.signature_append_eq_iff.1 hcontent with
        ⟨rfl, hrest⟩ | ⟨digest, rfl, hreads⟩ | ⟨digest, rfl, hreads⟩
      · rcases ih (fun p hp => hps p (List.mem_cons_of_mem _ hp))
          (fun q hq => hqs q (List.mem_cons_of_mem _ hq)) hrest with rfl | hforged | hforged
        · exact Or.inl rfl
        · exact Or.inr (Or.inl hforged.later)
        · exact Or.inr (Or.inr hforged.later)
      · exact Or.inr (Or.inl (.here hreads))
      · exact Or.inr (Or.inr (.here hreads))

/-- **Two lists have the same stream** if and only if they are equal or one is forged from the
other. -/
theorem stream_eq_iff {ps qs : List Pair} (hps : ∀ p ∈ ps, p.Fits) (hqs : ∀ q ∈ qs, q.Fits) :
    stream ps = stream qs ↔ ps = qs ∨ Forged ps qs ∨ Forged qs ps := by
  refine ⟨eq_or_forged_of_stream_eq hps hqs, ?_⟩
  rintro (rfl | h | h)
  · rfl
  · exact h.stream_eq
  · exact h.stream_eq.symm

/-- **What can be told from a stream**, and from its digest. Two lists with the same stream are
equal or one is forged from the other; so they are equal if none of their digests begins with a
word. And where the digests of two streams agree for no such reason, two messages have the same
digest. -/
theorem stream_unambiguous {ps qs : List Pair} (hps : ∀ p ∈ ps, p.Fits) (hqs : ∀ q ∈ qs, q.Fits) :
    (stream ps = stream qs ↔ ps = qs ∨ Forged ps qs ∨ Forged qs ps) ∧
      ((∀ path digest, (path, .file digest) ∈ ps ++ qs → ¬ BeginsWithWord digest) →
        stream ps = stream qs → ps = qs) ∧
      (Digest.ofMessage (stream ps) = Digest.ofMessage (stream qs) →
        ps = qs ∨ Forged ps qs ∨ Forged qs ps ∨
          stream ps ≠ stream qs ∧ Sha256.digest (stream ps) = Sha256.digest (stream qs)) := by
  refine ⟨stream_eq_iff hps hqs, fun hplain hstream => ?_, fun hdigest => ?_⟩
  · rcases (stream_eq_iff hps hqs).1 hstream with heq | hforged | hforged
    · exact heq
    · obtain ⟨path, digest, hmem, hword⟩ := hforged.exists_digest
      exact absurd hword (hplain path digest (List.mem_append_left _ hmem))
    · obtain ⟨path, digest, hmem, hword⟩ := hforged.exists_digest
      exact absurd hword (hplain path digest (List.mem_append_right _ hmem))
  · by_cases hstream : stream ps = stream qs
    · rcases (stream_eq_iff hps hqs).1 hstream with heq | hforged | hforged
      · exact Or.inl heq
      · exact Or.inr (Or.inl hforged)
      · exact Or.inr (Or.inr (Or.inl hforged))
    · exact Or.inr (Or.inr (Or.inr ⟨hstream, congrArg Digest.bytes hdigest⟩))

/-- A digest that is read as a directory, and a second directory whose path has eighteen bytes. -/
def twoDirectoriesDigest : Digest where
  bytes := Utf8.encode "DIR" ++ Bytes.littleEndian64 18 ++ Utf8.encode "/aaaaaaaaaaaaaaaaa" ++
    Utf8.encode "DIR"
  length_bytes := by decide

/-- The stream of two directories is that of one file, too. -/
theorem stream_not_injective :
    let ps : List Pair := [("/a", .file twoDirectoriesDigest)]
    let qs : List Pair := [("/a", .directory), ("/aaaaaaaaaaaaaaaaa", .directory)]
    (∀ p ∈ ps ++ qs, p.Fits) ∧ stream ps = stream qs ∧ ps ≠ qs := by
  intro ps qs
  have hfits : ∀ p ∈ ps ++ qs, (Utf8.encode p.1).length < UInt64.size := by decide
  exact ⟨hfits, by decide, by decide⟩

/-- It cannot be told from them, and a file with another digest can. -/
theorem stream_unambiguous_of_files :
    let ps : List Pair := [("/a", .file twoDirectoriesDigest)]
    let qs : List Pair := [("/a", .directory), ("/aaaaaaaaaaaaaaaaa", .directory)]
    let rs : List Pair := [("/a", .file (.uniform 7))]
    (∀ p ∈ ps, p.Fits) ∧ (∀ q ∈ qs, q.Fits) ∧ (∀ r ∈ rs, r.Fits) ∧
      (Forged ps qs ∨ Forged qs ps) ∧
      (∀ path digest, (path, .file digest) ∈ rs ++ qs → ¬ BeginsWithWord digest) ∧
      stream rs ≠ stream qs := by
  intro ps qs rs
  have hps : ∀ p ∈ ps, (Utf8.encode p.1).length < UInt64.size := by decide
  have hqs : ∀ q ∈ qs, (Utf8.encode q.1).length < UInt64.size := by decide
  have hrs : ∀ r ∈ rs, (Utf8.encode r.1).length < UInt64.size := by decide
  have hplain : ∀ path digest, (path, .file digest) ∈ rs ++ qs → ¬ BeginsWithWord digest := by
    intro path digest hmem
    have hdigest : digest = .uniform 7 := by
      have h : path = "/a" ∧ digest = .uniform 7 := by simpa [rs, qs] using hmem
      exact h.2
    rintro ⟨c, rfl | rfl, hc⟩
    · rw [hdigest, Content.signature_missing] at hc
      exact absurd hc (by decide)
    · rw [hdigest, Content.signature_directory] at hc
      exact absurd hc (by decide)
  refine ⟨hps, hqs, hrs, ?_, hplain, fun h => ?_⟩
  · rcases (stream_unambiguous hps hqs).1.1 (by decide) with heq | hforged
    · exact absurd heq (by decide)
    · exact hforged
  · exact absurd ((stream_unambiguous hrs hqs).2.1 hplain h) (by decide)

end Strategy

end SnapStore
