import Mathlib.Data.Set.List
import SnapStore.Proofs.Path.Names

/-!
# Paths that are text

A walk passes over whatever has a path that is no text. Since a slash is never part of a longer
character, a text can be cut at a slash. So what is passed over is passed over with everything below
it (`SnapStore.Path.isSome_toString?_of_child`), and below a root that is text it is the names alone
that matter (`SnapStore.Path.isSome_toString?_below`).
-/

namespace SnapStore

open Bytes (slash)

namespace Utf8

/-- If a text takes one byte then that is a character. -/
theorem isUTF8FirstByte_of_encode {sep : String} {byte : UInt8} (hsep : encode sep = [byte]) :
    byte.IsUTF8FirstByte := by
  have hbytes : sep.toByteArray.data.toList = [byte] := hsep
  have hsize : sep.utf8ByteSize = 1 := by simpa using congrArg List.length hbytes
  have hvalid : (⟨0⟩ : String.Pos.Raw).IsValid sep := String.Pos.Raw.isValid_zero
  rcases String.Pos.Raw.isValid_iff_isUTF8FirstByte.1 hvalid with hend | ⟨hpos, hfirst⟩
  · have hzero : 0 = sep.utf8ByteSize := by simpa using congrArg String.Pos.Raw.byteIdx hend
    omega
  · have hbyte : sep.getUTF8Byte ⟨0⟩ hpos = byte := by
      change sep.toByteArray.data[0] = _
      rw [← Array.getElem_toList]
      simp [hbytes]
    rwa [hbyte] at hfirst

section Separator

variable {sep : String} {byte : UInt8} (hsep : encode sep = [byte])

include hsep

/-- What stands before such a character in a text is a text. -/
theorem exists_encode_of_append {s : String} {a b : Bytes} (h : encode s = a ++ byte :: b) :
    ∃ t, encode t = a := by
  have hbytes : s.toByteArray.data.toList = a ++ byte :: b := h
  have hsize : s.utf8ByteSize = a.length + (b.length + 1) := by
    simpa using congrArg List.length hbytes
  have hpos : (⟨a.length⟩ : String.Pos.Raw) < s.rawEndPos := by
    simp only [String.Pos.Raw.lt_iff, String.byteIdx_rawEndPos]
    omega
  have hvalid : (⟨a.length⟩ : String.Pos.Raw).IsValid s := by
    rw [String.Pos.Raw.isValid_iff_isUTF8FirstByte]
    refine Or.inr ⟨hpos, ?_⟩
    have hbyte : s.getUTF8Byte ⟨a.length⟩ hpos = byte := by
      change s.toByteArray.data[a.length] = _
      rw [← Array.getElem_toList]
      simp [hbytes]
    rw [hbyte]
    exact isUTF8FirstByte_of_encode hsep
  refine ⟨⟨s.toByteArray.extract 0 a.length, hvalid.isValidUTF8_extract_zero⟩, ?_⟩
  change (s.toByteArray.extract 0 a.length).data.toList = a
  simp [ByteArray.data_extract, hbytes]

/-- **A text can be cut at a character of one byte.** -/
theorem exists_eq_append_of_encode {s : String} {a b : Bytes} (h : encode s = a ++ byte :: b) :
    ∃ t u, s = t ++ sep ++ u ∧ encode t = a ∧ encode u = b := by
  obtain ⟨t, rfl⟩ := exists_encode_of_append hsep h
  have hbytes : (t ++ sep).toList.utf8Encode ++ ⟨b.toArray⟩ = s.toList.utf8Encode := by
    rw [String.utf8Encode_toList, String.utf8Encode_toList]
    refine ByteArray.ext (Array.ext' ?_)
    rw [ByteArray.data_append, Array.toList_append]
    change encode (t ++ sep) ++ b = encode s
    rw [encode_append, hsep, h, List.append_assoc]
    rfl
  obtain ⟨rest, hrest⟩ := List.isPrefix_of_utf8Encode_append_eq_utf8Encode _ hbytes
  have hs : s = t ++ sep ++ String.ofList rest := by
    rw [← String.toList_inj, String.toList_append, String.toList_ofList, hrest]
  refine ⟨t, String.ofList rest, hs, rfl, ?_⟩
  rw [hs, encode_append, encode_append, hsep, List.append_assoc, List.append_right_inj] at h
  exact (List.cons_inj_right byte).1 h

end Separator

/-- A character of one byte is in a text if its byte is, and the other way round. -/
theorem mem_encode_iff {ch : Char} {byte : UInt8} (hch : encode (String.singleton ch) = [byte])
    {s : String} : byte ∈ encode s ↔ ch ∈ s.toList := by
  constructor
  · intro h
    obtain ⟨a, b, hab⟩ := List.append_of_mem h
    obtain ⟨t, u, rfl, -, -⟩ := exists_eq_append_of_encode hch hab
    simp
  · intro h
    obtain ⟨front, back, hs⟩ := List.append_of_mem h
    have hparts : s = String.ofList front ++ String.singleton ch ++ String.ofList back := by
      rw [← String.toList_inj, String.toList_append, String.toList_append, String.toList_ofList,
        String.toList_ofList, hs]
      simp
    rw [hparts, encode_append, encode_append, hch]
    simp

theorem slash_mem_encode_iff {s : String} : slash ∈ encode s ↔ '/' ∈ s.toList := mem_encode_iff rfl

theorem encode_slash : encode "/" = [slash] := rfl

/-- Byte strings are the forms of some texts if each of them is. -/
theorem exists_map_encode_iff {ns : List Bytes} :
    (∃ segments : List String, segments.map encode = ns) ↔ ∀ n ∈ ns, ∃ s, encode s = n :=
  Set.ext_iff.1 (Set.range_list_map encode) ns

end Utf8

namespace Path

@[simp] theorem toString?_ofString (s : String) : (ofString s).toString? = some s :=
  Utf8.decode?_encode s

/-- A text joined on to a text is a text. -/
theorem isSome_toString?_child {p : Path} (hp : p.toString?.isSome = true) {n : Bytes}
    (hn : (Utf8.decode? n).isSome = true) : (p.child n).toString?.isSome = true := by
  obtain ⟨s, hs⟩ := Option.isSome_iff_exists.1 hp
  obtain ⟨t, ht⟩ := Option.isSome_iff_exists.1 hn
  have hbytes : p.bytes = Utf8.encode s := Utf8.decode?_eq_some_iff.1 hs
  have hname : n = Utf8.encode t := Utf8.decode?_eq_some_iff.1 ht
  have htext : ∃ u, (p.child n).bytes = Utf8.encode u := by
    unfold child
    rcases p.bytes.getLast? with _ | b
    · exact ⟨t, hname⟩
    · dsimp only
      split_ifs
      · exact ⟨s ++ t, by rw [Utf8.encode_append, hbytes, hname]⟩
      · refine ⟨s ++ ("/" ++ t), ?_⟩
        rw [Utf8.encode_append, Utf8.encode_append, hbytes, hname]
        rfl
  obtain ⟨u, hu⟩ := htext
  rw [toString?, hu, Utf8.decode?_encode]
  rfl

theorem isSome_toString?_below {p : Path} (hp : p.toString?.isSome = true) {ns : List Bytes}
    (hns : ∀ n ∈ ns, (Utf8.decode? n).isSome = true) : (p.below ns).toString?.isSome = true := by
  induction ns generalizing p with
  | nil => exact hp
  | cons n ns ih =>
    exact ih (isSome_toString?_child hp (hns n (by simp))) fun m hm =>
      hns m (List.mem_cons_of_mem _ hm)

/-- Below a path that is no text nothing is. -/
theorem isSome_toString?_of_child {p : Path} {n : Bytes}
    (h : (p.child n).toString?.isSome = true) : p.toString?.isSome = true := by
  obtain ⟨s, hs⟩ := Option.isSome_iff_exists.1 h
  have hbytes : (p.child n).bytes = Utf8.encode s := Utf8.decode?_eq_some_iff.1 hs
  have htext : ∃ t, Utf8.encode t = p.bytes := by
    unfold child at hbytes
    rcases hb : p.bytes.getLast? with _ | b
    · exact ⟨"", (List.getLast?_eq_none_iff.1 hb).symm⟩
    · rw [hb] at hbytes
      dsimp only at hbytes
      split_ifs at hbytes with hslash
      · obtain ⟨front, hfront⟩ := List.getLast?_eq_some_iff.1 (hslash ▸ hb)
        rw [hfront, List.append_assoc, List.singleton_append] at hbytes
        obtain ⟨t, ht⟩ := Utf8.exists_encode_of_append Utf8.encode_slash hbytes.symm
        refine ⟨t ++ "/", ?_⟩
        rw [Utf8.encode_append, ht, hfront]
        rfl
      · exact Utf8.exists_encode_of_append Utf8.encode_slash hbytes.symm
  obtain ⟨t, ht⟩ := htext
  rw [toString?, ← ht, Utf8.decode?_encode]
  rfl

/-- A canonical path ends in a text, if it ends in a name. -/
theorem exists_encode_of_fileName? {cwd : Except OsError Path} {p : Path} {c : String}
    (h : p.canonical cwd = .ok c) {n : Bytes} (hn : (ofString c).fileName? = some n) :
    ∃ name, n = Utf8.encode name := by
  obtain ⟨ns, -, hnames, hc⟩ := exists_names_of_canonical h
  rw [hc, fileName?_absoluteOfNames hnames] at hn
  obtain ⟨front, rfl⟩ := List.getLast?_eq_some_iff.1 hn
  -- The name is what stands after the last slash.
  have hbytes : ∃ a, Utf8.encode c = a ++ slash :: n := by
    have hjoined : Utf8.encode c = slash :: Bytes.joined (front ++ [n]) := congrArg Path.bytes hc
    by_cases hfront : front = []
    · exact ⟨[], by rw [hjoined, hfront]; rfl⟩
    · exact ⟨slash :: Bytes.joined front, by
        rw [hjoined, Bytes.joined, Pieces.joined_append_singleton _ hfront, List.cons_append]
        rfl⟩
  obtain ⟨a, ha⟩ := hbytes
  obtain ⟨-, name, -, -, hname⟩ := Utf8.exists_eq_append_of_encode Utf8.encode_slash ha
  exact ⟨name, hname.symm⟩

/-- Below a canonical path the names can be told. -/
theorem below_injective_of_canonical {cwd : Except OsError Path} {p : Path} {c : String}
    (h : p.canonical cwd = .ok c) {ms ns : List Bytes} (hms : ∀ n ∈ ms, n.IsName)
    (hns : ∀ n ∈ ns, n.IsName) (hsame : (ofString c).below ms = (ofString c).below ns) :
    ms = ns := by
  obtain ⟨front, -, hfront, hc⟩ := exists_names_of_canonical h
  have hnames : ∀ {ms : List Bytes}, (∀ n ∈ ms, n.IsName) → ∀ n ∈ front ++ ms, n.IsName :=
    fun hms n hn => (List.mem_append.1 hn).elim (hfront n) (hms n)
  rw [hc, absoluteOfNames_below hfront hms, absoluteOfNames_below hfront hns] at hsame
  have hcomponents := congrArg components hsame
  rw [components_absoluteOfNames (hnames hms),
    components_absoluteOfNames (hnames hns)] at hcomponents
  have hinjective : Function.Injective Component.name := fun _ _ h => Component.name.inj h
  have hall := List.map_injective_iff.2 hinjective (List.cons_inj_right _ |>.1 hcomponents)
  exact List.append_cancel_left hall

end Path

end SnapStore
