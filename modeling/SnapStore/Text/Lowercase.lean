import SnapStore.Text.LetterTables

/-!
# Lower case

`SnapStore.lowercase` folds a text to lower case by the default rules of Unicode. All
characters are folded on their own but for two:

* a capital I with a dot above has a lower-case form of two characters;
* a capital sigma becomes the final form where a word ends, that is, when a letter with
  case stands before it and none after it, characters that do not end a word left out of
  account (`SnapStore.Letters.endsWord`).

ASCII is folded without a look at the tables, so that on ASCII text the function is the
familiar one (`SnapStore.lowercaseChar_of_ascii`).
-/

namespace SnapStore

namespace Letters

/-- Whether a code point lies in one of the ranges. -/
def within (ranges : List (Nat × Nat)) (c : Char) : Bool :=
  ranges.any fun r => r.1 ≤ c.toNat && c.toNat ≤ r.2

/-- Whether the first character that is not skipped has case. -/
def reachesCased (cs : List Char) : Bool :=
  match cs.dropWhile (within ignorableRanges) with
  | [] => false
  | c :: _ => within casedRanges c

/-- Whether a word ends between what stands before, nearest character first, and what
follows. -/
def endsWord (before after : List Char) : Bool :=
  reachesCased before && !reachesCased after

/-- The lower-case form by the table, for characters beyond ASCII. -/
def lowerByTable (c : Char) : Char :=
  match lowerRuns.find? fun r => r.first ≤ c.toNat && c.toNat ≤ r.last &&
      (c.toNat - r.first) % r.step == 0 with
  | some r => Char.ofNat (c.toNat + r.shift).toNat
  | none => c

end Letters

/-- The lower-case form of a character that stands alone. -/
def lowercaseChar (c : Char) : Char :=
  if c.toNat < 0x80 then c.toLower else Letters.lowerByTable c

/-- The lower-case form of a text, given what stands before it, nearest character first. -/
def lowercaseAfter (before : List Char) : List Char → List Char
  | [] => []
  | c :: cs =>
    let folded :=
      if c = 'Σ' then [if Letters.endsWord before cs then 'ς' else 'σ']
      else if c = 'İ' then ['i', '\u0307']
      else [lowercaseChar c]
    folded ++ lowercaseAfter (c :: before) cs

/-- The lower-case form of a text. -/
def lowercase (s : String) : String := String.ofList (lowercaseAfter [] s.toList)

/-- On ASCII, folding is the familiar one. -/
theorem lowercaseChar_of_ascii {c : Char} (h : c.toNat < 0x80) :
    lowercaseChar c = c.toLower := by
  simp [lowercaseChar, h]

end SnapStore
