import Mathlib.Data.List.Basic
import SnapStore.Path.Canonical

/-!
# Names in paths

A path is read through its components, and a component that is not a root or a dot is a
**name** (`SnapStore.Bytes.IsName`): not empty, not `.` or `..`, and without a slash. This file
computes components where paths are put together, so that later files need not cut paths at
slashes again:

* `SnapStore.Path.components_child` – a name joined on is one more component, however the path
  before it is spelled;
* `SnapStore.Path.components_ofNames` and `SnapStore.Path.components_absoluteOfNames` – a path
  written from names has these names;
* `SnapStore.Path.canonical_ofString` – the canonical form is a **normal form**: it is its own
  canonical form, whatever the current directory.

The one case to watch is the first piece of a path. An empty first piece is the root if
something follows it and nothing at all otherwise, and a dot there is a component while dots
further on are not.
-/

namespace SnapStore

/-- What can name an entry of a directory. -/
def Bytes.IsName (n : Bytes) : Prop :=
  n ≠ [] ∧ slash ∉ n ∧ n ≠ [dot] ∧ n ≠ [dot, dot]

instance (n : Bytes) : Decidable n.IsName := by
  unfold Bytes.IsName; infer_instance

namespace Pieces

variable {α : Type} [DecidableEq α]

/-- A list is cut at a given separator and on both sides of it. -/
theorem split_append (sep : α) (xs ys : List α) :
    split sep (xs ++ sep :: ys) = split sep xs ++ split sep ys := by
  induction xs with
  | nil => exact split_cons_sep sep ys
  | cons x xs ih =>
    rw [List.cons_append]
    by_cases hx : x = sep
    · rw [hx, split_cons_sep, split_cons_sep, ih, List.cons_append]
    · obtain ⟨piece, pieces, hs, hc⟩ := split_cons_of_ne hx xs
      obtain ⟨piece', pieces', hs', hc'⟩ := split_cons_of_ne hx (xs ++ sep :: ys)
      rw [ih, hs, List.cons_append, List.cons.injEq] at hs'
      rw [hc, hc', ← hs'.1, ← hs'.2, List.cons_append]

omit [DecidableEq α] in
theorem joined_append_singleton (sep : α) {pieces : List (List α)} (hne : pieces ≠ [])
    (last : List α) : joined sep (pieces ++ [last]) = joined sep pieces ++ sep :: last := by
  induction pieces with
  | nil => exact absurd rfl hne
  | cons piece pieces ih =>
    cases pieces with
    | nil => rfl
    | cons next pieces =>
      have h := ih (by simp)
      rw [List.cons_append] at h
      rw [List.cons_append, List.cons_append, joined, joined, h, List.append_assoc,
        List.cons_append]

end Pieces

namespace Path

open Bytes (slash dot)

/-! ### Pieces and steps -/

theorem stepsOfPiece_of_isName {n : Bytes} (h : n.IsName) : stepsOfPiece n = [.name n] := by
  rw [stepsOfPiece, if_neg h.1, if_neg h.2.2.1, if_neg h.2.2.2]

theorem stepsOfFirst_of_isName {n : Bytes} (h : n.IsName) (more : Bool) :
    stepsOfFirst n more = [.name n] := by
  rw [stepsOfFirst, if_neg (by simp [h.1]), if_neg h.2.2.1, stepsOfPiece_of_isName h]

/-- The components of a byte string that a slash follows. -/
def stepsBeforeSlash (b : Bytes) : List Component :=
  match b.split with
  | [] => []
  | first :: rest => stepsOfFirst first true ++ rest.flatMap stepsOfPiece

/-- **A path can be read piece by piece**: before a slash as the start of a path, after it as
pieces that are not the first. -/
theorem components_append_slash (b tail : Bytes) :
    (⟨b ++ Bytes.slash :: tail⟩ : Path).components
      = stepsBeforeSlash b ++ tail.split.flatMap stepsOfPiece := by
  have hsplit : (b ++ Bytes.slash :: tail).split = b.split ++ tail.split :=
    Pieces.split_append _ _ _
  rw [components, stepsBeforeSlash, hsplit]
  rcases hb : b.split with _ | ⟨first, rest⟩
  · exact absurd hb (Pieces.split_ne_nil _ _)
  · have hmore : rest ++ tail.split ≠ [] := by
      simp [show tail.split ≠ [] from Pieces.split_ne_nil _ _]
    simp only [List.cons_append, List.flatMap_append, List.append_assoc,
      List.isEmpty_eq_false_iff.2 hmore, Bool.not_false]

/-- A slash to come makes a difference only to the empty path. -/
theorem stepsBeforeSlash_of_ne_nil {b : Bytes} (hb : b ≠ []) :
    stepsBeforeSlash b = (⟨b⟩ : Path).components := by
  have hjoined : Pieces.joined Bytes.slash b.split = b := Pieces.joined_split _ _
  rw [components, stepsBeforeSlash]
  rcases hs : b.split with _ | ⟨first, rest⟩
  · rfl
  · rw [hs] at hjoined
    rcases rest with _ | ⟨next, rest⟩
    · have hfirst : first ≠ [] := by
        rintro rfl
        exact hb hjoined.symm
      simp [stepsOfFirst, hfirst]
    · rfl

theorem components_of_isName {n : Bytes} (hn : n.IsName) :
    (⟨n⟩ : Path).components = [.name n] := by
  have hsplit : n.split = [n] := Pieces.split_of_notMem hn.2.1
  rw [components, hsplit]
  exact congrArg (· ++ []) (stepsOfFirst_of_isName hn _)

/-- **What is joined on comes after the components** that are there, in pieces that are not the
first, however the path before it is spelled. -/
theorem components_child_of_ne_nil {p : Path} (hp : p.bytes ≠ []) (b : Bytes) :
    (p.child b).components = p.components ++ b.split.flatMap stepsOfPiece := by
  obtain ⟨bytes⟩ := p
  obtain ⟨front, last, rfl⟩ := (List.eq_nil_or_concat' bytes).resolve_left hp
  by_cases hlast : last = Bytes.slash
  · -- The slash is there already.
    have hchild : (⟨front ++ [last]⟩ : Path).child b = ⟨front ++ Bytes.slash :: b⟩ := by
      simp [child, hlast]
    rw [hchild, hlast, components_append_slash, components_append_slash]
    exact congrArg (· ++ _) (List.append_nil _).symm
  · have hchild : (⟨front ++ [last]⟩ : Path).child b = ⟨(front ++ [last]) ++ Bytes.slash :: b⟩ := by
      simp [child, hlast]
    rw [hchild, components_append_slash, stepsBeforeSlash_of_ne_nil (by simp)]

theorem flatMap_stepsOfPiece_of_isName {n : Bytes} (hn : n.IsName) :
    n.split.flatMap stepsOfPiece = [.name n] := by
  rw [show n.split = [n] from Pieces.split_of_notMem hn.2.1, List.flatMap_singleton,
    stepsOfPiece_of_isName hn]

/-- **A name joined on is one more component.** -/
theorem components_child (p : Path) {n : Bytes} (hn : n.IsName) :
    (p.child n).components = p.components ++ [.name n] := by
  obtain ⟨b⟩ := p
  by_cases hb : b = []
  · rw [hb]
    exact components_of_isName hn
  · rw [components_child_of_ne_nil hb, flatMap_stepsOfPiece_of_isName hn]

/-! ### Paths written from names -/

theorem flatMap_stepsOfPiece {ns : List Bytes} (h : ∀ n ∈ ns, n.IsName) :
    ns.flatMap stepsOfPiece = ns.map .name := by
  induction ns with
  | nil => rfl
  | cons n ns ih =>
    rw [List.flatMap_cons, stepsOfPiece_of_isName (h n (by simp)),
      ih fun m hm => h m (List.mem_cons_of_mem _ hm)]
    rfl

theorem split_joined_of_isName {ns : List Bytes} (hne : ns ≠ []) (h : ∀ n ∈ ns, n.IsName) :
    (Bytes.joined ns).split = ns :=
  Pieces.split_joined hne fun n hn => (h n hn).2.1

theorem components_ofNames {ns : List Bytes} (h : ∀ n ∈ ns, n.IsName) :
    (ofNames ns).components = ns.map .name := by
  rcases ns with _ | ⟨n, ns⟩
  · rfl
  · change (⟨Bytes.joined (n :: ns)⟩ : Path).components = _
    rw [components, split_joined_of_isName (by simp) h]
    change stepsOfFirst n _ ++ ns.flatMap stepsOfPiece = _
    rw [stepsOfFirst_of_isName (h n (by simp)),
      flatMap_stepsOfPiece fun m hm => h m (List.mem_cons_of_mem _ hm)]
    rfl

theorem components_absoluteOfNames {ns : List Bytes} (h : ∀ n ∈ ns, n.IsName) :
    (absoluteOfNames ns).components = .root :: ns.map .name := by
  change (⟨[] ++ Bytes.slash :: Bytes.joined ns⟩ : Path).components = _
  rw [components_append_slash]
  rcases ns with _ | ⟨n, ns⟩
  · rfl
  · rw [split_joined_of_isName (by simp) h, flatMap_stepsOfPiece h]
    rfl

/-- A path that is spelled out of names ends in the last of them. -/
theorem fileName?_absoluteOfNames {ns : List Bytes} (h : ∀ n ∈ ns, n.IsName) :
    (absoluteOfNames ns).fileName? = ns.getLast? := by
  rw [fileName?, components_absoluteOfNames h, List.getLast?_cons, List.getLast?_map]
  rcases ns.getLast? with _ | n <;> rfl

/-- The last byte of joined names is no slash. -/
theorem getLast?_joined {ns : List Bytes} (hne : ns ≠ []) (h : ∀ n ∈ ns, n.IsName) :
    (Bytes.joined ns).getLast? ≠ none ∧ (Bytes.joined ns).getLast? ≠ some slash := by
  obtain ⟨front, last, rfl⟩ := (List.eq_nil_or_concat' ns).resolve_left hne
  obtain ⟨hlast, hslash, -⟩ := h last (by simp)
  -- Joined names end in the last of them.
  have hend : ∃ b, Bytes.joined (front ++ [last]) = b ++ last := by
    by_cases hfront : front = []
    · exact ⟨[], by rw [hfront]; rfl⟩
    · exact ⟨Bytes.joined front ++ [slash], by
        rw [Bytes.joined, Pieces.joined_append_singleton _ hfront, List.append_assoc]
        rfl⟩
  obtain ⟨b, hb⟩ := hend
  rw [hb, List.getLast?_append_of_ne_nil _ hlast]
  refine ⟨by simpa using hlast, fun hcon => hslash ?_⟩
  exact List.mem_of_getLast? hcon

/-- A name joined on to an absolute path written from names is written after them. -/
theorem absoluteOfNames_child {ns : List Bytes} (h : ∀ n ∈ ns, n.IsName) (n : Bytes) :
    (absoluteOfNames ns).child n = absoluteOfNames (ns ++ [n]) := by
  by_cases hne : ns = []
  · rw [hne]
    rfl
  · obtain ⟨hnone, hslash⟩ := getLast?_joined hne h
    have hlast : (slash :: Bytes.joined ns).getLast? = (Bytes.joined ns).getLast? := by
      rw [List.getLast?_cons]
      rcases hl : (Bytes.joined ns).getLast? with _ | b
      · exact absurd hl hnone
      · rfl
    rw [child, absoluteOfNames, hlast]
    rcases hl : (Bytes.joined ns).getLast? with _ | b
    · exact absurd hl hnone
    · have hb : b ≠ slash := fun hb => hslash (hb ▸ hl)
      simp only [if_neg hb, absoluteOfNames, Bytes.joined, Pieces.joined_append_singleton _ hne,
        List.cons_append]

/-! ### Going below a path -/

/-- The path through these names from `p` on. -/
def below (p : Path) (ns : List Bytes) : Path := ns.foldl child p

@[simp] theorem below_nil (p : Path) : p.below [] = p := rfl

@[simp] theorem below_cons (p : Path) (n : Bytes) (ns : List Bytes) :
    p.below (n :: ns) = (p.child n).below ns := rfl

theorem below_append (p : Path) (ms ns : List Bytes) :
    p.below (ms ++ ns) = (p.below ms).below ns :=
  List.foldl_append

/-- Names that are joined on are the last components. -/
theorem components_below (p : Path) {ns : List Bytes} (h : ∀ n ∈ ns, n.IsName) :
    (p.below ns).components = p.components ++ ns.map .name := by
  induction ns generalizing p with
  | nil => exact (List.append_nil _).symm
  | cons n ns ih =>
    obtain ⟨hn, hns⟩ := List.forall_mem_cons.1 h
    rw [below_cons, ih _ hns, components_child p hn, List.append_assoc]
    rfl

theorem absoluteOfNames_below {ms ns : List Bytes} (hms : ∀ n ∈ ms, n.IsName)
    (hns : ∀ n ∈ ns, n.IsName) :
    (absoluteOfNames ms).below ns = absoluteOfNames (ms ++ ns) := by
  induction ns generalizing ms with
  | nil => rw [below_nil, List.append_nil]
  | cons n ns ih =>
    have hms' : ∀ m ∈ ms ++ [n], m.IsName := by
      intro m hm
      rcases List.mem_append.1 hm with hm | hm
      · exact hms m hm
      · exact hns m (by simp_all)
    rw [below_cons, absoluteOfNames_child hms, ih hms' fun m hm => hns m (by simp [hm]),
      List.append_assoc]
    rfl

/-! ### Names among components -/

theorem isName_of_mem_stepsOfPiece {piece n : Bytes} (hpiece : slash ∉ piece)
    (h : Component.name n ∈ stepsOfPiece piece) : n.IsName := by
  unfold stepsOfPiece at h
  split_ifs at h with h1 h2 h3
  · cases h
  · cases h
  · simp at h
  · rw [List.mem_singleton, Component.name.injEq] at h
    exact h ▸ ⟨h1, hpiece, h2, h3⟩

/-- The names among the components of a path are names. -/
theorem isName_of_mem_components {p : Path} {n : Bytes} (h : Component.name n ∈ p.components) :
    n.IsName := by
  have hpieces : ∀ piece ∈ p.bytes.split, slash ∉ piece :=
    fun piece hp => Pieces.notMem_of_mem_split hp
  unfold components at h
  rcases hs : p.bytes.split with _ | ⟨first, rest⟩
  · rw [hs] at h
    cases h
  · rw [hs] at h hpieces
    rcases List.mem_append.1 h with h | h
    · unfold stepsOfFirst at h
      split_ifs at h with h1 h2
      · simp at h
      · simp at h
      · exact isName_of_mem_stepsOfPiece (hpieces first (by simp)) h
    · obtain ⟨piece, hp, hn⟩ := List.mem_flatMap.1 h
      exact isName_of_mem_stepsOfPiece (hpieces piece (List.mem_cons_of_mem _ hp)) hn

/-! ### Canonical forms -/

theorem isName_of_mem_descend {ns : List Bytes} (hns : ∀ n ∈ ns, n.IsName) {c : Component}
    (hc : ∀ n, c = .name n → n.IsName) {n : Bytes} (h : n ∈ descend ns c) : n.IsName := by
  cases c with
  | root => cases h
  | current => exact hns n h
  | parent => exact hns n (List.dropLast_subset ns h)
  | name m =>
    rcases List.mem_append.1 h with h | h
    · exact hns n h
    · exact List.mem_singleton.1 h ▸ hc m rfl

theorem isName_of_mem_foldl_descend {cs : List Component} (hcs : ∀ n, .name n ∈ cs → n.IsName)
    {ns : List Bytes} (hns : ∀ n ∈ ns, n.IsName) :
    ∀ n ∈ cs.foldl descend ns, n.IsName := by
  induction cs generalizing ns with
  | nil => exact hns
  | cons c cs ih =>
    refine ih (fun n hn => hcs n (List.mem_cons_of_mem _ hn)) fun n hn => ?_
    exact isName_of_mem_descend hns (fun m hm => hcs m (hm ▸ List.mem_cons_self)) hn

/-- What is left of a path in its canonical form are names. -/
theorem isName_of_mem_canonicalNames {cwd : List Bytes} (hcwd : ∀ n ∈ cwd, n.IsName) {p : Path}
    {n : Bytes} (h : n ∈ canonicalNames cwd p) : n.IsName :=
  isName_of_mem_foldl_descend (fun _ hm => isName_of_mem_components hm) hcwd n h

theorem foldl_descend_name (ms ns : List Bytes) :
    (ns.map Component.name).foldl descend ms = ms ++ ns := by
  induction ns generalizing ms with
  | nil => exact (List.append_nil ms).symm
  | cons n ns ih =>
    rw [List.map_cons, List.foldl_cons, descend, ih, List.append_assoc]
    rfl

theorem canonicalNames_absoluteOfNames (cwd : List Bytes) {ns : List Bytes}
    (h : ∀ n ∈ ns, n.IsName) : canonicalNames cwd (absoluteOfNames ns) = ns := by
  rw [canonicalNames, components_absoluteOfNames h]
  exact foldl_descend_name [] ns

/-- What is joined on is resolved from where the path before it leads. -/
theorem canonicalNames_child_of_ne_nil (cwd : List Bytes) {p : Path} (hp : p.bytes ≠ [])
    (b : Bytes) : canonicalNames cwd (p.child b) =
      (b.split.flatMap stepsOfPiece).foldl descend (canonicalNames cwd p) := by
  rw [canonicalNames, components_child_of_ne_nil hp, List.foldl_append]
  rfl

/-- The names along the canonical form of a path, if it has an absolute form. -/
def absoluteNames (cwd : Except OsError Path) (p : Path) : Except Error (List Bytes) :=
  if p.bytes = [] then .error emptyFault
  else if p.isAbsolute then .ok (canonicalNames [] p)
  else
    match cwd with
    | .error e => .error (homelessFault p e)
    | .ok base => .ok (canonicalNames (canonicalNames [] base) p)

theorem canonical_eq (cwd : Except OsError Path) (p : Path) :
    p.canonical cwd = (absoluteNames cwd p).bind textOfNames := by
  unfold canonical absoluteNames
  split_ifs
  · rfl
  · rfl
  · cases cwd <;> rfl

theorem isName_of_mem_absoluteNames {cwd : Except OsError Path} {p : Path} {ns : List Bytes}
    (h : absoluteNames cwd p = .ok ns) : ∀ n ∈ ns, n.IsName := by
  have hnil : ∀ n ∈ ([] : List Bytes), n.IsName := by simp
  unfold absoluteNames at h
  split_ifs at h
  · cases h
    exact fun n hn => isName_of_mem_canonicalNames hnil hn
  · cases cwd with
    | error e => cases h
    | ok base =>
      cases h
      exact fun n hn =>
        isName_of_mem_canonicalNames (fun m hm => isName_of_mem_canonicalNames hnil hm) hn

theorem absoluteNames_absoluteOfNames (cwd : Except OsError Path) {ns : List Bytes}
    (h : ∀ n ∈ ns, n.IsName) : absoluteNames cwd (absoluteOfNames ns) = .ok ns := by
  have habs : (absoluteOfNames ns).isAbsolute = true := by simp [isAbsolute, absoluteOfNames]
  unfold absoluteNames
  rw [if_neg (by simp [absoluteOfNames]), if_pos habs, canonicalNames_absoluteOfNames _ h]

theorem bytes_child_ne_nil (p : Path) {n : Bytes} (hn : n.IsName) : (p.child n).bytes ≠ [] := by
  unfold child
  split
  · exact hn.1
  · split_ifs <;> simp [hn.1]

theorem isAbsolute_child {p : Path} (hp : p.bytes ≠ []) (n : Bytes) :
    (p.child n).isAbsolute = p.isAbsolute := by
  obtain ⟨b⟩ := p
  rcases b with _ | ⟨x, b⟩
  · exact absurd rfl hp
  · unfold child isAbsolute
    split
    · simp_all
    · split_ifs <;> simp

theorem bytes_ne_nil_of_absoluteNames {cwd : Except OsError Path} {p : Path} {ns : List Bytes}
    (h : absoluteNames cwd p = .ok ns) : p.bytes ≠ [] := by
  intro hp
  unfold absoluteNames at h
  rw [if_pos hp] at h
  cases h

theorem bytes_child_ne_nil_of_ne_nil {p : Path} (hp : p.bytes ≠ []) (b : Bytes) :
    (p.child b).bytes ≠ [] := by
  unfold child
  split
  · exact absurd (List.getLast?_eq_none_iff.1 ‹_›) hp
  · split_ifs <;> simp [hp]

/-- **What is joined on is resolved from the canonical form of what comes before.** -/
theorem absoluteNames_child_eq {cwd : Except OsError Path} {p : Path} {ns : List Bytes}
    (h : absoluteNames cwd p = .ok ns) (b : Bytes) :
    absoluteNames cwd (p.child b) = .ok ((b.split.flatMap stepsOfPiece).foldl descend ns) := by
  have hp := bytes_ne_nil_of_absoluteNames h
  have hchild := fun names => canonicalNames_child_of_ne_nil names hp b
  unfold absoluteNames at h ⊢
  rw [if_neg hp] at h
  rw [if_neg (bytes_child_ne_nil_of_ne_nil hp b), isAbsolute_child hp b]
  split_ifs at h ⊢ with habs
  · cases h
    rw [hchild]
  · cases cwd with
    | error e => cases h
    | ok base =>
      cases h
      exact congrArg _ (hchild _)

/-- **The canonical form of a name joined on** has that name after the others. -/
theorem absoluteNames_child {cwd : Except OsError Path} {p : Path} {ns : List Bytes}
    (h : absoluteNames cwd p = .ok ns) {n : Bytes} (hn : n.IsName) :
    absoluteNames cwd (p.child n) = .ok (ns ++ [n]) := by
  rw [absoluteNames_child_eq h, flatMap_stepsOfPiece_of_isName hn]
  rfl

theorem absoluteNames_below {cwd : Except OsError Path} {p : Path} {ms : List Bytes}
    (h : absoluteNames cwd p = .ok ms) {ns : List Bytes} (hns : ∀ n ∈ ns, n.IsName) :
    absoluteNames cwd (p.below ns) = .ok (ms ++ ns) := by
  induction ns generalizing p ms with
  | nil => rw [below_nil, h, List.append_nil]
  | cons n ns ih =>
    rw [below_cons, ih (absoluteNames_child h (hns n (by simp))) fun m hm => hns m (by simp [hm]),
      List.append_assoc]
    rfl

/-- **What a canonical form is**: the text of an absolute path written from names. -/
theorem exists_names_of_canonical {cwd : Except OsError Path} {p : Path} {c : String}
    (h : p.canonical cwd = .ok c) :
    ∃ ns, absoluteNames cwd p = .ok ns ∧ (∀ n ∈ ns, n.IsName) ∧
      ofString c = absoluteOfNames ns := by
  rw [canonical_eq] at h
  rcases hns : absoluteNames cwd p with e | ns
  · rw [hns] at h
    cases h
  · rw [hns] at h
    refine ⟨ns, rfl, isName_of_mem_absoluteNames hns, ?_⟩
    change textOfNames ns = .ok c at h
    unfold textOfNames at h
    rcases hc : (absoluteOfNames ns).toString? with _ | s
    · rw [hc] at h
      cases h
    · rw [hc] at h
      cases h
      exact congrArg Path.mk (Utf8.encode_of_decode? hc)

theorem isAbsolute_of_canonical {cwd : Except OsError Path} {p : Path} {c : String}
    (h : p.canonical cwd = .ok c) : (ofString c).isAbsolute = true := by
  obtain ⟨ns, -, -, hc⟩ := exists_names_of_canonical h
  rw [hc]
  simp [isAbsolute, absoluteOfNames]

/-- **Canonical forms are normal forms**: a canonical form is its own, whatever the current
directory. -/
theorem canonical_ofString {cwd : Except OsError Path} {p : Path} {c : String}
    (h : p.canonical cwd = .ok c) (cwd' : Except OsError Path) :
    (ofString c).canonical cwd' = .ok c := by
  obtain ⟨ns, -, hns, hc⟩ := exists_names_of_canonical h
  have htext : (absoluteOfNames ns).toString? = some c := hc ▸ Utf8.decode?_encode c
  rw [canonical_eq, hc, absoluteNames_absoluteOfNames cwd' hns]
  change textOfNames ns = _
  rw [textOfNames, htext]

/-- What lies below a path has its canonical form below that of the path. -/
theorem canonical_below {cwd : Except OsError Path} {p : Path} {c : String}
    (h : p.canonical cwd = .ok c) {ns : List Bytes} (hns : ∀ n ∈ ns, n.IsName) {s : String}
    (hs : ofString s = (ofString c).below ns) : (p.below ns).canonical cwd = .ok s := by
  obtain ⟨ms, hms, hnames, hc⟩ := exists_names_of_canonical h
  rw [hc, absoluteOfNames_below hnames hns] at hs
  have htext : (absoluteOfNames (ms ++ ns)).toString? = some s := hs ▸ Utf8.decode?_encode s
  rw [canonical_eq, absoluteNames_below hms hns]
  change textOfNames (ms ++ ns) = _
  rw [textOfNames, htext]

/-- The name that a path ends in is the last one of its canonical form. -/
theorem fileName?_of_canonical {cwd : Except OsError Path} {p : Path} {c : String}
    (h : p.canonical cwd = .ok c) {n : Bytes} (hn : p.fileName? = some n) :
    (ofString c).fileName? = some n := by
  obtain ⟨ns, hns, hnames, hc⟩ := exists_names_of_canonical h
  have hlast : p.components.getLast? = some (.name n) := by
    unfold fileName? at hn
    split at hn
    · rename_i m hm
      cases hn
      exact hm
    · cases hn
  obtain ⟨front, hfront⟩ := List.getLast?_eq_some_iff.1 hlast
  -- Nothing comes after the name that could take it away again.
  have hcanonical : ∀ base, ∃ ms, canonicalNames base p = ms ++ [n] := by
    intro base
    refine ⟨front.foldl descend base, ?_⟩
    rw [canonicalNames, hfront, List.foldl_append]
    rfl
  have hend : ∃ ms, ns = ms ++ [n] := by
    unfold absoluteNames at hns
    split_ifs at hns
    · cases hns
      exact hcanonical []
    · cases cwd with
      | error e => cases hns
      | ok base =>
        cases hns
        exact hcanonical _
  obtain ⟨ms, rfl⟩ := hend
  rw [hc, fileName?_absoluteOfNames hnames, List.getLast?_concat]

end Path

end SnapStore
