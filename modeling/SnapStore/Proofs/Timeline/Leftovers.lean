import SnapStore.Proofs.Store.Contents
import SnapStore.Proofs.Timeline.Collect
import SnapStore.Proofs.Tree.Removal

/-!
# What removals leave of a tree

While a store is at work others may remove things and do nothing else
(`SnapStore.Timeline.OnlyRemoves`). A tree that is made meanwhile should be **left of** the one that
could have been made at the beginning (`SnapStore.TreeSnapshot.IsLeftOf`): it has some of the paths,
in the same order, and of each path the same entry, but that a file may be missing if it was removed
after its metadata had been read.

One entry is made of one report, and takes several calls. `SnapStore.Timeline.Makes.isLeftOf` says
what comes of a report that the world at the beginning would have made an entry of
(`SnapStore.Report.IsSettled`): there is an entry, and it is left of the one from the beginning.
-/

namespace SnapStore

/-- **From a moment on things are removed** and nothing else is done. -/
structure Timeline.OnlyRemoves (tl : Timeline) (start : Nat) : Prop where
  /-- Of each world the next one is left. -/
  step : ∀ i, start ≤ i → (tl.world (i + 1)).IsLeftOf (tl.world i)
  /-- Nobody writes to a file that is open. -/
  held : ∀ opened p i, start ≤ opened → opened ≤ i →
    (tl.reading opened p).held i = (tl.reading opened p).held opened

/-- Of the world at the beginning all later ones are left. -/
theorem Timeline.OnlyRemoves.isLeftOf {tl : Timeline} {start : Nat} (h : tl.OnlyRemoves start)
    {i : Nat} (hi : start ≤ i) : (tl.world i).IsLeftOf (tl.world start) := by
  induction i, hi using Nat.le_induction with
  | base => exact .refl _
  | succ i hi ih => exact (h.step i hi).trans ih

/-- **What is left of an entry** between two moments. -/
inductive Entry.IsLeftOf (tl : Timeline) (start until' : Nat) : Entry → Entry → Prop
  /-- It is the same. -/
  | same {e : Entry} (h : e.fileType ≠ .missing) : IsLeftOf tl start until' e e
  /-- It is of a file that was removed after its metadata had been read, and before it was
  opened. -/
  | missing {key : String} {relative : RelativePath} {isRoot : Bool} {content : Bytes}
    {modified : Timestamp} {seen opened : Nat} (hstart : start ≤ seen) (hlt : seen < opened)
    (huntil : opened < until')
    (hseen : (tl.world seen).find true (.ofString key) = .ok (.file content modified))
    (hopened : (tl.world opened).find true (.ofString key) = .error .notFound) :
    IsLeftOf tl start until' (.missing key relative.name)
      (.file key relative isRoot ⟨.ofMessage content, modified.text⟩)

namespace Entry.IsLeftOf

variable {tl : Timeline} {start until' : Nat} {e e₀ : Entry}

theorem mono (h : e.IsLeftOf tl start until' e₀) {until'' : Nat} (hle : until' ≤ until'') :
    e.IsLeftOf tl start until'' e₀ := by
  cases h with
  | same h => exact .same h
  | missing hstart hlt huntil hseen hopened => exact .missing hstart hlt (by omega) hseen hopened

theorem path_eq (h : e.IsLeftOf tl start until' e₀) : e.path = e₀.path := by
  cases h <;> rfl

end Entry.IsLeftOf

/-- **What is left of a tree** between two moments. -/
structure TreeSnapshot.IsLeftOf (tl : Timeline) (start until' : Nat) (t t₀ : TreeSnapshot) :
    Prop where
  /-- It is of the same directory. -/
  base : t.base = t₀.base
  /-- It has no other paths, and they are in the same order. -/
  paths : (t.entries.map Entry.path).Sublist (t₀.entries.map Entry.path)
  /-- Each entry is what is left of the one that had its path. -/
  entries : ∀ e ∈ t.entries, ∀ e₀ ∈ t₀.entries, e₀.path = e.path → e.IsLeftOf tl start until' e₀

/-- This is so if the entries can be taken together with some of the tree, in order. -/
theorem TreeSnapshot.IsLeftOf.of_sublist {tl : Timeline} {start until' : Nat} {t t₀ : TreeSnapshot}
    (hbase : t.base = t₀.base) (hdistinct : (t₀.entries.map Entry.path).Nodup)
    (h : t.entries.SublistForall₂ (Entry.IsLeftOf tl start until') t₀.entries) :
    t.IsLeftOf tl start until' t₀ := by
  obtain ⟨kept, hkept, hsub⟩ := List.sublistForall₂_iff.1 h
  have hpaths : t.entries.map Entry.path = kept.map Entry.path := by
    rw [← List.forall₂_eq_eq_eq, List.forall₂_map_left_iff, List.forall₂_map_right_iff]
    exact hkept.imp fun _ _ h => h.path_eq
  refine ⟨hbase, hpaths ▸ hsub.map Entry.path, fun e he e₀ he₀ hpath => ?_⟩
  obtain ⟨hlength, hget⟩ := List.forall₂_iff_get.1 hkept
  obtain ⟨⟨i, hi⟩, rfl⟩ := List.mem_iff_get.1 he
  have hleft := hget i hi (hlength ▸ hi)
  -- There is only one entry with this path.
  have heq := List.inj_on_of_nodup_map hdistinct he₀
    (hsub.subset (List.get_mem kept ⟨i, hlength ▸ hi⟩)) (hpath.trans hleft.path_eq)
  rwa [heq]

/-! ### Entries of what is left -/

/-- **A report that makes an entry**, whatever the current directory is. -/
inductive Report.IsSettled (w : World) : Report → Entry → Prop
  /-- It is of a directory. -/
  | directory {key : String} {relative : RelativePath} {seen : Metadata}
    (hkey : ∀ cwd, (Path.ofString key).canonical cwd = .ok key) :
    IsSettled w ⟨true, .ofString key, relative, seen⟩ (.directory key relative false)
  /-- It is of a file. -/
  | file {key : String} {relative : RelativePath} {content : Bytes} {modified : Timestamp}
    (hkey : ∀ cwd, (Path.ofString key).canonical cwd = .ok key)
    (hnode : w.find true (.ofString key) = .ok (.file content modified)) :
    IsSettled w
      ⟨false, .ofString key, relative, (Node.file content modified).status.metadata modified.text⟩
      (.file key relative false ⟨.ofMessage content, modified.text⟩)

namespace Report.IsSettled

variable {w : World} {r : Report} {e : Entry}

theorem path_eq (h : r.IsSettled w e) : r.path = .ofString e.path := by
  cases h <;> rfl

/-- This is the entry that it makes. -/
theorem entryOf_eq (h : r.IsSettled w e) : w.entryOf r = .ok e := by
  unfold World.entryOf
  cases h with
  | directory hkey =>
    rw [World.keyOf_eq_ok_iff.2 (hkey _)]
    rfl
  | file hkey hnode =>
    rw [World.keyOf_eq_ok_iff.2 (hkey _)]
    dsimp only [Bind.bind, Except.bind]
    rw [World.hashed_of_find hnode]
    rfl

theorem eq (h : r.IsSettled w e) {e' : Entry} (h' : r.IsSettled w e') : e = e' :=
  Except.ok.inj (h.entryOf_eq.symm.trans h'.entryOf_eq)

/-- What is right to report below a canonical path is settled. -/
theorem of_isOf {c : String} (hc : (Path.ofString c).canonical w.workingDirectory = .ok c)
    {ns : List Bytes} (hns : ∀ n ∈ ns, n.IsName) (hr : r.IsOf w (.ofString c) ns) :
    ∃ e, r.IsSettled w e := by
  obtain ⟨isDirectory, path, relative, seen⟩ := r
  obtain ⟨hpath, hnames, -, node, hnode, hkind, hseen⟩ := hr
  dsimp only at hpath hnames hkind hseen
  obtain ⟨key, hkey⟩ := World.exists_ofString_below c relative.segments
  change Path.ofString key = (Path.ofString c).below relative.names at hkey
  rw [hnames] at hkey
  have hcanonical : ∀ cwd, (Path.ofString key).canonical cwd = .ok key := by
    intro cwd
    have h := Path.canonical_below (Path.canonical_ofString hc cwd) hns hkey
    rwa [← hkey] at h
  rw [← hkey] at hpath hnode
  obtain ⟨-, rfl⟩ := Metadata.ofStatus_eq_ok_iff.1 hseen
  subst hpath
  cases isDirectory with
  | true => exact ⟨_, .directory hcanonical⟩
  | false =>
    cases node with
    | file content modified => exact ⟨_, .file hcanonical hnode⟩
    | _ => cases hkind

/-- The entries that are made of settled reports. -/
theorem forall₂_of_mapM {reports : List Report} {entries : List Entry}
    (hsettled : ∀ r ∈ reports, ∃ e, r.IsSettled w e) (h : reports.mapM w.entryOf = .ok entries) :
    List.Forall₂ (IsSettled w) reports entries := by
  refine (World.forall₂_of_mapM h).imp ?_
  rintro r e ⟨hr, he⟩
  obtain ⟨e', he'⟩ := hsettled r hr
  rw [he'.entryOf_eq] at he
  cases he
  exact he'

end Report.IsSettled

namespace Timeline

open DirectoryTree World

variable {σ : Type} {tl : Timeline} {M : Mirror σ} {s : Stage σ} {start : Nat}

/-- What is left of the entry that a report would have made at the beginning. -/
def Leftover (tl : Timeline) (start until' : Nat) (e : Entry) (r : Report) : Prop :=
  ∃ e₀, r.IsSettled (tl.world start) e₀ ∧ e.IsLeftOf tl start until' e₀

theorem Leftover.mono {until' until'' : Nat} {e : Entry} {r : Report}
    (h : tl.Leftover start until' e r) (hle : until' ≤ until'') :
    tl.Leftover start until'' e r := by
  obtain ⟨e₀, hr, he⟩ := h
  exact ⟨e₀, hr, he.mono hle⟩

/-- A file is as it was or is gone. -/
theorem OnlyRemoves.find_file (htl : tl.OnlyRemoves start) {p : Path} (hp : p.isAbsolute = true)
    {content : Bytes} {modified : Timestamp}
    (hfile : (tl.world start).find true p = .ok (.file content modified)) {i : Nat}
    (hi : start ≤ i) :
    (tl.world i).find true p = .error .notFound ∨
      (tl.world i).find true p = .ok (.file content modified) := by
  have hfind := (htl.isLeftOf hi).find hp true
  rw [hfile] at hfind
  generalize (tl.world i).find true p = answer at hfind
  cases hfind with
  | gone => exact Or.inl rfl
  | found hres =>
    rw [hres.eq_of_kind nofun]
    exact Or.inr rfl

/-- What is seen to be a file is the file that was there. -/
theorem OnlyRemoves.find_true (htl : tl.OnlyRemoves start) {p : Path} (hp : p.isAbsolute = true)
    {content : Bytes} {modified : Timestamp}
    (hfile : (tl.world start).find true p = .ok (.file content modified)) {seen : Nat}
    (hstart : start ≤ seen) {followLast : Bool} {node : Node}
    (hnode : (tl.world seen).find followLast p = .ok node) (hkind : node.kind = .file) :
    (tl.world seen).find true p = .ok (.file content modified) ∧ node = .file content modified := by
  have htrue : (tl.world seen).find true p = .ok node := by
    cases followLast with
    | true => exact hnode
    | false => exact World.find_true hnode (by rw [hkind]; nofun)
  rcases htl.find_file hp hfile hstart with hgone | hfound
  · rw [hgone] at htrue
    cases htrue
  · rw [hfound] at htrue
    cases htrue
    exact ⟨hfound, rfl⟩

/-- **A file that was there** is hashed as it was, or is gone. -/
theorem Hashes.cases_of_removals (htl : tl.OnlyRemoves start) {p : Path} (hp : p.isAbsolute = true)
    {content : Bytes} {modified : Timestamp}
    (hfile : (tl.world start).find true p = .ok (.file content modified)) (hs : start ≤ s.now)
    {hashed : Except Error Digest} {s' : Stage σ} (h : tl.Hashes p s (hashed, s')) :
    ((tl.world s.now).find true p = .error .notFound ∧
        hashed = .error (.ofOs p.display .notFound) ∧ s' = s.next) ∨
      hashed = .ok (.ofMessage content) := by
  rcases htl.find_file hp hfile hs with hgone | hopened
  · left
    cases h with
    | refused hfind =>
      rw [hgone] at hfind
      cases hfind
      exact ⟨hgone, rfl, rfl⟩
    | directory hfind =>
      rw [hgone] at hfind
      cases hfind
    | read hreads =>
      cases hreads with
      | file hnode =>
        rw [hgone] at hnode
        cases hnode
      | other hnode =>
        rw [hgone] at hnode
        cases hnode
  · refine Or.inr (h.eq_of_file hopened fun moment hlt => ?_)
    rw [htl.held _ _ _ hs (Nat.le_of_lt hlt), tl.held_opened _ _ _ _ hopened]

/-- **What is made of a report of something that was still there** when it was looked at. -/
theorem Makes.isLeftOf (htl : tl.OnlyRemoves start) {r : Report} {e₀ : Entry}
    (hr : r.IsSettled (tl.world start) e₀) {followLast : Bool} {seen : Nat} {n' n : Node}
    (hstart : start ≤ seen) (hseen : seen < s.now)
    (hnode : (tl.world seen).find followLast r.path = .ok n') (hres : n'.Resembles n)
    (hmeta : Metadata.ofStatus n.status = .ok r.seen) {seen' : Metadata}
    (hmeta' : Metadata.ofStatus n'.status = .ok seen') {made : Except Failure Entry} {s' : Stage σ}
    (h : tl.Makes { r with seen := seen' } s made s') :
    ∃ e, made = .ok e ∧ e.IsLeftOf tl start s'.now e₀ := by
  cases hr with
  | @directory key relative _ hkey =>
    cases h with
    | unkeyed hcanonical =>
      rw [hkey] at hcanonical
      cases hcanonical
    | directory _ hcanonical =>
      rw [hkey] at hcanonical
      cases hcanonical
      exact ⟨_, rfl, .same nofun⟩
    | file hkind => cases hkind
  | @file key relative content modified hkey hfile =>
    cases h with
    | unkeyed hcanonical =>
      rw [hkey] at hcanonical
      cases hcanonical
    | directory hkind => cases hkind
    | @file _ hashed s' _ hcanonical hhash =>
      rw [hkey] at hcanonical
      cases hcanonical
      have hp := Path.isAbsolute_of_canonical (hkey (.error .notFound))
      have hkind : n'.kind = .file := by
        have htype := congrArg Metadata.fileType (Metadata.ofStatus_eq_ok_iff.1 hmeta).2
        rw [hres.kind_eq]
        cases n with
        | file => rfl
        | _ => cases htype
      obtain ⟨hfound, rfl⟩ := htl.find_true hp hfile hstart hnode hkind
      obtain ⟨-, rfl⟩ := Metadata.ofStatus_eq_ok_iff.1 hmeta'
      rcases hhash.cases_of_removals htl hp hfile (Nat.le_succ_of_le (by omega)) with
        ⟨hopened, rfl, rfl⟩ | rfl
      · exact ⟨_, rfl,
          .missing hstart (Nat.lt_succ_of_lt hseen) (Nat.lt_succ_self _) hfound hopened⟩
      · exact ⟨_, rfl, .same nofun⟩

end Timeline

end SnapStore
