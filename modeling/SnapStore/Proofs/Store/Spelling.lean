import SnapStore.Proofs.Store.Contents
import SnapStore.Proofs.Store.Kept

/-!
# Trees asked for by other spellings

A tree is kept under the canonical form of its root, but walked as the root is spelled. The two need
not lead to the same directory: in the canonical form `..` has been taken away with the name before
it, whatever that name leads to, and the system follows the name first if it is a link.
`SnapStore.Mirror.tree_spelling` says when it makes no difference by which spelling a tree is asked
for (`SnapStore.World.WalksAlike`). Where it does make one, the first spelling settles what is
answered to all the others.
-/

namespace SnapStore

/-- The kinds of errors. -/
inductive Error.Kind
  /-- Asking, opening or reading failed. -/
  | read
  /-- Something was not there. -/
  | notFound
  /-- The caller supplied something unusable. -/
  | invalidArgument
  /-- Something has no snapshot. -/
  | unrecognizedFileType
  /-- A walk broke off. -/
  | walk
  /-- Something could not be created. -/
  | create
  /-- A path has no canonical form. -/
  | invalidPath
  deriving DecidableEq

/-- The kind of an error. -/
def Error.kind : Error → Error.Kind
  | .read _ _ => .read
  | .notFound _ => .notFound
  | .invalidArgument _ => .invalidArgument
  | .unrecognizedFileType _ _ => .unrecognizedFileType
  | .walk _ _ => .walk
  | .create _ _ => .create
  | .invalidPath _ => .invalidPath

/-- The kind of error that a request has failed with, unless it has panicked. -/
def Failure.kind : Failure → Option Error.Kind
  | .error e => some e.kind
  | .panic => none

/-- **Where it makes no difference which of two roots is walked**: the walks break off for the same
kind of reason, or else neither does and the roots hold the same. -/
def World.WalksAlike (w : World) (root root' : Path) : Prop :=
  (w.course (.all root)).ending.map Failure.kind = (w.course (.all root')).ending.map Failure.kind ∧
    ((w.course (.all root)).ending = none → ∀ ns a, w.Holds root ns a ↔ w.Holds root' ns a)

/-- Trees that are made for the same key are the same, or fail in the same way, if the walks are
alike, and only then. -/
theorem World.treeOf_eq_iff {w : World} (hw : w.IsWellNamed) {root root' : Path} {c : String}
    (hroot : root.canonical w.workingDirectory = .ok c)
    (hroot' : root'.canonical w.workingDirectory = .ok c) :
    (w.treeOf (some c) (w.course (.all root))).mapError Failure.kind =
        (w.treeOf (some c) (w.course (.all root'))).mapError Failure.kind ↔
      w.WalksAlike root root' := by
  unfold WalksAlike
  rcases treeOf_course hw hroot with ⟨e, hending, htree⟩ | ⟨es, hending, htree, hes⟩
  · rw [htree, hending]
    rcases treeOf_course hw hroot' with ⟨e', hending', htree'⟩ | ⟨es', hending', htree', -⟩
    · rw [htree', hending']
      simp [Except.mapError]
    · rw [htree', hending']
      simp [Except.mapError]
  · rw [htree, hending]
    rcases treeOf_course hw hroot' with ⟨e', hending', htree'⟩ | ⟨es', hending', htree', hes'⟩
    · rw [htree', hending']
      simp [Except.mapError]
    · rw [htree', hending', ← hes.eq_iff hes']
      simp [Except.mapError]

/-! ### Spellings of one directory -/

namespace World

variable {w : World} {p q : Path} {place : Place}

/-- Nothing that is text is refused below a path, other than for not being there. -/
def IsOpen (w : World) (p : Path) : Prop :=
  ∀ ns, ns ≠ [] → w.Reaches p ns → (∀ n ∈ ns, (Utf8.decode? n).isSome) →
    ∀ e, w.find true (p.below ns) = .error e → e = .notFound

/-- A walk that does not break off has been refused nothing. -/
theorem isOpen_of_ending (hw : w.IsWellNamed) (htext : p.toString?.isSome = true)
    (hlocate : w.locate true p = .ok (.place place)) (hplace : w.isDirectory place = true)
    (hending : (w.course (.all p)).ending = none) : w.IsOpen p := by
  obtain ⟨node, hnode, hkind⟩ := find_of_locate hlocate hplace
  have hleads : w.LeadsToPlace p := by
    intro spot hspot
    rw [hlocate] at hspot
    cases hspot
    exact ⟨place, rfl⟩
  intro ns hne hreaches hns e he
  rcases (covers_course hw htext hleads hnode hkind).complete hending ns ⟨hne, hreaches⟩ hns with
    h | ⟨r, -, hof⟩
  · rw [he] at h
    cases h
    rfl
  · obtain ⟨found, hfound, -⟩ := hof.exists_node
    rw [he] at hfound
    cases hfound

theorem IsOpen.child (h : w.IsOpen p) {listed : List (Bytes × Kind)} (hlist : w.list p = .ok listed)
    {n : Bytes} {kind : Kind} (hmem : (n, kind) ∈ listed) (hn : (Utf8.decode? n).isSome) :
    w.IsOpen (p.child n) := fun ns _ hreaches hns e he =>
  h (n :: ns) nofun ⟨⟨listed, kind, hlist, hmem⟩, hreaches⟩ (List.forall_mem_cons.2 ⟨hn, hns⟩) e he

/-- What is listed in one directory leads to the same by two paths below which nothing is
refused. -/
theorem locate_child_eq (hp : w.locate true p = .ok (.place place))
    (hq : w.locate true q = .ok (.place place)) (hplace : w.isDirectory place = true)
    (hopen : w.IsOpen p) (hopen' : w.IsOpen q) {n : Bytes} {kind : Kind}
    (hmem : (n, kind) ∈ w.children place) (hname : n.IsName) (hn : (Utf8.decode? n).isSome) :
    w.locate true (q.child n) = w.locate true (p.child n) := by
  have hrefused : ∀ {r : Path}, w.locate true r = .ok (.place place) → w.IsOpen r → ∀ e,
      w.locate true (r.child n) = .error e → e = .notFound := by
    intro r hr hopen e he
    refine hopen [n] nofun ⟨⟨_, kind, list_of_locate hr hplace, hmem⟩, trivial⟩
      (by simpa using hn) e ?_
    change w.find true (r.child n) = .error e
    rw [find, he]
  -- The two could differ only if one were refused for its length or its links.
  rcases locate_child_eq_or hp hq hplace hname with h | ⟨e, he, h⟩ | ⟨e, he, h⟩
  · exact h.symm
  · exact absurd (hrefused hp hopen e h) he
  · exact absurd (hrefused hq hopen' e h) he

/-- Below one directory there is the same by whatever path. -/
theorem isBelow_of_locate (hw : w.IsWellNamed) (hp : w.locate true p = .ok (.place place))
    (hq : w.locate true q = .ok (.place place)) (hplace : w.isDirectory place = true)
    (hopen : w.IsOpen p) (hopen' : w.IsOpen q) {ns : List Bytes} (h : w.IsBelow p ns) :
    w.IsBelow q ns ∧ w.find true (q.below ns) = w.find true (p.below ns) := by
  induction ns generalizing p q place with
  | nil => exact absurd rfl h.1
  | cons n rest ih =>
    obtain ⟨-, ⟨⟨listed, kind, hlist, hmem⟩, hrest⟩, hns, hfound⟩ := h
    obtain ⟨hn, hrestText⟩ := List.forall_mem_cons.1 hns
    have hname : n.IsName := isName_of_list hw hlist (n, kind) hmem
    obtain rfl : listed = w.children place := by
      rw [list_of_locate hp hplace] at hlist
      cases hlist
      rfl
    have hlist' := list_of_locate hq hplace
    have hsame := locate_child_eq hp hq hplace hopen hopen' hmem hname hn
    by_cases hlast : rest = []
    · subst hlast
      have hfind : w.find true (q.below [n]) = w.find true (p.below [n]) := by
        change w.find true (q.child n) = w.find true (p.child n)
        rw [find, hsame]
        rfl
      exact ⟨⟨List.cons_ne_nil n [], ⟨⟨_, kind, hlist', hmem⟩, trivial⟩, hns, hfind ▸ hfound⟩,
        hfind⟩
    · -- Something is listed below the name, so it leads to a directory again.
      obtain ⟨m, more, hmore⟩ := List.exists_cons_of_ne_nil hlast
      obtain ⟨⟨listed', kind', hlistChild, -⟩, -⟩ := hmore ▸ hrest
      obtain ⟨place', hchild, hplace', -⟩ :=
        exists_of_list (leadsToPlace_child hp hplace hname) hlistChild
      obtain ⟨⟨-, hrest', -, hfound'⟩, hfind⟩ := ih hchild (hsame.trans hchild) hplace'
        (hopen.child hlist hmem hn) (hopen'.child hlist' hmem hn) ⟨hlast, hrest, hrestText, hfound⟩
      exact ⟨⟨List.cons_ne_nil n rest, ⟨⟨_, kind, hlist', hmem⟩, hrest'⟩, hns, hfound'⟩, hfind⟩

/-- What is held by one path is held by the other. -/
theorem holds_of_locate (hw : w.IsWellNamed) (htext : q.toString?.isSome = true)
    (hp : w.locate true p = .ok (.place place)) (hq : w.locate true q = .ok (.place place))
    (hplace : w.isDirectory place = true) (hopen : w.IsOpen p) (hopen' : w.IsOpen q)
    {ns : List Bytes} {a : Option FileSnapshot} (h : w.Holds p ns a) : w.Holds q ns a := by
  rcases h with ⟨-, hnode⟩ | ⟨-, -, -, hbelow, ha⟩
  · exact absurd hplace (not_isDirectory_of_file hnode hp)
  · obtain ⟨hbelow', hfind⟩ := isBelow_of_locate hw hp hq hplace hopen hopen' hbelow
    exact .below htext hq hplace hbelow' (by rw [ha, snapshotAt, snapshotAt, hfind])

/-- **Two spellings that lead to one directory are walked alike**, unless a walk breaks off. -/
theorem walksAlike_of_locate (hw : w.IsWellNamed) (htext : p.toString?.isSome = true)
    (htext' : q.toString?.isSome = true) (hp : w.locate true p = .ok (.place place))
    (hq : w.locate true q = .ok (.place place)) (hplace : w.isDirectory place = true)
    (hending : (w.course (.all p)).ending = none) (hending' : (w.course (.all q)).ending = none) :
    w.WalksAlike p q := by
  have hopen := isOpen_of_ending hw htext hp hplace hending
  have hopen' := isOpen_of_ending hw htext' hq hplace hending'
  refine ⟨by rw [hending, hending'], fun _ ns a => ⟨fun h => ?_, fun h => ?_⟩⟩
  · exact holds_of_locate hw htext' hp hq hplace hopen hopen' h
  · exact holds_of_locate hw htext hq hp hplace hopen' hopen h

end World

/-! ### Answers to spellings -/

namespace Mirror

variable {σ : Type} {M : Mirror σ} {start : σ} {w : World} {p : Path} {c : String}

/-- A mirror that nothing has been stored in finds nothing. -/
theorem fst_lookUpTree (hM : M.IsHonest start) (keys : List String) (key : String) :
    (M.lookUpTree key ((keys.map Use.lookUpTree).foldl M.after start)).1 = none := by
  have hblank : (keys.map Use.lookUpTree).foldl Ledger.after .blank = .blank := by
    induction keys with
    | nil => rfl
    | cons k keys ih => exact ih
  rcases (hM (keys.map Use.lookUpTree)).tree key with h | h
  · exact h
  · rw [h, hblank]
    rfl

/-- **The first answer is that of the walk**, which goes by the spelling. -/
theorem tree_start (hM : M.IsHonest start) (hp : p.canonical w.workingDirectory = .ok c) :
    M.tree w p start =
      match w.treeOf (some c) (w.course (.all p)) with
      | .ok t => (.ok t, (M.putTree t (M.after (M.after start (.lookUpTree c)) (.lookUpTree c))).2)
      | .error e => (.error e, M.after (M.after start (.lookUpTree c)) (.lookUpTree c)) := by
  have hfirst : M.lookUpTree c start = (none, M.after start (.lookUpTree c)) :=
    Prod.ext (fst_lookUpTree hM [] c) rfl
  have hsecond : M.lookUpTree c (M.after start (.lookUpTree c)) =
      (none, M.after (M.after start (.lookUpTree c)) (.lookUpTree c)) :=
    Prod.ext (fst_lookUpTree hM [c] c) rfl
  change (M.host w).trees.find? c start = _ at hfirst
  change (M.host w).trees.find? c _ = _ at hsecond
  rw [run_tree hp, Host.run_cached fun _ => rfl, hfirst]
  dsimp only
  rw [hsecond]
  dsimp only
  rw [run_walked]
  rcases w.treeOf (some c) (w.course (.all p)) with e | t <;> rfl

/-- A cache that keeps everything has kept the first tree it was asked for. -/
theorem keepsTree_of_tree (hp : p.canonical w.workingDirectory = .ok c) {t : TreeSnapshot}
    (ht : w.treeOf (some c) (w.course (.all p)) = .ok t) :
    (Cache.mirror.tree w p (.empty .all)).2.KeepsTree c t := by
  obtain ⟨-, hbase, -⟩ := w.of_treeOf ht
  rw [tree_start (Cache.isHonest_mirror .all) hp, ht]
  change (Cache.putTree _ t).KeepsTree c t
  unfold Cache.putTree
  rw [hbase]
  refine ⟨rfl, ?_⟩
  exact (Shelf.find?_store_all _ _ _ _).trans (if_pos rfl)

/-- **When the spelling of a path makes no difference.** A store that keeps nothing yet answers a
path as it answers the canonical form of the path if the walks are alike, and only then. If it keeps
everything, then whatever it is asked for in between, it answers every spelling with the tree of the
spelling that came first. -/
theorem tree_spelling (hM : M.IsHonest start) (hw : w.IsWellNamed)
    (hp : p.canonical w.workingDirectory = .ok c) :
    ((M.tree w p start).1.mapError Failure.kind =
        (M.tree w (.ofString c) start).1.mapError Failure.kind ↔ w.WalksAlike p (.ofString c)) ∧
      ∀ t : TreeSnapshot, (M.tree w p start).1 = .ok t → ∀ (st : Strategy) (rs : List Request),
        (∀ r ∈ rs, ¬ r.Forgets c) → ∀ q : Path, q.canonical w.workingDirectory = .ok c →
          ((do
            let _ ← Cache.mirror.tree w p
            let _ ← Cache.mirror.answers w st rs
            Cache.mirror.tree w q : StateM Cache _).run (.empty .all)).1 = .ok t := by
  have hfirst : ∀ {q : Path}, q.canonical w.workingDirectory = .ok c →
      (M.tree w q start).1 = w.treeOf (some c) (w.course (.all q)) := by
    intro q hq
    rw [tree_start hM hq]
    rcases w.treeOf (some c) (w.course (.all q)) with e | t <;> rfl
  have hc := Path.canonical_ofString hp w.workingDirectory
  refine ⟨?_, fun t ht st rs hrs q hq => ?_⟩
  · rw [hfirst hp, hfirst hc]
    exact World.treeOf_eq_iff hw hp hc
  · rw [hfirst hp] at ht
    exact ((keepsTree_of_tree hp ht).answers hrs).tree_eq hq

/-- Asked for by a spelling that goes back out of a link, the tree of `/d` is that of another
directory. -/
theorem tree_spelling_of_link :
    let w := ((((World.empty.apply (.write (.ofString "/d/x") [] .epoch)).world.apply
      (.write (.ofString "/e/d/y") [] .epoch)).world.apply
      (.makeDirectory (.ofString "/e/f"))).world.apply
      (.link (.ofString "/e/f") (.ofString "/l"))).world
    let p := Path.ofString "/l/../d"
    let answer (q : Path) := (Cache.mirror.tree w q (.empty .all)).1
    let paths (q : Path) := (answer q).toOption.map (·.entries.map Entry.path)
    Cache.mirror.IsHonest (.empty .all) ∧ w.IsWellNamed ∧
      p.canonical w.workingDirectory = .ok "/d" ∧
      paths p = some ["/d/y"] ∧ paths (.ofString "/d") = some ["/d/x"] ∧
      ¬ w.WalksAlike p (.ofString "/d") ∧
      ∃ t, answer p = .ok t ∧ ((do
        let _ ← Cache.mirror.tree w p
        let _ ← Cache.mirror.answers w .default [.aggregate (.ofString "/d")]
        Cache.mirror.tree w (.ofString "/d") : StateM Cache _).run (.empty .all)).1 = .ok t := by
  intro w p answer paths
  have hhonest := Cache.isHonest_mirror .all
  have hw : w.IsWellNamed := (((World.isWellNamed_empty.apply _).apply _).apply _).apply _
  have hp : (Path.ofString "/l/../d").canonical w.workingDirectory = .ok "/d" := by rfl
  have hc : (Path.ofString "/d").canonical w.workingDirectory = .ok "/d" := by rfl
  have hpaths : paths p = some ["/d/y"] := by decide +kernel
  have hpaths' : paths (.ofString "/d") = some ["/d/x"] := by decide +kernel
  obtain ⟨hiff, hkept⟩ := tree_spelling hhonest hw hp
  refine ⟨hhonest, hw, hp, hpaths, hpaths', fun halike => ?_, ?_⟩
  · -- Alike walks would have given the same tree.
    have hsame : (answer p).toOption = (answer (.ofString "/d")).toOption := by
      have heq := hiff.2 halike
      change (answer p).mapError _ = (answer (.ofString "/d")).mapError _ at heq
      revert heq
      rcases answer p with e | t <;> rcases answer (.ofString "/d") with e' | t' <;>
        simp [Except.mapError, Except.toOption]
    have hsame' : paths p = paths (.ofString "/d") :=
      congrArg (Option.map fun t => t.entries.map Entry.path) hsame
    rw [hpaths, hpaths'] at hsame'
    exact absurd hsame' (by decide)
  · rcases hanswer : answer p with e | t
    · simp [paths, hanswer, Except.toOption] at hpaths
    · exact ⟨t, rfl, hkept t hanswer .default [.aggregate (.ofString "/d")]
        (by simp [Request.Forgets]) (.ofString "/d") hc⟩

end Mirror

end SnapStore
