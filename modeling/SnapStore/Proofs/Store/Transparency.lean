import Mathlib.Data.List.Forall2
import SnapStore.Proofs.Store.Mirror
import SnapStore.Proofs.Store.Still

/-!
# Caches cannot be seen

A store that keeps its values in a `SnapStore.Mirror` is given requests one after the other
(`SnapStore.Mirror.answers`), among them those that make the mirror forget. As long as the world
stands still, the mirror is honest and trees are asked for by their canonical paths, nobody can
tell from the answers that there is a mirror: each of them is what a fresh store without a cache
answers to that request alone.

What carries the argument is an invariant of the ledger: all that is written in it is right
(`SnapStore.Ledger.IsRight`), whatever the mirror has kept of it. Every use that a store makes of
its mirror preserves it, and so the mirror makes a faithful host
(`SnapStore.Mirror.isFaithful_host`).
-/

namespace SnapStore

/-! ### Requests -/

/-- A root of a collection that can be asked for in any monad. -/
inductive Root
  /-- A path, with everything below it. -/
  | path (p : Path)
  /-- What is below a directory. -/
  | directory (t : DirectoryTree)
  /-- What a tree source reports. -/
  | source (s : PureSource)

namespace Root

/-- A root as a store takes it. -/
def element {m : Type → Type} [Monad m] : Root → Element m
  | path p => .path p
  | directory t => .directory t
  | source s => .source s.visit

/-- A root is spelled canonically, where a tree is kept for it. -/
def IsCanonical (w : World) : Root → Prop
  | path p => w.IsCanonical p
  | directory t => t.isFiltered = true ∨ w.IsCanonical t.root
  | source _ => True

end Root

/-- What a store can be asked to do. -/
inductive Request
  /-- Take the snapshot of a path. -/
  | entry (p : Path)
  /-- Take the aggregate of a path and all that is below it. -/
  | aggregate (p : Path)
  /-- Take the snapshot of a directory tree. -/
  | tree (t : DirectoryTree)
  /-- Take the snapshot of what a tree source reports. -/
  | source (s : PureSource)
  /-- Take the entries of a collection. -/
  | expansion (c : List Root)
  /-- Take the aggregate of a collection. -/
  | collection (s : Strategy) (c : List Root)
  /-- Forget a path. -/
  | invalidate (key : String)
  /-- Forget everything. -/
  | invalidateAll

/-- Trees that may be kept are asked for by their canonical paths. -/
def Request.IsCanonical (w : World) : Request → Prop
  | tree t => t.isFiltered = true ∨ w.IsCanonical t.root
  | expansion c => ∀ r ∈ c, r.IsCanonical w
  | collection _ c => ∀ r ∈ c, r.IsCanonical w
  | _ => True

/-- What a store answers. -/
inductive Answer
  /-- An entry. -/
  | entry (r : Except Failure Entry)
  /-- An aggregate. -/
  | aggregate (r : Except Failure Aggregate)
  /-- A tree. -/
  | tree (r : Except Failure TreeSnapshot)
  /-- The entries of a collection. -/
  | entries (r : Except Failure (List Entry))
  /-- That something has been forgotten. -/
  | done

namespace Host

variable {m : Type → Type} [Monad m]

/-- The answer to a request other than to forget something. -/
def answer (h : Host m) (st : Strategy) : Request → m Answer
  | .entry p => .entry <$> (h.snapshotSelf p).run
  | .aggregate p => .aggregate <$> (h.snapshotAll st p).run
  | .tree t => .tree <$> (h.snapshotTree t).run
  | .source s => .tree <$> (h.snapshotSource s.visit).run
  | .expansion c => .entries <$> (h.expand (c.map Root.element)).run
  | .collection s c => .aggregate <$> (h.snapshotCollection s (c.map Root.element)).run
  | .invalidate _ => return .done
  | .invalidateAll => return .done

end Host

namespace Mirror

variable {σ : Type} (M : Mirror σ) (w : World) (st : Strategy)

/-- The host that keeps its values in a mirror, on a world that stands still. -/
def host : Host (StateM σ) where
  calls := .live (pure w)
  stat := Host.statBy (.live (pure w))
  hasher := .sha256 (.live (pure w))
  entries := ⟨M.lookUpEntry, fun _ e => M.putEntry e⟩
  trees := ⟨M.lookUpTree, fun _ t => M.putTree t⟩
  aggregates := ⟨M.lookUpAggregate, M.putAggregate⟩
  intern _ := return
  keeping _ act := act
  exclusively _ _ act := act

/-- The answer of a store that keeps its values in a mirror. -/
def answer : Request → StateM σ Answer
  | .invalidate key => do
    M.invalidate key
    return .done
  | .invalidateAll => do
    M.invalidateAll
    return .done
  | r => (M.host w).answer st r

/-- The answers to requests that are made one after the other. -/
def answers (rs : List Request) : StateM σ (List Answer) := rs.mapM (M.answer w st)

end Mirror

section Faithful

variable {σ : Type} {Inv : σ → Prop} {w : World} {st : Strategy}

/-- Roots that are spelled canonically are alike. -/
theorem Root.alike_element {r : Root} (hr : r.IsCanonical w) :
    (holding Inv).AlikeElements w r.element r.element := by
  cases r with
  | path p => exact .path hr
  | directory t => exact .directory hr
  | source s => exact .source (s.alike _)

theorem Root.forall₂_element {c : List Root} (hc : ∀ r ∈ c, r.IsCanonical w) :
    List.Forall₂ ((holding Inv).AlikeElements w) (c.map Root.element) (c.map Root.element) := by
  rw [List.forall₂_map_left_iff, List.forall₂_map_right_iff, List.forall₂_same]
  exact fun r hr => alike_element (hc r hr)

/-- A faithful host answers as the bare one does. -/
theorem Host.IsFaithful.answer {h : Host (StateM σ)} (hh : h.IsFaithful w st Inv) {r : Request}
    (hr : r.IsCanonical w) :
    (holding Inv).Rel (h.answer st r) (w.bareHost.answer st r) := by
  cases r with
  | entry p => exact (holding Inv).map _ (hh.snapshotSelf p)
  | aggregate p => exact (holding Inv).map _ (hh.snapshotAll p)
  | tree t => exact (holding Inv).map _ (hh.snapshotTree hr)
  | source s => exact (holding Inv).map _ (hh.snapshotSource (s.alike _))
  | expansion c => exact (holding Inv).map _ (hh.expand (Root.forall₂_element hr))
  | collection s c => exact (holding Inv).map _ (hh.snapshotCollection s (Root.forall₂_element hr))
  | invalidate key => exact (holding Inv).pure _
  | invalidateAll => exact (holding Inv).pure _

end Faithful

/-! ### The invariant -/

/-- A use that does not store anything wrong. -/
def Mirror.Use.IsRight (w : World) (st : Strategy) : Mirror.Use → Prop
  | putEntry e => Host.rightEntry w e.path = .ok e
  | putTree t => ∀ base, t.base = some base → Host.rightTree w base = .ok t
  | putAggregate key a => Host.rightAggregate w st key = .ok a
  | _ => True

/-- All that is written in a ledger is right. -/
structure Ledger.IsRight (l : Ledger) (w : World) (st : Strategy) : Prop where
  /-- Entries. -/
  entry : ∀ key e, l.entries key = some e → Host.rightEntry w key = .ok e
  /-- Trees. -/
  tree : ∀ key t, l.trees key = some t → Host.rightTree w key = .ok t
  /-- Aggregates. -/
  aggregate : ∀ key a, l.aggregates key = some a → Host.rightAggregate w st key = .ok a

namespace Ledger

variable {w : World} {st : Strategy} {l : Ledger}

theorem isRight_blank (w : World) (st : Strategy) : Ledger.blank.IsRight w st :=
  ⟨nofun, nofun, nofun⟩

/-- A right value may be written, and anything may be crossed out. -/
theorem eq_of_update {α : Type} {f : String → Option α} {right : String → Except Failure α}
    (hf : ∀ key a, f key = some a → right key = .ok a) {key : String} {v : Option α}
    (hv : ∀ a, v = some a → right key = .ok a) :
    ∀ other a, Function.update f key v other = some a → right other = .ok a := by
  intro other a ha
  rcases eq_or_ne other key with rfl | hne
  · rw [Function.update_self] at ha
    exact hv a ha
  · rw [Function.update_of_ne hne] at ha
    exact hf other a ha

/-- **Uses that store nothing wrong leave a ledger right.** -/
theorem IsRight.after (hl : l.IsRight w st) {u : Mirror.Use} (hu : u.IsRight w st) :
    (l.after u).IsRight w st := by
  cases u with
  | lookUpEntry key => exact hl
  | lookUpTree key => exact hl
  | lookUpAggregate key => exact hl
  | putEntry e =>
    refine ⟨eq_of_update hl.entry fun a ha => ?_, hl.tree, hl.aggregate⟩
    cases ha
    exact hu
  | putTree t =>
    obtain ⟨base, entries⟩ := t
    cases base with
    | none => exact hl
    | some base =>
      refine ⟨hl.entry, eq_of_update hl.tree fun a ha => ?_, hl.aggregate⟩
      cases ha
      exact hu base rfl
  | putAggregate key a =>
    refine ⟨hl.entry, hl.tree, eq_of_update hl.aggregate fun b hb => ?_⟩
    cases hb
    exact hu
  | invalidate key =>
    exact ⟨eq_of_update hl.entry nofun, eq_of_update hl.tree nofun,
      eq_of_update hl.aggregate nofun⟩
  | invalidateAll => exact isRight_blank w st

/-- A value that is found is written in the ledger. -/
theorem eq_of_admits {α : Type} {inLedger answer : Option α} {a : α}
    (h : Admits inLedger answer) (ha : answer = some a) : inLedger = some a := by
  rcases h with h | h
  · rw [ha] at h
    cases h
  · rw [← h, ha]

end Ledger

/-- **A host keeps to a ledger** if all that it finds is written in one that is right, and uses that
store nothing wrong preserve this. -/
structure Host.KeepsLedger {σ : Type} (h : Host (StateM σ)) (w : World) (st : Strategy)
    (Inv : σ → Prop) : Prop where
  /-- What is found is in a ledger. -/
  ledger : ∀ s, Inv s → ∃ l : Ledger, l.IsRight w st ∧
    (∀ key, Ledger.Admits (l.entries key) (h.entries.find? key s).1) ∧
    (∀ key, Ledger.Admits (l.trees key) (h.trees.find? key s).1) ∧
    ∀ key, Ledger.Admits (l.aggregates key) (h.aggregates.find? key s).1
  /-- Lookups of entries. -/
  lookUpEntry : ∀ key s, Inv s → Inv (h.entries.find? key s).2
  /-- Lookups of trees. -/
  lookUpTree : ∀ key s, Inv s → Inv (h.trees.find? key s).2
  /-- Lookups of aggregates. -/
  lookUpAggregate : ∀ key s, Inv s → Inv (h.aggregates.find? key s).2
  /-- Storing entries. -/
  putEntry : ∀ key e s, Inv s → (Mirror.Use.putEntry e).IsRight w st →
    Inv (h.entries.store key e s).2
  /-- Storing trees. -/
  putTree : ∀ key t s, Inv s → (Mirror.Use.putTree t).IsRight w st → Inv (h.trees.store key t s).2
  /-- Storing aggregates. -/
  putAggregate : ∀ key a s, Inv s → (Mirror.Use.putAggregate key a).IsRight w st →
    Inv (h.aggregates.store key a s).2

namespace Host.KeepsLedger

variable {σ : Type} {h : Host (StateM σ)} {w : World} {st : Strategy} {Inv : σ → Prop}

theorem entries (hl : h.KeepsLedger w st Inv) : h.entries.IsRight Inv (rightEntry w) where
  find := hl.lookUpEntry
  found key s e hs he := by
    obtain ⟨l, hright, hentries, -⟩ := hl.ledger s hs
    exact hright.entry key e (Ledger.eq_of_admits (hentries key) he)
  store key s e hs he := by
    refine hl.putEntry key e s hs ?_
    change rightEntry w e.path = _
    rw [path_of_rightEntry he, he]

theorem trees (hl : h.KeepsLedger w st Inv) : h.trees.IsRight Inv (rightTree w) where
  find := hl.lookUpTree
  found key s t hs ht := by
    obtain ⟨l, hright, -, htrees, -⟩ := hl.ledger s hs
    exact hright.tree key t (Ledger.eq_of_admits (htrees key) ht)
  store key s t hs ht := by
    refine hl.putTree key t s hs fun base hbase => ?_
    rw [base_of_rightTree ht, Option.some.injEq] at hbase
    rw [← hbase, ht]

theorem aggregates (hl : h.KeepsLedger w st Inv) :
    h.aggregates.IsRight Inv (rightAggregate w st) where
  find := hl.lookUpAggregate
  found key s a hs ha := by
    obtain ⟨l, hright, -, -, haggregates⟩ := hl.ledger s hs
    exact hright.aggregate key a (Ledger.eq_of_admits (haggregates key) ha)
  store key s a hs ha := hl.putAggregate key a s hs ha

end Host.KeepsLedger

namespace Mirror

variable {σ : Type} {M : Mirror σ} {start : σ} {w : World} {st : Strategy}

/-- The mirror is in a state that a run has led to in which nothing wrong was stored. -/
def IsSound (M : Mirror σ) (start : σ) (w : World) (st : Strategy) (s : σ) : Prop :=
  ∃ uses : List Use, s = uses.foldl M.after start ∧
    (uses.foldl Ledger.after .blank).IsRight w st

theorem isSound_start (M : Mirror σ) (start : σ) (w : World) (st : Strategy) :
    M.IsSound start w st start :=
  ⟨[], rfl, Ledger.isRight_blank w st⟩

/-- So it is after one more use. -/
theorem IsSound.after {s : σ} (hs : M.IsSound start w st s) {u : Use} (hu : u.IsRight w st) :
    M.IsSound start w st (M.after s u) := by
  obtain ⟨uses, rfl, hl⟩ := hs
  refine ⟨uses ++ [u], by rw [List.foldl_append]; rfl, ?_⟩
  rw [List.foldl_append]
  exact hl.after hu

/-- What an honest mirror answers is written in a ledger that is right. -/
theorem IsSound.exists_ledger {s : σ} (hs : M.IsSound start w st s) (hM : M.IsHonest start) :
    ∃ l : Ledger, l.IsRight w st ∧ M.AnswersBy s l := by
  obtain ⟨uses, rfl, hl⟩ := hs
  exact ⟨_, hl, hM uses⟩

/-- Whatever the mirror keeps, a store on it computes as the bare host does. -/
theorem alikeHosts_host (M : Mirror σ) (w : World) (Inv : σ → Prop) :
    (holding Inv).AlikeHosts (M.host w) w.bareHost :=
  have hcalls : (holding Inv).AlikeCalls (.live (pure w)) (.still w) :=
    Relator.calls_live ((holding Inv).pure w)
  ⟨hcalls, Relator.statBy hcalls, Relator.sha256 hcalls, fun _ => (holding Inv).pure ()⟩

/-- A store on an honest mirror keeps to the ledger of its run. -/
theorem keepsLedger_host (hM : M.IsHonest start) :
    (M.host w).KeepsLedger w st (M.IsSound start w st) where
  ledger s hs := by
    obtain ⟨l, hl, hanswers⟩ := hs.exists_ledger hM
    exact ⟨l, hl, hanswers.entry, hanswers.tree, hanswers.aggregate⟩
  lookUpEntry key _ hs := hs.after (u := .lookUpEntry key) trivial
  lookUpTree key _ hs := hs.after (u := .lookUpTree key) trivial
  lookUpAggregate key _ hs := hs.after (u := .lookUpAggregate key) trivial
  putEntry _ e _ hs he := hs.after (u := .putEntry e) he
  putTree _ t _ hs ht := hs.after (u := .putTree t) ht
  putAggregate key a _ hs ha := hs.after (u := .putAggregate key a) ha

/-- **A store on an honest mirror is faithful** to a world that stands still. -/
theorem isFaithful_host (hM : M.IsHonest start) :
    (M.host w).IsFaithful w st (M.IsSound start w st) where
  alike := alikeHosts_host M w _
  entries := (keepsLedger_host hM).entries
  trees := (keepsLedger_host hM).trees
  aggregates := (keepsLedger_host hM).aggregates
  keeping _ _ _ h := h
  exclusively _ _ _ _ h := h

/-! ### Answers -/

/-- A request is answered as on the bare host, and the mirror stays sound. -/
theorem answer_eq (hM : M.IsHonest start) {r : Request} (hr : r.IsCanonical w) :
    (holding (M.IsSound start w st)).Rel (M.answer w st r) (w.bareHost.answer st r) := by
  cases r with
  | invalidate key => exact fun s hs => ⟨rfl, hs.after (u := .invalidate key) trivial⟩
  | invalidateAll => exact fun s hs => ⟨rfl, hs.after (u := .invalidateAll) trivial⟩
  | _ => exact (isFaithful_host hM).answer hr

/-- So are all requests that are made one after the other. -/
theorem answers_eq (hM : M.IsHonest start) {rs : List Request} (hrs : ∀ r ∈ rs, r.IsCanonical w) :
    (holding (M.IsSound start w st)).Rel (M.answers w st rs)
      (rs.map (w.bareHost.answer st)) := by
  induction rs with
  | nil => exact (holding _).pure []
  | cons r rs ih =>
    have hrest := ih fun r' hr' => hrs r' (List.mem_cons_of_mem _ hr')
    unfold answers at hrest ⊢
    rw [List.mapM_cons]
    exact (holding _).bind (answer_eq hM (hrs r (by simp))) fun a =>
      (holding _).bind hrest fun as => (holding _).pure (a :: as)

/-- **Caches cannot be seen**: each answer is that of a fresh store without a cache. -/
theorem answers_transparent (hM : M.IsHonest start) {rs : List Request}
    (hrs : ∀ r ∈ rs, r.IsCanonical w) :
    ((M.answers w st rs).run start).1 =
      rs.map fun r => ((Cache.mirror.answer w st r).run (.empty .none)).1 := by
  -- A store without a cache keeps its values in a mirror too, one that is always empty.
  have hfresh : ∀ r ∈ rs, ((Cache.mirror.answer w st r).run (.empty .none)).1
      = w.bareHost.answer st r := fun r hr =>
    (answer_eq (Cache.isHonest_mirror .none) (hrs r hr) _ (isSound_start _ _ _ _)).1
  rw [List.map_congr_left hfresh]
  exact (answers_eq hM hrs start (isSound_start M start w st)).1

/-- Requests to stores on a cache that keeps one value of each kind and is blind at every other
lookup. -/
theorem answers_transparent_of_blinded :
    let w := (World.empty.put [[100]] (.directory .epoch)).put [[100], [101]] (.file [1] .epoch)
    let rs : List Request :=
      [.aggregate (.ofString "d"), .tree (.all (.ofString "/d")), .entry (.ofString "/d/../d/e"),
        .tree ⟨.ofString "d", Filter.empty.allowFileName "e"⟩, .invalidate "/d",
        .expansion [.path (.ofString "/d"), .source (.ofScript ⟨[], none⟩)], .invalidateAll,
        .collection .default [.directory (.all (.ofString "/d"))]]
    (Cache.mirror.blinded (· % 2 = 0)).IsHonest (.empty (.recent 1), 0) ∧
      (∀ r ∈ rs, r.IsCanonical w) ∧
      (((Cache.mirror.blinded (· % 2 = 0)).answers w .default rs).run (.empty (.recent 1), 0)).1 =
        rs.map fun r => ((Cache.mirror.answer w .default r).run (.empty .none)).1 := by
  intro w rs
  have hhonest := (Cache.isHonest_mirror (.recent 1)).blinded (· % 2 = 0) 0
  have hd : w.IsCanonical (.ofString "/d") := World.isCanonical_ofString (p := .ofString "/d") rfl
  have hrs : ∀ r ∈ rs, r.IsCanonical w := by
    simp only [rs, List.forall_mem_cons, Request.IsCanonical, Root.IsCanonical]
    exact ⟨trivial, Or.inr hd, trivial, Or.inl rfl, trivial, ⟨hd, trivial, nofun⟩, trivial,
      ⟨Or.inr hd, nofun⟩, nofun⟩
  exact ⟨hhonest, hrs, answers_transparent hhonest hrs⟩

end Mirror

end SnapStore
