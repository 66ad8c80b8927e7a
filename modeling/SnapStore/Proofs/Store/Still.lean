import SnapStore.Proofs.Path.Names
import SnapStore.Proofs.Store.Alike

/-!
# Stores on a world that stands still

On a world that does not change, the answer to a request is a function of the world. It is what
the **bare** host computes (`SnapStore.World.bareHost`), which keeps nothing and needs no state to
run in.

A host with a state is **faithful** to it (`SnapStore.Host.IsFaithful`) if some invariant of the
state makes it compute the same and makes everything that it keeps right: an entry, a tree or an
aggregate that is found is the one that the bare host computes for that key. This file shows that
a faithful host answers every request as the bare one does, and stays faithful
(`SnapStore.Host.IsFaithful.snapshotSelf` and its siblings). The protocol of
`SnapStore.Host.cached` has its two lookups dealt with once, in `SnapStore.Relator.cached`.

A tree is kept under the canonical form of its root, but walked as it is spelled. So what is kept
for one spelling need not be right for another, and requests for unfiltered trees have to be
**canonical** here (`SnapStore.World.IsCanonical`).
-/

namespace SnapStore

/-- Keeps nothing. -/
def Keeper.nothing {α : Type} : Keeper Id α := ⟨fun _ => none, fun _ _ => ()⟩

/-- The host that keeps nothing, on a world that does not change. -/
def World.bareHost (w : World) : Host Id where
  calls := .still w
  stat := Host.statBy (.still w)
  hasher := .sha256 (.still w)
  entries := .nothing
  trees := .nothing
  aggregates := .nothing
  intern _ := ()
  keeping _ act := act
  exclusively _ _ act := act

/-- The key of a path, if it has one. -/
def World.keyOf (w : World) (p : Path) : Except Failure String :=
  (p.canonical w.workingDirectory).mapError .error

theorem World.keyOf_eq_ok_iff {w : World} {p : Path} {key : String} :
    w.keyOf p = .ok key ↔ p.canonical w.workingDirectory = .ok key :=
  Failure.mapError_eq_ok_iff

theorem World.keyOf_of_error {w : World} {p : Path} {e : Error}
    (h : p.canonical w.workingDirectory = .error e) : w.keyOf p = .error (.error e) :=
  Failure.mapError_eq_error_iff.2 ⟨e, h, rfl⟩

/-- What a look at a path makes of what the system says. -/
def Host.seenAt (p : Path) : Except OsError Status → Except Failure Metadata
  | .ok s => Metadata.ofStatus s
  | .error .notFound => .ok .missing
  | .error e => .error (.error (.read ("metadata of " ++ p.display) e.text))

theorem Host.statBy_eq {m : Type → Type} [Monad m] [LawfulMonad m] (calls : Calls m) (p : Path) :
    statBy calls p = seenAt p <$> calls.stat p := by
  unfold statBy
  rw [map_eq_pure_bind]
  refine bind_congr fun answer => ?_
  rcases answer with e | s
  · cases e <;> rfl
  · rfl

/-- A path that is spelled canonically, if it has a canonical form at all. -/
def World.IsCanonical (w : World) (p : Path) : Prop :=
  ∀ c, p.canonical w.workingDirectory = .ok c → p = .ofString c

theorem World.isCanonical_ofString {w : World} {p : Path} {key : String}
    (h : p.canonical w.workingDirectory = .ok key) : w.IsCanonical (.ofString key) := by
  intro c hc
  rw [Path.canonical_ofString h] at hc
  cases hc
  rfl

theorem DirectoryTree.eq_all_of_not_isFiltered {t : DirectoryTree} (h : t.isFiltered = false) :
    t = .all t.root := by
  obtain ⟨root, ⟨includeRoots, excludeRoots, ⟨extensions⟩, ⟨fileNames⟩⟩⟩ := t
  simp only [isFiltered, Filter.isEmpty, NameSet.isEmpty, Bool.not_eq_false', Bool.and_eq_true,
    List.isEmpty_iff] at h
  obtain ⟨⟨⟨rfl, rfl⟩, rfl⟩, rfl⟩ := h
  rfl

/-! ### Holding an invariant -/

variable {σ : Type} {Inv : σ → Prop}

/-- Computations that, wherever the invariant holds, give a certain value and preserve it. -/
def holding (Inv : σ → Prop) : Relator (StateM σ) Id where
  Rel x y := ∀ s, Inv s → (x s).1 = y ∧ Inv (x s).2
  pure _ _ hs := ⟨rfl, hs⟩
  map f _ _ h s hs := ⟨congrArg f (h s hs).1, (h s hs).2⟩
  bind {_ _ x y f g} hx hf s hs := by
    obtain ⟨hvalue, hinv⟩ := hx s hs
    have hrest := hf (x s).1 (x s).2 hinv
    rw [hvalue] at hrest
    change (f (x s).1 (x s).2).1 = g y ∧ Inv (f (x s).1 (x s).2).2
    rw [hvalue]
    exact hrest

/-- Values that are found are right, and right values can be stored. -/
structure Keeper.IsRight {α : Type} (k : Keeper (StateM σ) α) (Inv : σ → Prop)
    (right : String → Except Failure α) : Prop where
  /-- Looking up preserves the invariant. -/
  find : ∀ key s, Inv s → Inv (k.find? key s).2
  /-- What is found is right. -/
  found : ∀ key s a, Inv s → (k.find? key s).1 = some a → right key = .ok a
  /-- Storing what is right preserves the invariant. -/
  store : ∀ key s a, Inv s → right key = .ok a → Inv (k.store key a s).2

namespace Host

/-- What an uncached computation of an entry gives. -/
def rightEntry (w : World) (key : String) : Except Failure Entry := (w.bareHost.observe key).run

/-- What an uncached walk below the path of a key gives. -/
def rightTree (w : World) (key : String) : Except Failure TreeSnapshot :=
  (w.bareHost.walk (some key) ((DirectoryTree.all (.ofString key)).visit
    w.bareHost.calls.lift)).run

/-- What an uncached computation of an aggregate gives. -/
def rightAggregate (w : World) (st : Strategy) (key : String) : Except Failure Aggregate :=
  (w.bareHost.snapshotCollection st [.path (.ofString key)]).run

/-- **A host is faithful** to a world if it computes as the bare host does and all that it keeps
is right. -/
structure IsFaithful (h : Host (StateM σ)) (w : World) (st : Strategy) (Inv : σ → Prop) :
    Prop where
  /-- What it computes. -/
  alike : (holding Inv).AlikeHosts h w.bareHost
  /-- Entries that it keeps. -/
  entries : h.entries.IsRight Inv (rightEntry w)
  /-- Trees that it keeps. -/
  trees : h.trees.IsRight Inv (rightTree w)
  /-- Aggregates that it keeps. -/
  aggregates : h.aggregates.IsRight Inv (rightAggregate w st)
  /-- Giving up keys makes no difference. -/
  keeping : ∀ {α : Type} (keys : α → List String) {x : StateM σ α} {y : Id α},
    (holding Inv).Rel x y → (holding Inv).Rel (h.keeping keys x) y
  /-- Critical sections make no difference. -/
  exclusively : ∀ {α : Type} (production : Production) (key : String) {x : StateM σ α} {y : Id α},
    (holding Inv).Rel x y → (holding Inv).Rel (h.exclusively production key x) y

/-- The protocol of the cache comes to the computation alone where nothing is kept. -/
theorem bareHost_cached (w : World) {α : Type} (production : Production) (key : String)
    (compute : ExceptT Failure Id α) :
    w.bareHost.cached .nothing production key compute = compute :=
  match (compute : Except Failure α) with
  | .ok _ => rfl
  | .error _ => rfl

end Host

/-- A value comes out of two steps if one comes out of the first, and from it one out of the
second. -/
theorem exists_of_bind {ε α β : Type} {x : ExceptT ε Id α} {f : α → ExceptT ε Id β} {b : β}
    (h : (x >>= f).run = Except.ok b) : ∃ a, x.run = Except.ok a ∧ (f a).run = Except.ok b := by
  change ExceptT.bindCont (m := Id) f x.run = _ at h
  rcases hx : (x.run : Except ε α) with e | a
  · rw [hx] at h
    cases h
  · rw [hx] at h
    exact ⟨a, rfl, h⟩

/-- A computation with a state goes on from the value and the state that it has come to. -/
theorem run_bind_of_ok {ε α β : Type} {x : ExceptT ε (StateM σ) α} {f : α → ExceptT ε (StateM σ) β}
    {s s' : σ} {a : α} (h : x.run s = (.ok a, s')) : (x >>= f).run s = (f a).run s' := by
  change (ExceptT.bindCont f (x.run s).1 : StateM σ _) (x.run s).2 = _
  rw [h]
  rfl

/-- It goes no further after a failure. -/
theorem run_bind_of_error {ε α β : Type} {x : ExceptT ε (StateM σ) α}
    {f : α → ExceptT ε (StateM σ) β} {s s' : σ} {e : ε} (h : x.run s = (.error e, s')) :
    (x >>= f).run s = (.error e, s') := by
  change (ExceptT.bindCont f (x.run s).1 : StateM σ _) (x.run s).2 = _
  rw [h]
  rfl

/-! ### What the bare host computes -/

namespace Host

theorem bareHost_key (w : World) (p : Path) :
    w.bareHost.key p = w.keyOf p := by
  have hpure : ∀ r : Except Failure String,
      ExceptT.bindCont (m := Id) (fun key => (pure key : ExceptT Failure Id String)) r = r := by
    rintro (e | key) <;> rfl
  exact hpure _

/-- An entry has the path of the key that it was computed for, whatever was seen there. -/
theorem path_of_observe {h : Host Id} {key : String} {e : Entry}
    (hobserve : (h.observe key).run = Except.ok e) : e.path = key := by
  obtain ⟨seen, -, hseen⟩ := exists_of_bind hobserve
  cases hs : seen.fileType with
  | missing =>
    rw [hs] at hseen
    cases hseen
    rfl
  | directory =>
    rw [hs] at hseen
    obtain ⟨relative, -, hrelative⟩ := exists_of_bind hseen
    cases hrelative
    rfl
  | regularFile =>
    rw [hs] at hseen
    obtain ⟨hashed, -, hhashed⟩ := exists_of_bind hseen
    rcases hashed with e' | digest
    · cases e' <;> cases hhashed
      rfl
    · obtain ⟨relative, -, hrelative⟩ := exists_of_bind hhashed
      cases hrelative
      rfl
  | other =>
    rw [hs] at hseen
    cases hseen

theorem path_of_rightEntry {w : World} {key : String} {e : Entry}
    (h : rightEntry w key = .ok e) : e.path = key :=
  path_of_observe h

/-- A tree has the key that it was computed for as its base, whatever was reported. -/
theorem base_of_walk {h : Host Id} {base : Option String} {s : TreeSource (Collecting Id)}
    {t : TreeSnapshot} (hwalk : (h.walk base s).run = Except.ok t) : t.base = base := by
  obtain ⟨⟨ending, entries⟩, -, hending⟩ := exists_of_bind hwalk
  cases ending with
  | ok _ =>
    cases hending
    rfl
  | error e => cases hending

theorem base_of_rightTree {w : World} {key : String} {t : TreeSnapshot}
    (h : rightTree w key = .ok t) : t.base = some key :=
  base_of_walk h

end Host

namespace Relator

variable {w : World} {st : Strategy} {h : Host (StateM σ)} {α : Type} {k : Keeper (StateM σ) α}
  {right : String → Except Failure α} {key : String}

/-- A computation is continued from the value that it is known to give. -/
theorem bindValue {ε α β : Type} {x : ExceptT ε (StateM σ) α} {y : Except ε α}
    {f : α → ExceptT ε (StateM σ) β} {g : α → ExceptT ε Id β}
    (hx : ((holding Inv).except ε).Rel x y)
    (hf : ∀ a, y = .ok a → ((holding Inv).except ε).Rel (f a) (g a)) :
    ((holding Inv).except ε).Rel (x >>= f) ((y : ExceptT ε Id α) >>= g) := by
  intro s hs
  obtain ⟨hvalue, hinv⟩ := hx s hs
  change (x.run s).1 = y at hvalue
  have hrun : (x >>= f).run s = (ExceptT.bindCont f (x.run s).1 : StateM σ _) (x.run s).2 := rfl
  rw [hrun, hvalue]
  rcases y with e | a
  · exact ⟨rfl, hinv⟩
  · exact hf a rfl _ hinv

/-- A computation that gives a right value goes on alike after a lookup. -/
theorem lookUp (hk : k.IsRight Inv right) {f : Option α → ExceptT Failure (StateM σ) α}
    (hsome : ∀ a, right key = .ok a → ((holding Inv).except Failure).Rel (f (some a)) (right key))
    (hnone : ((holding Inv).except Failure).Rel (f none) (right key)) :
    ((holding Inv).except Failure).Rel (liftM (k.find? key) >>= f) (right key) := by
  intro s hs
  have hinv := hk.find key s hs
  change ((f (k.find? key s).1).run (k.find? key s).2).1 = right key ∧
    Inv ((f (k.find? key s).1).run (k.find? key s).2).2
  rcases hfound : (k.find? key s).1 with _ | a
  · exact hnone _ hinv
  · exact hsome a (hk.found key s a hs hfound) _ hinv

/-- What has been computed is stored. -/
theorem storing (hk : k.IsRight Inv right) {compute : ExceptT Failure (StateM σ) α}
    (hc : ((holding Inv).except Failure).Rel compute (right key)) :
    ((holding Inv).except Failure).Rel
      (do
        let a ← compute
        k.store key a
        return a)
      (right key) := by
  intro s hs
  have hrun : ∀ f : α → ExceptT Failure (StateM σ) α, (compute >>= f).run s
      = (ExceptT.bindCont f (compute.run s).1 : StateM σ (Except Failure α)) (compute.run s).2 :=
    fun _ => rfl
  obtain ⟨hvalue, hinv⟩ := hc s hs
  change (compute.run s).1 = right key at hvalue
  rw [hrun, hvalue]
  rcases hr : right key with e | a
  · exact ⟨rfl, hinv⟩
  · exact ⟨rfl, hk.store key _ a hinv hr⟩

/-- **The protocol of the cache gives what the computation gives**, if what is kept is right. -/
theorem cached (hh : h.IsFaithful w st Inv) (hk : k.IsRight Inv right) (production : Production)
    {compute : ExceptT Failure (StateM σ) α}
    (hc : ((holding Inv).except Failure).Rel compute (right key)) :
    ((holding Inv).except Failure).Rel (h.cached k production key compute) (right key) := by
  have hpure : ∀ a, right key = .ok a →
      ((holding Inv).except Failure).Rel (Pure.pure a) (right key) := by
    intro a ha
    rw [ha]
    exact ((holding Inv).except Failure).pure a
  -- Two lookups, before the critical section and in it, and then the computation.
  refine lookUp hk hpure ?_
  refine hh.exclusively production key (x := ExceptT.run _) ?_
  exact lookUp hk hpure (storing hk hc)

/-- Roots of collections that are alike, and spelled canonically where a tree is kept. -/
inductive AlikeElements {m n : Type → Type} [Monad m] [Monad n] (R : Relator m n) (w : World) :
    Element m → Element n → Prop
  /-- A path. -/
  | path {p : Path} (hp : w.IsCanonical p) : AlikeElements R w (.path p) (.path p)
  /-- A directory, narrowed by a filter or asked for canonically. -/
  | directory {t : DirectoryTree} (ht : t.isFiltered = true ∨ w.IsCanonical t.root) :
    AlikeElements R w (.directory t) (.directory t)
  /-- Alike tree sources. -/
  | source {s : TreeSource (Collecting m)} {t : TreeSource (Collecting n)}
    (h : (R.state (List Entry)).AlikeSources s t) : AlikeElements R w (.source s) (.source t)

end Relator

/-! ### Answers of a faithful host -/

namespace Host.IsFaithful

open SnapStore.Relator

variable {w : World} {st : Strategy} {h : Host (StateM σ)} (hh : h.IsFaithful w st Inv)

include hh

/-- The entry of a path. -/
theorem snapshotSelf (p : Path) :
    ((holding Inv).except Failure).Rel (h.snapshotSelf p) (w.bareHost.snapshotSelf p) := by
  refine ((holding Inv).except Failure).bind (Relator.key hh.alike p) fun key => ?_
  rw [show w.bareHost.entries = .nothing from rfl, bareHost_cached]
  exact Relator.cached hh hh.entries .entry (Relator.observe hh.alike key)

/-- The entries below a directory. -/
theorem snapshotTree {t : DirectoryTree} (ht : t.isFiltered = true ∨ w.IsCanonical t.root) :
    ((holding Inv).except Failure).Rel (h.snapshotTree t) (w.bareHost.snapshotTree t) := by
  have hcompute : ∀ (key : String) (u : DirectoryTree), ((holding Inv).except Failure).Rel
      (h.walk (some key) (u.visit h.calls.lift))
      (w.bareHost.walk (some key) (u.visit w.bareHost.calls.lift)) :=
    fun key u => Relator.walk hh.alike _ (visit_directoryTree (calls_lift hh.alike.calls) u)
  refine bindValue (Relator.key hh.alike t.root) fun key hkey => ?_
  rw [bareHost_key, World.keyOf_eq_ok_iff] at hkey
  by_cases hfiltered : t.isFiltered = true
  · rw [if_pos hfiltered, if_pos hfiltered]
    exact hcompute key t
  · -- Here it is needed that the root is spelled canonically: the key says all of the walk.
    have hroot : t = .all (.ofString key) := by
      rw [← ht.resolve_left hfiltered key hkey]
      exact DirectoryTree.eq_all_of_not_isFiltered (by simpa using hfiltered)
    rw [if_neg hfiltered, if_neg hfiltered,
      show w.bareHost.trees = .nothing from rfl, bareHost_cached, hroot]
    exact Relator.cached hh hh.trees .tree (hcompute key _)

/-- The entries that a tree source reports. -/
theorem snapshotSource {s : TreeSource (Collecting (StateM σ))} {t : TreeSource (Collecting Id)}
    (hst : ((holding Inv).state (List Entry)).AlikeSources s t) :
    ((holding Inv).except Failure).Rel (h.snapshotSource s) (w.bareHost.snapshotSource t) :=
  Relator.walk hh.alike none hst

theorem expandElement {e : Element (StateM σ)} {e' : Element Id}
    (he : (holding Inv).AlikeElements w e e') :
    ((holding Inv).except Failure).Rel (h.expandElement e) (w.bareHost.expandElement e') := by
  cases he with
  | @path p hp =>
    refine ((holding Inv).except Failure).bind (snapshotSelf hh p) fun found => ?_
    cases found with
    | missing path name => exact ((holding Inv).except Failure).pure _
    | file path relative isRoot snapshot => exact ((holding Inv).except Failure).pure _
    | directory path relative isRoot =>
      refine ((holding Inv).except Failure).bind ?_ fun _ => ((holding Inv).except Failure).pure _
      exact snapshotTree hh (Or.inr hp)
  | directory ht =>
    exact ((holding Inv).except Failure).bind (snapshotTree hh ht) fun _ =>
      ((holding Inv).except Failure).pure _
  | source hst =>
    exact ((holding Inv).except Failure).bind (snapshotSource hh hst) fun _ =>
      ((holding Inv).except Failure).pure _

/-- The entries of a collection. -/
theorem expand {es : List (Element (StateM σ))} {es' : List (Element Id)}
    (hes : List.Forall₂ ((holding Inv).AlikeElements w) es es') :
    ((holding Inv).except Failure).Rel (h.expand es) (w.bareHost.expand es') := by
  induction hes with
  | nil => exact ((holding Inv).except Failure).pure []
  | cons he _ ih =>
    refine ((holding Inv).except Failure).bind
      (hh.keeping _ (expandElement hh he)) fun first => ?_
    exact ((holding Inv).except Failure).bind ih fun rest => ((holding Inv).except Failure).pure _

/-- One aggregate for a collection. -/
theorem snapshotCollection (s : Strategy) {es : List (Element (StateM σ))}
    {es' : List (Element Id)} (hes : List.Forall₂ ((holding Inv).AlikeElements w) es es') :
    ((holding Inv).except Failure).Rel (h.snapshotCollection s es)
      (w.bareHost.snapshotCollection s es') :=
  ((holding Inv).except Failure).bind (expand hh hes) fun _ => ((holding Inv).except Failure).pure _

/-- The aggregate of a path and all that is below it. -/
theorem snapshotAll (p : Path) :
    ((holding Inv).except Failure).Rel (h.snapshotAll st p) (w.bareHost.snapshotAll st p) := by
  refine bindValue (Relator.key hh.alike p) fun key hkey => ?_
  rw [bareHost_key, World.keyOf_eq_ok_iff] at hkey
  rw [show w.bareHost.aggregates = .nothing from rfl, bareHost_cached]
  refine Relator.cached hh hh.aggregates .aggregate (snapshotCollection hh st ?_)
  exact .cons (.path (World.isCanonical_ofString hkey)) .nil

end Host.IsFaithful

end SnapStore
