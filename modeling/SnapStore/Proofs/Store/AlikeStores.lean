import SnapStore.Proofs.Store.Alike
import SnapStore.Proofs.Store.Transparency

/-!
# Stores that are alike in all they have

Hosts that compute alike and keep alike (`SnapStore.Relator.AlikeStores`) answer every request alike
(`SnapStore.Relator.answer`). Nothing is supposed of what they keep, and the world need not stand
still: what is found is the same on both sides, right or not.

Collections are made of single snapshots. For them it is enough that these are alike, however that
comes about (`SnapStore.Relator.AlikeSnapshots`).
-/

namespace SnapStore.Relator

variable {m n : Type → Type} [Monad m] [Monad n] (R : Relator m n)

/-- Places to keep values that are alike. -/
structure AlikeKeepers {α : Type} (k : Keeper m α) (l : Keeper n α) : Prop where
  /-- Lookups. -/
  find : ∀ key, R.Rel (k.find? key) (l.find? key)
  /-- Storing. -/
  store : ∀ key a, R.Rel (k.store key a) (l.store key a)

/-- **Hosts that are alike in all they have.** -/
structure AlikeStores (h : Host m) (k : Host n) : Prop extends R.AlikeHosts h k where
  /-- Entries that are kept. -/
  entries : R.AlikeKeepers h.entries k.entries
  /-- Trees that are kept. -/
  trees : R.AlikeKeepers h.trees k.trees
  /-- Aggregates that are kept. -/
  aggregates : R.AlikeKeepers h.aggregates k.aggregates
  /-- Giving up keys. -/
  keeping : ∀ {α : Type} (keys : α → List String) {x : m α} {y : n α},
    R.Rel x y → R.Rel (h.keeping keys x) (k.keeping keys y)
  /-- Critical sections. -/
  exclusively : ∀ {α : Type} (production : Production) (key : String) {x : m α} {y : n α},
    R.Rel x y → R.Rel (h.exclusively production key x) (k.exclusively production key y)

/-- Roots of collections that are alike. -/
inductive SameElements : Element m → Element n → Prop
  /-- A path. -/
  | path (p : Path) : SameElements (.path p) (.path p)
  /-- A directory. -/
  | directory (t : DirectoryTree) : SameElements (.directory t) (.directory t)
  /-- Alike tree sources. -/
  | source {s : TreeSource (Collecting m)} {t : TreeSource (Collecting n)}
    (h : (R.state (List Entry)).AlikeSources s t) : SameElements (.source s) (.source t)

/-- Hosts that take snapshots of single paths and of trees alike. -/
structure AlikeSnapshots (h : Host m) (k : Host n) : Prop extends R.AlikeHosts h k where
  /-- Snapshots of paths. -/
  self : ∀ p, (R.except Failure).Rel (h.snapshotSelf p) (k.snapshotSelf p)
  /-- Snapshots of trees. -/
  tree : ∀ t, (R.except Failure).Rel (h.snapshotTree t) (k.snapshotTree t)
  /-- Giving up keys. -/
  keeping : ∀ {α : Type} (keys : α → List String) {x : m α} {y : n α},
    R.Rel x y → R.Rel (h.keeping keys x) (k.keeping keys y)

variable {R} {h : Host m} {k : Host n}

/-! ### Collections -/

section Snapshots

variable (hk : R.AlikeSnapshots h k)

include hk

theorem expandElement {e : Element m} {e' : Element n} (he : R.SameElements e e') :
    (R.except Failure).Rel (h.expandElement e) (k.expandElement e') := by
  cases he with
  | path p =>
    refine (R.except Failure).bind (hk.self p) fun found => ?_
    cases found with
    | missing path name => exact (R.except Failure).pure _
    | file path relative isRoot snapshot => exact (R.except Failure).pure _
    | directory path relative isRoot =>
      exact (R.except Failure).bind (hk.tree _) fun _ => (R.except Failure).pure _
  | directory t => exact (R.except Failure).bind (hk.tree t) fun _ => (R.except Failure).pure _
  | source hst =>
    exact (R.except Failure).bind (walk hk.toAlikeHosts none hst) fun _ => (R.except Failure).pure _

theorem expand {es : List (Element m)} {es' : List (Element n)}
    (hes : List.Forall₂ R.SameElements es es') :
    (R.except Failure).Rel (h.expand es) (k.expand es') := by
  induction hes with
  | nil => exact (R.except Failure).pure []
  | cons he _ ih =>
    refine (R.except Failure).bind (hk.keeping _ (expandElement hk he)) fun first => ?_
    exact (R.except Failure).bind ih fun rest => (R.except Failure).pure _

theorem snapshotCollection (st : Strategy) {es : List (Element m)} {es' : List (Element n)}
    (hes : List.Forall₂ R.SameElements es es') :
    (R.except Failure).Rel (h.snapshotCollection st es) (k.snapshotCollection st es') :=
  (R.except Failure).bind (expand hk hes) fun _ => (R.except Failure).pure _

omit hk in
theorem sameElements_element (c : List Root) :
    List.Forall₂ R.SameElements (c.map Root.element) (c.map Root.element) := by
  rw [List.forall₂_map_left_iff, List.forall₂_map_right_iff, List.forall₂_same]
  rintro (p | t | s) -
  · exact .path p
  · exact .directory t
  · exact .source (s.alike _)

/-- Requests are answered alike if aggregates of paths are alike, too. -/
theorem answer_of_snapshots (st : Strategy)
    (hall : ∀ p, (R.except Failure).Rel (h.snapshotAll st p) (k.snapshotAll st p)) (r : Request) :
    R.Rel (h.answer st r) (k.answer st r) := by
  cases r with
  | entry p => exact R.map _ (hk.self p)
  | aggregate p => exact R.map _ (hall p)
  | tree t => exact R.map _ (hk.tree t)
  | source s => exact R.map _ (walk hk.toAlikeHosts none (s.alike _))
  | expansion c => exact R.map _ (expand hk (sameElements_element c))
  | collection s c => exact R.map _ (snapshotCollection hk s (sameElements_element c))
  | invalidate key => exact R.pure _
  | invalidateAll => exact R.pure _

end Snapshots

/-! ### Stores -/

variable (hk : R.AlikeStores h k)

include hk

/-- The protocol of the cache. -/
theorem cachedAlike {α : Type} {a : Keeper m α} {b : Keeper n α} (hab : R.AlikeKeepers a b)
    (production : Production) (key : String) {x : ExceptT Failure m α} {y : ExceptT Failure n α}
    (hxy : (R.except Failure).Rel x y) :
    (R.except Failure).Rel (h.cached a production key x) (k.cached b production key y) := by
  refine (R.except Failure).bind (lift (hab.find key)) fun found => ?_
  cases found with
  | some v => exact (R.except Failure).pure v
  | none =>
    -- The second lookup, in the critical section.
    refine hk.exclusively production key (x := ExceptT.run _) (y := ExceptT.run _) ?_
    refine (R.except Failure).bind (lift (hab.find key)) fun found => ?_
    cases found with
    | some v => exact (R.except Failure).pure v
    | none =>
      refine (R.except Failure).bind hxy fun v => ?_
      exact (R.except Failure).bind (lift (hab.store key v)) fun _ => (R.except Failure).pure v

theorem snapshotSelf (p : Path) :
    (R.except Failure).Rel (h.snapshotSelf p) (k.snapshotSelf p) :=
  (R.except Failure).bind (key hk.toAlikeHosts p) fun key =>
    cachedAlike hk hk.entries .entry key (observe hk.toAlikeHosts key)

theorem snapshotTree (t : DirectoryTree) :
    (R.except Failure).Rel (h.snapshotTree t) (k.snapshotTree t) := by
  refine (R.except Failure).bind (key hk.toAlikeHosts t.root) fun key => ?_
  have hwalk := walk hk.toAlikeHosts (some key) (visit_directoryTree (calls_lift hk.calls) t)
  dsimp only
  split_ifs
  · exact hwalk
  · exact cachedAlike hk hk.trees .tree key hwalk

theorem AlikeStores.toAlikeSnapshots : R.AlikeSnapshots h k where
  toAlikeHosts := hk.toAlikeHosts
  self := snapshotSelf hk
  tree := snapshotTree hk
  keeping := hk.keeping

theorem snapshotAll (st : Strategy) (p : Path) :
    (R.except Failure).Rel (h.snapshotAll st p) (k.snapshotAll st p) :=
  (R.except Failure).bind (key hk.toAlikeHosts p) fun key =>
    cachedAlike hk hk.aggregates .aggregate key
      (snapshotCollection hk.toAlikeSnapshots st (.cons (.path (.ofString key)) .nil))

/-- **Every request is answered alike.** -/
theorem answer (st : Strategy) (r : Request) : R.Rel (h.answer st r) (k.answer st r) :=
  answer_of_snapshots hk.toAlikeSnapshots st (snapshotAll hk st) r

end SnapStore.Relator
