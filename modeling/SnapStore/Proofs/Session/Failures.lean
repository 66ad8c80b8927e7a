import Mathlib.Logic.Relation
import SnapStore.Proofs.Session.Additions

/-!
# Failures leave no trace

A request can fail for many reasons: its path has no key, a look or a digest fails, a walk breaks
off at some entry, or a later root of a collection fails when earlier ones were done. What it has
added to the cache by then are snapshots that were completed (`SnapStore.Session.Gains`): those of
the roots up to the one that failed. A request for a single snapshot has completed none
(`SnapStore.Session.trace_of_failure`).

So no tree in the cache is a part of what was below its root: each was walked to the end, at some
time in the run of the session (`SnapStore.Session.isWhole_of_goes`).
-/

namespace SnapStore

/-! ### Gains -/

/-- What is under a key is what was there before or, where nothing was, something of this kind. -/
def Gained {α : Type} (before after : Option α) (kind : α → Prop) : Prop :=
  after = before ∨ before = none ∧ ∃ a, after = some a ∧ kind a

/-- A value of the right kind may be stored where nothing is. -/
theorem gained_store {α : Type} {shelf : Shelf α} {before : String → Option α}
    {kind : String → α → Prop}
    (h : ∀ key, Gained (before key) (shelf.find? key) (kind key)) {key : String} {a : α}
    (hnone : shelf.find? key = none) (ha : kind key a) (other : String) :
    Gained (before other) ((shelf.store .all key a).find? other) (kind other) := by
  rw [Shelf.find?_store_all]
  split_ifs with hother
  · subst hother
    refine Or.inr ⟨?_, a, rfl, ha⟩
    rcases h other with hbefore | ⟨hbefore, -⟩
    · rw [← hbefore, hnone]
    · exact hbefore
  · exact h other

namespace Session

variable {s₀ s s' : Session} {P : Cache → Prop} {c : Cache} {selves roots : Path → Prop}

/-- All that a cache has gained are entries of some paths and whole trees below some. -/
structure Gains (s₀ : Session) (selves roots : Path → Prop) (c : Cache) : Prop where
  /-- Nothing is hidden or dropped. -/
  keepsAll : s₀.KeepsAll c
  /-- Entries. -/
  entries : ∀ key, Gained (s₀.cache.entries.find? key) (c.entries.find? key) fun e =>
    ∃ p, selves p ∧ p.canonical s₀.world.workingDirectory = .ok key ∧ s₀.computedEntry key = .ok e
  /-- Trees. -/
  trees : ∀ key, Gained (s₀.cache.trees.find? key) (c.trees.find? key) fun t =>
    ∃ p, roots p ∧ p.canonical s₀.world.workingDirectory = .ok key ∧ s₀.computedTree key p = .ok t

theorem gains_self (hall : s.KeepsAll s.cache) : Gains s selves roots s.cache :=
  ⟨hall, fun _ => Or.inl rfl, fun _ => Or.inl rfl⟩

theorem KeepsAll.of_retention (h : s₀.KeepsAll c) {c' : Cache} (hc : c'.retention = c.retention) :
    s₀.KeepsAll c' :=
  ⟨h.isBlind, hc.trans h.retention⟩

/-- What has been gained is kept up while more is added. -/
theorem absorbs_gains : Absorbs s₀ selves roots (Gains s₀ selves roots) where
  keepsAll hc := hc.keepsAll
  same hc h := by
    refine ⟨hc.keepsAll.of_retention h.retention, ?_, ?_⟩
    · rw [h.entries]
      exact hc.entries
    · rw [h.trees]
      exact hc.trees
  putEntry {c p key e} hc hp hkey hnone hcomputed := by
    refine ⟨hc.keepsAll.of_retention rfl, fun other => ?_, hc.trees⟩
    change Gained _ ((c.entries.store c.retention e.path e).find? other) _
    rw [hc.keepsAll.retention, Host.path_of_observe hcomputed]
    exact gained_store hc.entries hnone ⟨p, hp, hkey, hcomputed⟩ other
  putTree {c p key t} hc hp hkey hnone hcomputed := by
    have hbase : t.base = some key := Host.base_of_walk hcomputed
    unfold Cache.putTree
    rw [hbase]
    refine ⟨hc.keepsAll.of_retention rfl, hc.entries, fun other => ?_⟩
    dsimp only
    rw [hc.keepsAll.retention]
    exact gained_store hc.trees hnone ⟨p, hp, hkey, hcomputed⟩ other

/-- Aggregates are not added in this way. -/
theorem Absorbs.aggregates (h : Absorbs s₀ selves roots P) (shelf : Shelf Aggregate) :
    Absorbs s₀ selves roots fun c => P c ∧ c.aggregates = shelf where
  keepsAll hc := h.keepsAll hc.1
  same hc hsame := ⟨h.same hc.1 hsame, hsame.aggregates.trans hc.2⟩
  putEntry hc hp hkey hnone hcomputed := ⟨h.putEntry hc.1 hp hkey hnone hcomputed, hc.2⟩
  putTree {c p key t} hc hp hkey hnone hcomputed := by
    refine ⟨h.putTree hc.1 hp hkey hnone hcomputed, ?_⟩
    unfold Cache.putTree
    cases t.base with
    | none => exact hc.2
    | some base => exact hc.2

/-! ### Collections -/

/-- The path is a root of a collection. -/
def asksEntry (ms : List Member) (p : Path) : Prop := .path p ∈ ms

/-- The path is the root of a whole tree that a collection asks for. -/
def asksTree (ms : List Member) (p : Path) : Prop :=
  .path p ∈ ms ∨ ∃ t, .directory t ∈ ms ∧ t.isFiltered = false ∧ t.root = p

theorem isRoot_of_mem {ms : List Member} {m : Member} (hm : m ∈ ms) :
    IsRoot (asksEntry ms) (asksTree ms) m := by
  cases m with
  | path p => exact ⟨hm, Or.inl hm⟩
  | directory t => exact fun ht => Or.inr ⟨t, hm, ht, rfl⟩
  | source source => trivial

/-- All that a cache has gained are snapshots of the roots of a collection. -/
def GainsOf (s₀ : Session) (ms : List Member) (c : Cache) : Prop :=
  Gains s₀ (asksEntry ms) (asksTree ms) c ∧ c.aggregates = s₀.cache.aggregates

theorem gainsOf_expand (hall : s.KeepsAll s.cache) (ms : List Member) :
    GainsOf s ms ((host.expand (ms.map element)).run s).2.cache := by
  have habsorbs : Absorbs s (asksEntry ms) (asksTree ms) fun c =>
      Gains s (asksEntry ms) (asksTree ms) c ∧ c.aggregates = s.cache.aggregates :=
    absorbs_gains.aggregates _
  exact (habsorbs.preserves_expand (fun _ => isRoot_of_mem) s
    (isLike_self ⟨gains_self hall, rfl⟩)).cache

/-- **A collection fails at one of its roots**, and what is new are snapshots of the roots up to
there. -/
theorem trace_of_failed_expand (hall : s.KeepsAll s.cache) {ms : List Member} {e : Failure}
    (hrun : (host.expand (ms.map element)).run s = (.error e, s')) :
    ∃ done m rest, ms = done ++ m :: rest ∧
      (∃ entries s₁, (host.expand (done.map element)).run s = (.ok entries, s₁)) ∧
      (host.expand ((done ++ [m]).map element)).run s = (.error e, s') ∧
      GainsOf s (done ++ [m]) s'.cache := by
  obtain ⟨done, m, rest, hms, hdone, hfails⟩ := Host.exists_failing_root hrun
  obtain ⟨done, ms', rfl, rfl, hms'⟩ := List.map_eq_append_iff.1 hms
  obtain ⟨m, rest, rfl, rfl, rfl⟩ := List.map_eq_cons_iff.1 hms'
  have hmap : done.map element ++ [element m] = (done ++ [m]).map element := by simp
  rw [hmap] at hfails
  refine ⟨done, m, rest, rfl, hdone, hfails, ?_⟩
  have hgains := gainsOf_expand hall (done ++ [m])
  rw [hfails] at hgains
  exact hgains

/-- The aggregate of a collection fails as its entries do. -/
theorem run_expand_of_failed_collection {st : Strategy} {es : List (Element Run)} {e : Failure}
    (hrun : (host.snapshotCollection st es).run s = (.error e, s')) :
    (host.expand es).run s = (.error e, s') := by
  rcases hexpand : (host.expand es).run s with ⟨e' | entries, s₁⟩
  · rw [show (host.snapshotCollection st es).run s = _ from run_bind_of_error hexpand] at hrun
    cases hrun
    rfl
  · rw [show (host.snapshotCollection st es).run s = _ from SnapStore.run_bind_of_ok hexpand]
      at hrun
    cases hrun

/-! ### Single snapshots -/

theorem trace_of_failed_self (hall : s.KeepsAll s.cache) {p : Path} {e : Failure}
    (hrun : (host.snapshotSelf p).run s = (.error e, s')) : s.cache.KeepsSame s'.cache := by
  have hs : IsLike s s.cache.KeepsSame s := isLike_self (.refl _)
  rcases hkey : p.canonical s.world.workingDirectory with e' | key
  · obtain ⟨s₁, hs₁, hrun'⟩ := run_of_no_key hkey hs
    rw [show (host.snapshotSelf p).run s = _ from hrun', Prod.mk.injEq] at hrun
    rw [← hrun.2]
    exact hs₁.cache
  · have hcomes := comes_snapshotSelf hall hkey hs
    rw [hrun] at hcomes
    rcases hcomes with _ | _ | ⟨-, -, hs'⟩
    exact hs'.cache

theorem trace_of_failed_tree (hall : s.KeepsAll s.cache) {t : DirectoryTree} {e : Failure}
    (hrun : (host.snapshotTree t).run s = (.error e, s')) : s.cache.KeepsSame s'.cache := by
  have hs : IsLike s s.cache.KeepsSame s := isLike_self (.refl _)
  by_cases hfiltered : t.isFiltered = true
  · have hs' := preserves_filteredTree hfiltered s hs
    rw [hrun] at hs'
    exact hs'.cache
  · rw [DirectoryTree.eq_all_of_not_isFiltered (t := t) (by simpa using hfiltered)] at hrun
    generalize t.root = p at hrun
    rcases hkey : p.canonical s.world.workingDirectory with e' | key
    · obtain ⟨s₁, hs₁, hrun'⟩ := run_of_no_key hkey hs
      rw [show (host.snapshotTree (.all p)).run s = _ from hrun', Prod.mk.injEq] at hrun
      rw [← hrun.2]
      exact hs₁.cache
    · have hcomes := comes_snapshotTree hall hkey hs
      rw [hrun] at hcomes
      rcases hcomes with _ | _ | ⟨-, -, hs'⟩
      exact hs'.cache

/-- The cache is as it was, but for the entry of a key, which was not there. -/
def GainsEntry (s₀ : Session) (key : String) (c c' : Cache) : Prop :=
  c.KeepsSame c' ∨ ∃ entry, c.entries.find? key = none ∧ s₀.computedEntry key = .ok entry ∧
    (c.putEntry entry).KeepsSame c'

/-- If a path of a collection fails, its entry may be new, and nothing else. -/
theorem trace_of_failed_path {key : String} {p : Path} (hall : s₀.KeepsAll c)
    (hp : p.canonical s₀.world.workingDirectory = .ok key) (hs : IsLike s₀ c.KeepsSame s)
    {e : Failure} (hrun : (host.expandElement (.path p)).run s = (.error e, s')) :
    GainsEntry s₀ key c s'.cache := by
  have hself := comes_snapshotSelf hall hp hs
  rcases hran : (host.snapshotSelf p).run s with ⟨e' | entry, s₁⟩
  all_goals rw [hran] at hself
  · rw [show (host.expandElement (.path p)).run s = _ from run_bind_of_error hran] at hrun
    cases hrun
    rcases hself with _ | _ | ⟨-, -, hs'⟩
    exact Or.inl hs'.cache
  · obtain ⟨hs₁, hgains⟩ : IsLike s₀ s₁.cache.KeepsSame s₁ ∧ GainsEntry s₀ key c s₁.cache := by
      rcases hself with ⟨-, hs₁⟩ | ⟨hnone, hcomputed, hs₁⟩ | _
      · exact ⟨hs₁.restart, Or.inl hs₁.cache⟩
      · exact ⟨hs₁.restart, Or.inr ⟨entry, hnone, hcomputed, hs₁.cache⟩⟩
    have hretention : s₁.cache.retention = c.retention := by
      rcases hgains with hsame | ⟨_, -, -, hsame⟩
      · exact hsame.retention
      · exact hsame.retention
    -- Now it can only be the tree that fails.
    have htree : ∃ e', (host.snapshotTree (.all p)).run s₁ = (.error e', s') := by
      rw [show (host.expandElement (.path p)).run s = _ from SnapStore.run_bind_of_ok hran] at hrun
      cases entry with
      | directory path relative isRoot =>
        rcases htree : (host.snapshotTree (.all p)).run s₁ with ⟨e' | t, s₂⟩
        · rw [run_bind_of_error htree] at hrun
          cases hrun
          exact ⟨_, rfl⟩
        · rw [SnapStore.run_bind_of_ok htree] at hrun
          cases hrun
      | file path relative isRoot snapshot => cases hrun
      | missing path name => cases hrun
    obtain ⟨e', htree⟩ := htree
    have hcomes := comes_snapshotTree (hall.of_retention hretention) hp hs₁
    rw [htree] at hcomes
    rcases hcomes with _ | _ | ⟨-, -, hs'⟩
    rcases hgains with hsame | ⟨entry, hnone, hcomputed, hsame⟩
    · exact Or.inl (hsame.trans hs'.cache)
    · exact Or.inr ⟨entry, hnone, hcomputed, hsame.trans hs'.cache⟩

/-- A collection of one root fails as the root does. -/
theorem run_expandElement_of_failed_expand {m : Element Run} {e : Failure}
    (hrun : (host.expand [m]).run s = (.error e, s')) :
    ∃ s₁, (host.expandElement m).run s = (.error e, s₁) ∧ s'.cache = s₁.cache := by
  obtain ⟨held, hkeeping⟩ : ∃ held,
      (host.keepingValue (·.map Entry.path) (host.expandElement m)).run s =
        (((host.expandElement m).run s).1, { ((host.expandElement m).run s).2 with held }) :=
    ⟨_, rfl⟩
  rcases hran : (host.expandElement m).run s with ⟨e' | entries, s₁⟩
  all_goals rw [hran] at hkeeping
  · rw [show (host.expand [m]).run s = _ from run_bind_of_error hkeeping] at hrun
    cases hrun
    exact ⟨s₁, rfl, rfl⟩
  · rw [show (host.expand [m]).run s = _ from SnapStore.run_bind_of_ok hkeeping] at hrun
    cases hrun

/-- If an aggregate fails, the entry of its key may be new, and nothing else. -/
theorem trace_of_failed_all (hall : s.KeepsAll s.cache) {st : Strategy} {p : Path} {e : Failure}
    (hrun : (host.snapshotAll st p).run s = (.error e, s')) :
    s.cache.KeepsSame s'.cache ∨ ∃ key, p.canonical s.world.workingDirectory = .ok key ∧
      GainsEntry s key s.cache s'.cache := by
  have hs : IsLike s s.cache.KeepsSame s := isLike_self (.refl _)
  rcases hkey : p.canonical s.world.workingDirectory with e' | key
  · obtain ⟨s₁, hs₁, hrun'⟩ := run_of_no_key hkey hs
    rw [show (host.snapshotAll st p).run s = _ from hrun', Prod.mk.injEq] at hrun
    rw [← hrun.2]
    exact Or.inl hs₁.cache
  · obtain ⟨s₁, hs₁, hkeyrun⟩ : ∃ s₁, IsLike s s.cache.KeepsSame s₁ ∧
        (host.key p).run s = (.ok key, s₁) := exists_run_key (World.keyOf_eq_ok_iff.2 hkey) hs
    rw [show (host.snapshotAll st p).run s = _ from SnapStore.run_bind_of_ok hkeyrun] at hrun
    rcases @Host.run_cached_cases _ _ host host.aggregates .aggregate key
      (host.snapshotCollection st [.path (.ofString key)]) (fun _ => rfl) _ _
      (fun _ hs => isLike_lookUpAggregate hall key hs) s₁ hs₁ with
      ⟨a, s₂, -, -, hran⟩ | ⟨-, s₂, hs₂, ⟨a, s₃, -, hran⟩ | ⟨e', s₃, hfailed, hran⟩⟩
    all_goals rw [hran] at hrun
    all_goals cases hrun
    obtain ⟨s₄, hpath, hcache⟩ :=
      run_expandElement_of_failed_expand (run_expand_of_failed_collection hfailed)
    rw [hcache]
    exact Or.inr ⟨key, rfl, trace_of_failed_path hall (Path.canonical_ofString hkey _) hs₂ hpath⟩

/-! ### Whole trees -/

/-- **One request**, of whatever kind. -/
inductive Asks (s : Session) : Session → Prop
  /-- The snapshot of a path. -/
  | entry (p : Path) : Asks s (snapshotSelf p s).2
  /-- The snapshot of a directory tree. -/
  | tree (t : DirectoryTree) : Asks s (snapshotTree t s).2
  /-- The snapshot of what a tree source reports. -/
  | source (source : Source) : Asks s (snapshotSource source s).2
  /-- The aggregate of a path. -/
  | aggregate (st : Strategy) (p : Path) : Asks s (snapshotAll st p s).2
  /-- The entries of a collection. -/
  | expansion (ms : List Member) : Asks s (expand ms s).2
  /-- The aggregate of a collection. -/
  | collection (st : Strategy) (ms : List Member) : Asks s (snapshotCollection st ms s).2

/-- **One step of a session.** -/
inductive Goes : Session → Session → Prop
  /-- Something is asked for. -/
  | asks {s s' : Session} (h : Asks s s') : Goes s s'
  /-- The world changes, or the rules do. -/
  | turns {s s' : Session} (hcache : s'.cache = s.cache) (hblind : s'.isBlind = s.isBlind) :
    Goes s s'
  /-- A path is forgotten. -/
  | forgets (s : Session) (key : String) : Goes s (updateCache (·.invalidate key) s).2
  /-- Everything is forgotten. -/
  | forgetsAll (s : Session) : Goes s (updateCache (·.invalidateAll) s).2

theorem isLike_request {α : Type} {act : ExceptT Failure Run α} (h : Preserves (IsLike s₀ P) act)
    (hs : IsLike s₀ P s) : IsLike s₀ P (request act s).2 :=
  (h s hs).update (h s hs).cache _ _ _ _

theorem Absorbs.preserves_snapshotAll (h : Absorbs s₀ (fun _ => True) (fun _ => True) P)
    (hput : ∀ {c key a}, P c → P (c.putAggregate key a)) (st : Strategy) (p : Path) :
    Preserves (IsLike s₀ P) (host.snapshotAll st p) := by
  refine Preserves.bind (preserves_of_rel (isLike_key p)) fun key => ?_
  refine preserves_cached (fun _ => rfl) (fun s hs => ?_) ?_ fun a s s' _ hs => ?_
  · exact (isLike_lookUpAggregate (h.keepsAll hs.cache) key hs.restart).2.mono (h.same hs.cache)
  · change Preserves _ (host.snapshotCollection st ([Member.path (.ofString key)].map element))
    refine h.preserves_snapshotCollection st fun m hm => ?_
    rw [List.mem_singleton.1 hm]
    exact ⟨trivial, trivial⟩
  · exact hs.update (hput hs.cache) _ _ _ _

/-- What a request adds to the cache are entries, whole trees and aggregates. -/
theorem Asks.gains (h : Asks s s') (hall : s.KeepsAll s.cache) :
    IsLike s (Gains s (fun _ => True) fun _ => True) s' := by
  have habsorbs : Absorbs s _ _ (Gains s (fun _ => True) fun _ => True) := absorbs_gains
  have hs : IsLike s (Gains s (fun _ => True) fun _ => True) s := isLike_self (gains_self hall)
  have hroot : ∀ m, IsRoot (fun _ => True) (fun _ => True) m := by
    rintro (_ | _ | _) <;> simp [IsRoot]
  cases h with
  | entry p => exact isLike_request (habsorbs.preserves_snapshotSelf trivial) hs
  | tree t => exact isLike_request (habsorbs.preserves_snapshotTree fun _ => trivial) hs
  | source source => exact isLike_request (preserves_snapshotSource source) hs
  | aggregate st p =>
    refine isLike_request (habsorbs.preserves_snapshotAll (fun hc => ?_) st p) hs
    exact ⟨hc.keepsAll.of_retention rfl, hc.entries, hc.trees⟩
  | expansion ms => exact isLike_request (habsorbs.preserves_expand fun m _ => hroot m) hs
  | collection st ms =>
    exact isLike_request (habsorbs.preserves_snapshotCollection st fun m _ => hroot m) hs

/-- A step leaves a session that keeps everything such a session. -/
theorem Goes.keepsAll (h : Goes s s') (hall : s.KeepsAll s.cache) : s'.KeepsAll s'.cache := by
  cases h with
  | asks h =>
    exact ⟨(h.gains hall).isBlind.trans hall.isBlind, (h.gains hall).cache.keepsAll.retention⟩
  | turns hcache hblind => exact ⟨hblind.trans hall.isBlind, by rw [hcache]; exact hall.retention⟩
  | forgets key => exact ⟨hall.isBlind, hall.retention⟩
  | forgetsAll => exact ⟨hall.isBlind, hall.retention⟩

/-- A tree that is kept was kept before, or has been walked to the end. -/
theorem Goes.trees (h : Goes s s') (hall : s.KeepsAll s.cache) {key : String} {t : TreeSnapshot}
    (ht : s'.cache.trees.find? key = some t) :
    s.cache.trees.find? key = some t ∨
      ∃ p, p.canonical s.world.workingDirectory = .ok key ∧ s.computedTree key p = .ok t := by
  cases h with
  | asks h =>
    rcases (h.gains hall).cache.trees key with hsame | ⟨-, t', ht', p, -, hp, hcomputed⟩
    · exact Or.inl (hsame ▸ ht)
    · obtain rfl : t' = t := Option.some.inj (ht'.symm.trans ht)
      exact Or.inr ⟨p, hp, hcomputed⟩
  | turns hcache hblind => exact Or.inl (hcache ▸ ht)
  | forgets other =>
    change (s.cache.trees.erase other).find? key = some t at ht
    by_cases hother : key = other
    · rw [hother, Shelf.find?_erase_self] at ht
      cases ht
    · rw [Shelf.find?_erase_of_ne hother] at ht
      exact Or.inl ht
  | forgetsAll => cases ht

/-- **Every tree that is kept is a whole one**: it has been walked to the end at some time, or it
was there from the beginning. -/
theorem isWhole_of_goes (hall : s.KeepsAll s.cache) (h : Relation.ReflTransGen Goes s s') :
    s'.KeepsAll s'.cache ∧ ∀ key t, s'.cache.trees.find? key = some t →
      s.cache.trees.find? key = some t ∨ ∃ s₁ p, Relation.ReflTransGen Goes s s₁ ∧
        p.canonical s₁.world.workingDirectory = .ok key ∧ s₁.computedTree key p = .ok t := by
  induction h with
  | refl => exact ⟨hall, fun _ _ ht => Or.inl ht⟩
  | @tail s₁ s₂ hrun hstep ih =>
    obtain ⟨hall₁, htrees⟩ := ih
    refine ⟨hstep.keepsAll hall₁, fun key t ht => ?_⟩
    rcases hstep.trees hall₁ ht with hbefore | ⟨p, hp, hcomputed⟩
    · exact htrees key t hbefore
    · exact Or.inr ⟨s₁, p, hrun, hp, hcomputed⟩

/-! ### Requests that fail -/

theorem request_eq {α : Type} (act : ExceptT Failure Run α) (s : Session) :
    request act s = ((act.run s).1, { (act.run s).2 with held := s.held }) := rfl

theorem exists_run_of_request {α : Type} {act : ExceptT Failure Run α} {r : Except Failure α}
    (h : request act s = (r, s')) :
    ∃ s₁, act.run s = (r, s₁) ∧ s' = { s₁ with held := s.held } := by
  rw [request_eq, Prod.mk.injEq] at h
  exact ⟨(act.run s).2, Prod.ext h.1 rfl, h.2.symm⟩

/-- **A collection fails at one of its roots**: those before it do not fail, those after it are not
looked at, and all that is new in the cache are snapshots of the roots up to there. -/
def FailsAtRoot (s s' : Session) (e : Failure) (ms : List Member) : Prop :=
  ∃ done m rest, ms = done ++ m :: rest ∧ (∃ entries, (expand done s).1 = .ok entries) ∧
    expand (done ++ [m]) s = (.error e, s') ∧ GainsOf s (done ++ [m]) s'.cache

theorem failsAtRoot_of_expand (hall : s.KeepsAll s.cache) {ms : List Member} {e : Failure}
    (h : expand ms s = (.error e, s')) : FailsAtRoot s s' e ms := by
  obtain ⟨s₁, hrun, rfl⟩ := exists_run_of_request h
  obtain ⟨done, m, rest, hms, ⟨entries, s₂, hdone⟩, hfails, hgains⟩ :=
    trace_of_failed_expand hall hrun
  refine ⟨done, m, rest, hms, ⟨entries, ?_⟩, ?_, hgains⟩
  · rw [expand, request_eq, hdone]
  · rw [expand, request_eq, hfails]

theorem expand_of_failed_collection {st : Strategy} {ms : List Member} {e : Failure}
    (h : snapshotCollection st ms s = (.error e, s')) : expand ms s = (.error e, s') := by
  obtain ⟨s₁, hrun, rfl⟩ := exists_run_of_request h
  rw [expand, request_eq, run_expand_of_failed_collection hrun]

/-- **Failures leave no trace.** Whatever the world, the rules and the cache of a session are, as
long as the cache keeps everything and no lookup is hidden: a failed snapshot of a path or of a tree
leaves the cache as it was, a failed aggregate may leave the entry of its key, and a failed
collection leaves snapshots of its roots up to the one that failed. So every tree that is kept in
any run was walked to the end. -/
theorem trace_of_failure {s : Session} (hblind : s.isBlind = false)
    (hretention : s.cache.retention = .all) :
    (∀ p e s', snapshotSelf p s = (.error e, s') → s.cache.KeepsSame s'.cache) ∧
    (∀ t e s', snapshotTree t s = (.error e, s') → s.cache.KeepsSame s'.cache) ∧
    (∀ st p e s', snapshotAll st p s = (.error e, s') → s.cache.KeepsSame s'.cache ∨
      ∃ key, p.canonical s.world.workingDirectory = .ok key ∧ GainsEntry s key s.cache s'.cache) ∧
    (∀ ms e s', expand ms s = (.error e, s') → FailsAtRoot s s' e ms) ∧
    (∀ st ms e s', snapshotCollection st ms s = (.error e, s') → FailsAtRoot s s' e ms) ∧
    ∀ s', Relation.ReflTransGen Goes s s' → ∀ key t, s'.cache.trees.find? key = some t →
      s.cache.trees.find? key = some t ∨ ∃ s₁ p, Relation.ReflTransGen Goes s s₁ ∧
        p.canonical s₁.world.workingDirectory = .ok key ∧ s₁.computedTree key p = .ok t := by
  have hall : s.KeepsAll s.cache := ⟨hblind, hretention⟩
  refine ⟨fun p e s' h => ?_, fun t e s' h => ?_, fun st p e s' h => ?_,
    fun ms e s' h => failsAtRoot_of_expand hall h,
    fun st ms e s' h => failsAtRoot_of_expand hall (expand_of_failed_collection h),
    fun s' h => (isWhole_of_goes hall h).2⟩
  · obtain ⟨s₁, hrun, rfl⟩ := exists_run_of_request h
    exact (trace_of_failed_self hall hrun :)
  · obtain ⟨s₁, hrun, rfl⟩ := exists_run_of_request h
    exact (trace_of_failed_tree hall hrun :)
  · obtain ⟨s₁, hrun, rfl⟩ := exists_run_of_request h
    exact (trace_of_failed_all hall hrun :)

/-- A directory with a link to itself: its entry can be had, its tree can not. -/
theorem trace_of_failure_in_walk :
    let w :=
      (World.empty.put [[100]] (.directory .epoch)).put [[100], [108]] (.link (.ofString "/d"))
    let s := startOn w .all false true
    let p := Path.ofString "/d"
    s.isBlind = false ∧ s.cache.retention = .all ∧ (snapshotAll .default p s).1.toBool = false ∧
      (snapshotAll .default p s).2.cache.entries.size = 1 ∧
      (s.cache.KeepsSame (snapshotAll .default p s).2.cache ∨
        ∃ key, p.canonical s.world.workingDirectory = .ok key ∧
          GainsEntry s key s.cache (snapshotAll .default p s).2.cache) := by
  intro w s p
  have hfails : (snapshotAll .default p s).1.toBool = false := by decide +kernel
  refine ⟨rfl, rfl, hfails, by decide +kernel, ?_⟩
  rcases hrun : snapshotAll .default p s with ⟨e | a, s'⟩
  · exact (trace_of_failure (s := s) rfl rfl).2.2.1 .default p e s' hrun
  · rw [hrun] at hfails
    cases hfails

end Session

end SnapStore
