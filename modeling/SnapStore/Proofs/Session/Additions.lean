import SnapStore.Proofs.Session.Rules
import SnapStore.Proofs.Store.Protocol

/-!
# What requests add to the cache

On a cache that keeps everything, a snapshot of a path or of a tree finds its value, or it computes
it and stores it, or it fails and leaves the cache as it is (`SnapStore.Session.comes_snapshotSelf`,
`SnapStore.Session.comes_snapshotTree`). What is computed is settled by the world and the rules of
the session, and nothing is supposed of the rules.

Requests that are put together from these can only add what these add. So what is kept up while
snapshots are added (`SnapStore.Session.Absorbs`) is true after every request
(`SnapStore.Session.Absorbs.preserves_expand`).
-/

namespace SnapStore

/-! ### Caches that hold the same -/

namespace Cache

/-- Two caches have the same on their shelves. -/
structure KeepsSame (c c' : Cache) : Prop where
  /-- They keep it as long. -/
  retention : c'.retention = c.retention
  /-- The entries are the same. -/
  entries : c'.entries = c.entries
  /-- The trees are the same. -/
  trees : c'.trees = c.trees
  /-- The aggregates are the same. -/
  aggregates : c'.aggregates = c.aggregates

variable {c c' c'' : Cache}

theorem KeepsSame.refl (c : Cache) : c.KeepsSame c := ⟨rfl, rfl, rfl, rfl⟩

theorem KeepsSame.trans (h : c.KeepsSame c') (h' : c'.KeepsSame c'') : c.KeepsSame c'' :=
  ⟨h'.retention.trans h.retention, h'.entries.trans h.entries, h'.trees.trans h.trees,
    h'.aggregates.trans h.aggregates⟩

theorem KeepsSame.putEntry (h : c.KeepsSame c') (e : Entry) :
    (c.putEntry e).KeepsSame (c'.putEntry e) := by
  refine ⟨h.retention, ?_, h.trees, h.aggregates⟩
  change c'.entries.store c'.retention e.path e = c.entries.store c.retention e.path e
  rw [h.retention, h.entries]

theorem KeepsSame.putTree (h : c.KeepsSame c') (t : TreeSnapshot) :
    (c.putTree t).KeepsSame (c'.putTree t) := by
  unfold Cache.putTree
  cases t.base with
  | none => exact h
  | some base =>
    refine ⟨h.retention, h.entries, ?_, h.aggregates⟩
    dsimp only
    rw [h.retention, h.trees]

/-- To store an entry twice is to store it once. -/
theorem keepsSame_putEntry_twice (hall : c.retention = .all) (e : Entry) :
    (c.putEntry e).KeepsSame ((c.putEntry e).putEntry e) := by
  refine ⟨rfl, ?_, rfl, rfl⟩
  change (c.entries.store c.retention e.path e).store c.retention e.path e =
    c.entries.store c.retention e.path e
  rw [hall]
  exact Shelf.bring_bring _ _ _

/-- Where everything is kept, a lookup changes nothing but the counts. -/
theorem keepsSame_lookUpEntry (hall : c.retention = .all) (key : String) :
    c.KeepsSame (c.lookUpEntry key).2 := by
  refine ⟨rfl, ?_, rfl, rfl⟩
  change c.entries.use c.retention key = c.entries
  rw [hall, Shelf.use_all]

theorem keepsSame_lookUpTree (hall : c.retention = .all) (key : String) :
    c.KeepsSame (c.lookUpTree key).2 := by
  refine ⟨rfl, rfl, ?_, rfl⟩
  change c.trees.use c.retention key = c.trees
  rw [hall, Shelf.use_all]

theorem keepsSame_lookUpAggregate (hall : c.retention = .all) (key : String) :
    c.KeepsSame (c.lookUpAggregate key).2 := by
  refine ⟨rfl, rfl, rfl, ?_⟩
  change c.aggregates.use c.retention key = c.aggregates
  rw [hall, Shelf.use_all]

end Cache

namespace Session

variable {s₀ s : Session} {P : Cache → Prop} {c : Cache}

/-! ### What is added -/

/-- **What comes of a computation that is kept**: what was found, or what was computed and is stored
now, or a failure. A failure leaves the cache as it was. -/
inductive Comes {α : Type} (s₀ : Session) (c : Cache) (found : Option α)
    (computed : Except Failure α) (put : α → Cache) : Except Failure α × Session → Prop
  /-- The value was there. -/
  | found {a : α} {s : Session} (hfound : found = some a) (hs : IsLike s₀ c.KeepsSame s) :
    Comes s₀ c found computed put (.ok a, s)
  /-- The value is there now. -/
  | stored {a : α} {s : Session} (hnone : found = none) (hcomputed : computed = .ok a)
    (hs : IsLike s₀ (put a).KeepsSame s) : Comes s₀ c found computed put (.ok a, s)
  /-- There is no value. -/
  | failed {e : Failure} {s : Session} (hnone : found = none) (hcomputed : computed = .error e)
    (hs : IsLike s₀ c.KeepsSame s) : Comes s₀ c found computed put (.error e, s)

section Comes

variable {α : Type} {stat : Path → Run (Except Failure Metadata)} {production : Production}
  {key : String} {k : Keeper Run α} {compute : ExceptT Failure Run α} {found : Option α}
  {computed : Except Failure α} {put : α → Cache}

/-- The protocol of the cache, where nothing is stored in the course of a computation but what comes
of it. -/
theorem comes_cached
    (hfind : ∀ s, IsLike s₀ c.KeepsSame s →
      (k.find? key s).1 = found ∧ IsLike s₀ c.KeepsSame (k.find? key s).2)
    (hcompute : found = none → ∀ s, IsLike s₀ c.KeepsSame s → (compute.run s).1 = computed)
    (herror : found = none → ∀ e, computed = .error e → ∀ s, IsLike s₀ c.KeepsSame s →
      IsLike s₀ c.KeepsSame (compute.run s).2)
    (hstore : found = none → ∀ a, computed = .ok a → ∀ s, IsLike s₀ c.KeepsSame s →
      IsLike s₀ (put a).KeepsSame (k.store key a (compute.run s).2).2)
    (hs : IsLike s₀ c.KeepsSame s) :
    Comes s₀ c found computed put (((hostLooking stat).cached k production key compute).run s) := by
  rcases @Host.run_cached_cases _ _ (hostLooking stat) k production key compute (fun _ => rfl) _ _
    hfind s hs with
    ⟨a, s', hfound, hs', hrun⟩ | ⟨hnone, s', hs', ⟨a, s'', hran, hrun⟩ | ⟨e, s'', hran, hrun⟩⟩
  · rw [hrun]
    exact .found hfound hs'
  · have hcomputed := hcompute hnone s' hs'
    rw [hran] at hcomputed
    have hstored := hstore hnone a hcomputed.symm s' hs'
    rw [hran] at hstored
    rw [hrun]
    exact .stored hnone hcomputed.symm hstored
  · have hcomputed := hcompute hnone s' hs'
    rw [hran] at hcomputed
    have hkept := herror hnone e hcomputed.symm s' hs'
    rw [hran] at hkept
    rw [hrun]
    exact .failed hnone hcomputed.symm hkept

/-- A session that is not blind finds what is there. -/
theorem isLike_lookUp {find : Cache → Option α × Cache} (hblind : s₀.isBlind = false)
    (hvalue : ∀ c', c.KeepsSame c' → (find c').1 = found)
    (hcache : ∀ c', c.KeepsSame c' → c'.KeepsSame (find c').2) (hs : IsLike s₀ c.KeepsSame s) :
    (lookUp find s).1 = found ∧ IsLike s₀ c.KeepsSame (lookUp find s).2 := by
  have hseeing : ¬(s.isBlind && s.lookups % 2 = 0) = true := by simp [hs.isBlind, hblind]
  rw [lookUp_eq, if_neg hseeing]
  exact ⟨hvalue _ hs.cache, hs.update (hs.cache.trans (hcache _ hs.cache)) _ _ _ _⟩

/-- Finding the key of a path leaves the cache alone, whatever is done at looks. -/
theorem isLike_key (p : Path) :
    ((holding (IsLike s₀ P)).except Failure).Rel ((hostLooking stat).key p)
      (s₀.world.keyOf p) := by
  have halike : (holding (IsLike s₀ P)).AlikeHosts innerHost s₀.plainHost := alikeHosts_innerHost
  have hkey := Relator.key halike p
  rw [show s₀.plainHost.key p = s₀.world.bareHost.key p from rfl, Host.bareHost_key] at hkey
  exact hkey

theorem exists_run_key {p : Path} {r : Except Failure String} (hp : s₀.world.keyOf p = r)
    (hs : IsLike s₀ P s) :
    ∃ s', IsLike s₀ P s' ∧ ((hostLooking stat).key p).run s = (r, s') := by
  have hrel : ((holding (IsLike s₀ P)).except Failure).Rel ((hostLooking stat).key p) _ :=
    isLike_key p
  obtain ⟨hkey, hs'⟩ := hrel s hs
  rw [hp] at hkey
  exact ⟨_, hs', Prod.ext hkey rfl⟩

/-- So does walking. -/
theorem isLike_walk (base : Option String) {t : TreeSource (Collecting Run)}
    {t' : TreeSource (Collecting Id)}
    (ht : ((holding (IsLike s₀ P)).state (List Entry)).AlikeSources t t') :
    ((holding (IsLike s₀ P)).except Failure).Rel ((hostLooking stat).walk base t)
      (s₀.plainHost.walk base t') :=
  have halike : (holding (IsLike s₀ P)).AlikeHosts innerHost s₀.plainHost := alikeHosts_innerHost
  Relator.walk halike base ht

/-- A session that keeps everything and is not blind. -/
structure KeepsAll (s₀ : Session) (c : Cache) : Prop where
  /-- No lookup is hidden. -/
  isBlind : s₀.isBlind = false
  /-- Nothing is dropped. -/
  retention : c.retention = .all

variable (hall : s₀.KeepsAll c)

include hall

theorem isLike_lookUpEntry (key : String) (hs : IsLike s₀ c.KeepsSame s) :
    (lookUp (·.lookUpEntry key) s).1 = c.entries.find? key ∧
      IsLike s₀ c.KeepsSame (lookUp (·.lookUpEntry key) s).2 :=
  isLike_lookUp hall.isBlind (fun _ hc' => congrArg (·.find? key) hc'.entries)
    (fun _ hc' => Cache.keepsSame_lookUpEntry (hc'.retention.trans hall.retention) key) hs

theorem isLike_lookUpTree (key : String) (hs : IsLike s₀ c.KeepsSame s) :
    (lookUp (·.lookUpTree key) s).1 = c.trees.find? key ∧
      IsLike s₀ c.KeepsSame (lookUp (·.lookUpTree key) s).2 :=
  isLike_lookUp hall.isBlind (fun _ hc' => congrArg (·.find? key) hc'.trees)
    (fun _ hc' => Cache.keepsSame_lookUpTree (hc'.retention.trans hall.retention) key) hs

theorem isLike_lookUpAggregate (key : String) (hs : IsLike s₀ c.KeepsSame s) :
    (lookUp (·.lookUpAggregate key) s).1 = c.aggregates.find? key ∧
      IsLike s₀ c.KeepsSame (lookUp (·.lookUpAggregate key) s).2 :=
  isLike_lookUp hall.isBlind (fun _ hc' => congrArg (·.find? key) hc'.aggregates)
    (fun _ hc' => Cache.keepsSame_lookUpAggregate (hc'.retention.trans hall.retention) key) hs

/-- What comes of the entry of a key, if to compute it may store it too, and nothing else. -/
theorem comes_entry
    (hobserve : c.entries.find? key = none → ∀ s, IsLike s₀ c.KeepsSame s →
      (((hostLooking stat).observe key).run s).1 = s₀.computedEntry key ∧
      IsLike s₀ (fun c' => c.KeepsSame c' ∨
        ∃ a, s₀.computedEntry key = .ok a ∧ (c.putEntry a).KeepsSame c')
        (((hostLooking stat).observe key).run s).2)
    (hs : IsLike s₀ c.KeepsSame s) :
    Comes s₀ c (c.entries.find? key) (s₀.computedEntry key) c.putEntry
      (((hostLooking stat).cached (hostLooking stat).entries .entry key
        ((hostLooking stat).observe key)).run s) := by
  refine comes_cached (fun s hs => isLike_lookUpEntry hall key hs)
    (fun hnone s hs => (hobserve hnone s hs).1) ?_ ?_ hs
  · intro hnone e he s hs
    refine (hobserve hnone s hs).2.mono fun hcache => hcache.resolve_right ?_
    rintro ⟨a, ha, -⟩
    rw [he] at ha
    cases ha
  · intro hnone a ha s hs
    have hobserved := (hobserve hnone s hs).2
    refine hobserved.update ?_ _ _ _ _
    rcases hobserved.cache with hcache | ⟨a', ha', hcache⟩
    · exact hcache.putEntry a
    · obtain rfl : a' = a := Except.ok.inj (ha'.symm.trans ha)
      exact (Cache.keepsSame_putEntry_twice hall.retention a').trans (hcache.putEntry a')

theorem comes_snapshotSelf_innerHost {p : Path}
    (hp : p.canonical s₀.world.workingDirectory = .ok key) (hs : IsLike s₀ c.KeepsSame s) :
    Comes s₀ c (c.entries.find? key) (s₀.computedEntry key) c.putEntry
      ((innerHost.snapshotSelf p).run s) := by
  obtain ⟨s', hs', hkey⟩ :
      ∃ s', IsLike s₀ c.KeepsSame s' ∧ (innerHost.key p).run s = (.ok key, s') :=
    exists_run_key (World.keyOf_eq_ok_iff.2 hp) hs
  rw [show (innerHost.snapshotSelf p).run s = _ from SnapStore.run_bind_of_ok hkey]
  refine comes_entry hall (fun _ s hs => ?_) hs'
  obtain ⟨hvalue, hobserved⟩ := Relator.observe alikeHosts_innerHost key s hs
  exact ⟨hvalue, hobserved.mono Or.inl⟩

omit hall in
/-- An entry is made of what is seen at first, and of digests. -/
theorem run_observe_congr {stat' : Path → Run (Except Failure Metadata)} {s' : Session}
    (h : stat (.ofString key) s = stat' (.ofString key) s') :
    ((hostLooking stat).observe key).run s = ((hostLooking stat').observe key).run s' := by
  change (ExceptT.bindCont _ (stat (.ofString key) s).1 : Run _) (stat (.ofString key) s).2 =
    (ExceptT.bindCont _ (stat' (.ofString key) s').1 : Run _) (stat' (.ofString key) s').2
  rw [h]
  rfl

omit hall in
theorem host_stat :
    host.stat = watchedLook fun p => lettingGo (discard (innerHost.snapshotSelf p)).run := rfl

omit hall in
theorem innerHost_stat : innerHost.stat = watchedLook fun _ => return .ok () := rfl

omit hall in
/-- A snapshot that is taken and dropped. -/
theorem run_before (p : Path) (s : Session) :
    lettingGo (discard (innerHost.snapshotSelf p)).run s =
      (((innerHost.snapshotSelf p).run s).1.map fun _ => (),
        { ((innerHost.snapshotSelf p).run s).2 with held := s.held }) := by
  have hdiscard : (discard (innerHost.snapshotSelf p)).run s =
      (((innerHost.snapshotSelf p).run s).1.map fun _ => (),
        ((innerHost.snapshotSelf p).run s).2) := by
    rcases hrun : (innerHost.snapshotSelf p).run s with ⟨_ | a, s'⟩
    · exact run_bind_of_error hrun
    · exact SnapStore.run_bind_of_ok hrun
  change (((discard (innerHost.snapshotSelf p)).run s).1,
    { ((discard (innerHost.snapshotSelf p)).run s).2 with held := s.held }) = _
  rw [hdiscard]

/-- **What comes of the computation of an entry** that has not been there. If a rule has a snapshot
of the path taken first, that one has stored the entry already. -/
theorem observe_host {p : Path} (hp : p.canonical s₀.world.workingDirectory = .ok key)
    (hnone : c.entries.find? key = none) (hs : IsLike s₀ c.KeepsSame s) :
    ((host.observe key).run s).1 = s₀.computedEntry key ∧
      IsLike s₀ (fun c' => c.KeepsSame c' ∨
        ∃ a, s₀.computedEntry key = .ok a ∧ (c.putEntry a).KeepsSame c')
        ((host.observe key).run s).2 := by
  have hkey : (Path.ofString key).canonical s₀.world.workingDirectory = .ok key :=
    Path.canonical_ofString hp _
  by_cases hrule : s.isWatched = true ∧ s.statRules.lookup (.ofString key) = some .reenter
  · obtain ⟨hwatched, hlookup⟩ := hrule
    obtain ⟨s', hs', hstat⟩ : ∃ s', IsLike s₀ c.KeepsSame s' ∧ host.stat (.ofString key) s =
        match lettingGo (discard (innerHost.snapshotSelf (.ofString key))).run s' with
        | (.ok (), s'') => look (.ofString key) s''
        | (.error e, s'') => (.error e, s'') := by
      have hclear := ruledStat_clear
        (s := { s with asked := ⟨s.asked.looks + 1, s.asked.digests⟩ }) hlookup
      refine ⟨(clearStatRule (.ofString key)
        { s with asked := ⟨s.asked.looks + 1, s.asked.digests⟩ }).2, ⟨hs.world, hs.isBlind,
        hs.isWatched, fun q => (hclear q).trans (hs.ruledStat q), hs.hashRules, hs.cache⟩, ?_⟩
      rw [host_stat, run_watchedLook, if_pos hwatched, hlookup]
      rfl
    have hcomes := comes_snapshotSelf_innerHost hall hkey hs'
    rw [run_before] at hstat
    rcases hrun : (innerHost.snapshotSelf (.ofString key)).run s' with ⟨e | a, s₁⟩
    all_goals rw [hrun] at hstat hcomes
    all_goals rw [hnone] at hcomes
    · -- What fails before the look is the answer.
      rcases hcomes with _ | _ | ⟨-, hcomputed, hs₁⟩
      rw [show (host.observe key).run s = _ from run_bind_of_error hstat, hcomputed]
      exact ⟨rfl, (hs₁.update hs₁.cache _ _ s'.held _).mono Or.inl⟩
    · -- What is stored before the look is computed once more.
      rcases hcomes with hfound | ⟨-, hcomputed, hs₁⟩ | _
      · cases hfound
      have hrunlook : (host.observe key).run s =
          ((hostLooking look).observe key).run { s₁ with held := s'.held } :=
        run_observe_congr hstat
      have hruled : s₀.ruledStat (.ofString key) = s₀.world.bareHost.stat (.ofString key) := by
        rw [← hs.ruledStat, ruledStat, if_pos hwatched, hlookup, hs.world]
      have hrel : ((holding (IsLike s₀ (c.putEntry a).KeepsSame)).except Failure).Rel
          ((hostLooking look).observe key) (s₀.plainHost.observe key) := by
        refine Relator.observe_of_stat ?_ alikeHashers_isLike
        rw [show s₀.plainHost.stat = s₀.ruledStat from rfl, hruled]
        exact isLike_look _
      rw [hrunlook]
      obtain ⟨hvalue, hobserved⟩ := hrel _ (hs₁.update hs₁.cache _ _ s'.held _)
      exact ⟨hvalue, hobserved.mono fun hcache => Or.inr ⟨a, hcomputed, hcache⟩⟩
  · -- Nothing is done before the look.
    have hstat : host.stat (.ofString key) s = innerHost.stat (.ofString key) s := by
      rw [host_stat, innerHost_stat, run_watchedLook, run_watchedLook]
      split_ifs with hwatched
      · rcases hlookup : s.statRules.lookup (.ofString key) with _ | _ | _ | _
        all_goals simp only [hlookup]
        exact absurd ⟨hwatched, hlookup⟩ hrule
      · rfl
    rw [show (host.observe key).run s = (innerHost.observe key).run s from run_observe_congr hstat]
    obtain ⟨hvalue, hobserved⟩ := Relator.observe alikeHosts_innerHost key s hs
    exact ⟨hvalue, hobserved.mono Or.inl⟩

/-- **What comes of the snapshot of a path.** -/
theorem comes_snapshotSelf {p : Path} (hp : p.canonical s₀.world.workingDirectory = .ok key)
    (hs : IsLike s₀ c.KeepsSame s) :
    Comes s₀ c (c.entries.find? key) (s₀.computedEntry key) c.putEntry
      ((host.snapshotSelf p).run s) := by
  obtain ⟨s', hs', hkey⟩ : ∃ s', IsLike s₀ c.KeepsSame s' ∧ (host.key p).run s = (.ok key, s') :=
    exists_run_key (World.keyOf_eq_ok_iff.2 hp) hs
  rw [show (host.snapshotSelf p).run s = _ from SnapStore.run_bind_of_ok hkey]
  exact comes_entry hall (fun hnone s hs => observe_host hall hp hnone hs) hs'

/-- **What comes of the snapshot of a whole tree.** -/
theorem comes_snapshotTree {p : Path} (hp : p.canonical s₀.world.workingDirectory = .ok key)
    (hs : IsLike s₀ c.KeepsSame s) :
    Comes s₀ c (c.trees.find? key) (s₀.computedTree key p) c.putTree
      ((host.snapshotTree (.all p)).run s) := by
  obtain ⟨s', hs', hkey⟩ : ∃ s', IsLike s₀ c.KeepsSame s' ∧ (host.key p).run s = (.ok key, s') :=
    exists_run_key (World.keyOf_eq_ok_iff.2 hp) hs
  rw [show (host.snapshotTree (.all p)).run s = _ from SnapStore.run_bind_of_ok hkey]
  have hwalk : ((holding (IsLike s₀ c.KeepsSame)).except Failure).Rel
      (host.walk (some key) ((DirectoryTree.all p).visit host.calls.lift))
        (s₀.computedTree key p) :=
    isLike_walk _ (Relator.visit_directoryTree (Relator.calls_lift alikeCalls_isLike) _)
  refine comes_cached (fun s hs => isLike_lookUpTree hall key hs) (fun _ s hs => (hwalk s hs).1)
    (fun _ e _ s hs => (hwalk s hs).2) (fun _ t _ s hs => ?_) hs'
  have hwalked := (hwalk s hs).2
  exact hwalked.update (hwalked.cache.putTree t) _ _ _ _

end Comes

/-! ### What stays true whatever is added -/

/-- **What is kept up while snapshots are added to a cache**: entries of some paths, and whole trees
below some. -/
structure Absorbs (s₀ : Session) (selves roots : Path → Prop) (P : Cache → Prop) : Prop where
  /-- Nothing is hidden or dropped. -/
  keepsAll : ∀ {c}, P c → s₀.KeepsAll c
  /-- The counts do not matter. -/
  same : ∀ {c c'}, P c → c.KeepsSame c' → P c'
  /-- An entry may be added. -/
  putEntry : ∀ {c p key e}, P c → selves p → p.canonical s₀.world.workingDirectory = .ok key →
    c.entries.find? key = none → s₀.computedEntry key = .ok e → P (c.putEntry e)
  /-- A tree may be added. -/
  putTree : ∀ {c p key t}, P c → roots p → p.canonical s₀.world.workingDirectory = .ok key →
    c.trees.find? key = none → s₀.computedTree key p = .ok t → P (c.putTree t)

/-- A root whose entry and whole tree may be added, as far as it has them. -/
def IsRoot (selves roots : Path → Prop) : Member → Prop
  | .path p => selves p ∧ roots p
  | .directory t => t.isFiltered = false → roots t.root
  | .source _ => True

theorem IsLike.restart (hs : IsLike s₀ P s) : IsLike s₀ s.cache.KeepsSame s :=
  hs.mono fun _ => .refl _

/-- Where a path has no key, nothing is done. -/
theorem run_of_no_key {α : Type} {p : Path} {e : Error} {f : String → ExceptT Failure Run α}
    (hp : p.canonical s₀.world.workingDirectory = .error e) (hs : IsLike s₀ P s) :
    ∃ s', IsLike s₀ P s' ∧ (host.key p >>= f).run s = (.error (.error e), s') := by
  obtain ⟨s', hs', hkey⟩ :
      ∃ s', IsLike s₀ P s' ∧ (host.key p).run s = (.error (.error e), s') :=
    exists_run_key (World.keyOf_of_error hp) hs
  exact ⟨s', hs', run_bind_of_error hkey⟩

/-- Filtered trees are not kept. -/
theorem preserves_filteredTree {t : DirectoryTree} (ht : t.isFiltered = true) :
    Preserves (IsLike s₀ P) (host.snapshotTree t) := by
  have hwalk : ∀ key, ((holding (IsLike s₀ P)).except Failure).Rel
      (host.walk (some key) (t.visit host.calls.lift)) _ := fun key =>
    isLike_walk _ (Relator.visit_directoryTree (Relator.calls_lift alikeCalls_isLike) t)
  refine Preserves.bind (preserves_of_rel (isLike_key _)) fun key => ?_
  rw [if_pos ht]
  exact preserves_of_rel (hwalk key)

/-- Neither are those of other tree sources. -/
theorem preserves_snapshotSource (source : Source) :
    Preserves (IsLike s₀ P) (host.snapshotSource (source.visit systemCalls.lift)) :=
  preserves_of_rel
    (isLike_walk none (Relator.visit_source (Relator.calls_lift alikeCalls_isLike) _))

namespace Absorbs

variable {selves roots : Path → Prop} (h : Absorbs s₀ selves roots P)

include h

theorem preserves_snapshotSelf {p : Path} (hp : selves p) :
    Preserves (IsLike s₀ P) (host.snapshotSelf p) := by
  intro s hs
  rcases hkey : p.canonical s₀.world.workingDirectory with e | key
  · obtain ⟨s', hs', hrun⟩ := run_of_no_key hkey hs
    rw [show (host.snapshotSelf p).run s = _ from hrun]
    exact hs'
  · have hcomes := comes_snapshotSelf (h.keepsAll hs.cache) hkey hs.restart
    rcases hrun : (host.snapshotSelf p).run s with ⟨r, s'⟩
    rw [hrun] at hcomes
    rcases hcomes with ⟨-, hs'⟩ | ⟨hnone, hcomputed, hs'⟩ | ⟨-, -, hs'⟩
    · exact hs'.mono (h.same hs.cache)
    · exact hs'.mono (h.same (h.putEntry hs.cache hp hkey hnone hcomputed))
    · exact hs'.mono (h.same hs.cache)

theorem preserves_snapshotTree {t : DirectoryTree} (ht : t.isFiltered = false → roots t.root) :
    Preserves (IsLike s₀ P) (host.snapshotTree t) := by
  intro s hs
  by_cases hfiltered : t.isFiltered = true
  · exact preserves_filteredTree hfiltered s hs
  · rw [Bool.not_eq_true] at hfiltered
    have hroot := ht hfiltered
    rw [DirectoryTree.eq_all_of_not_isFiltered hfiltered]
    generalize t.root = p at hroot
    rcases hkey : p.canonical s₀.world.workingDirectory with e | key
    · obtain ⟨s', hs', hrun⟩ := run_of_no_key hkey hs
      rw [show (host.snapshotTree (.all p)).run s = _ from hrun]
      exact hs'
    · have hcomes := comes_snapshotTree (h.keepsAll hs.cache) hkey hs.restart
      rcases hrun : (host.snapshotTree (.all p)).run s with ⟨r, s'⟩
      rw [hrun] at hcomes
      rcases hcomes with ⟨-, hs'⟩ | ⟨hnone, hcomputed, hs'⟩ | ⟨-, -, hs'⟩
      · exact hs'.mono (h.same hs.cache)
      · exact hs'.mono (h.same (h.putTree hs.cache hroot hkey hnone hcomputed))
      · exact hs'.mono (h.same hs.cache)

/-- **What is kept up is kept up by a collection**, if its roots are such as may be added. -/
theorem preserves_expand {ms : List Member} (hms : ∀ m ∈ ms, IsRoot selves roots m) :
    Preserves (IsLike s₀ P) (host.expand (ms.map element)) := by
  refine SnapStore.preserves_expand (fun keys x hx s hs => ?_) fun e he => ?_
  · exact (hx s hs).update (hx s hs).cache _ _ _ _
  · obtain ⟨m, hm, rfl⟩ := List.mem_map.1 he
    have hroot := hms m hm
    cases m with
    | path p =>
      exact preserves_expandElement_path (h.preserves_snapshotSelf hroot.1)
        (h.preserves_snapshotTree fun _ => hroot.2)
    | directory t => exact (h.preserves_snapshotTree hroot).bind fun _ => preserves_pure _
    | source source => exact (preserves_snapshotSource source).bind fun _ => preserves_pure _

theorem preserves_snapshotCollection (st : Strategy) {ms : List Member}
    (hms : ∀ m ∈ ms, IsRoot selves roots m) :
    Preserves (IsLike s₀ P) (host.snapshotCollection st (ms.map element)) :=
  (h.preserves_expand hms).bind fun _ => preserves_pure _

end Absorbs

end Session

end SnapStore
