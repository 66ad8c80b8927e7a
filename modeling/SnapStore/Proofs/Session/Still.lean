import SnapStore.Proofs.Store.Transparency
import SnapStore.Session.Requests

/-!
# Sessions on a world that stands still

While nobody changes the world of a session and sets a rule (`SnapStore.Session.IsStill`), the
host of the session computes as the bare host does (`SnapStore.Session.alikeHosts_host`): counters,
the interner and what is held go their own way, and no answer depends on them. The cache is the
one part of a session that answers can depend on. So `SnapStore.Session.IsStill` leaves open what
is known of the cache.
-/

namespace SnapStore.Session

/-- The world of a session is as given and there are no rules. Of its cache this is known. -/
structure IsStill (w : World) (P : Cache → Prop) (s : Session) : Prop where
  /-- The world. -/
  world : s.world = w
  /-- No look is interfered with. -/
  statRules : s.statRules = []
  /-- No digest is interfered with. -/
  hashRules : s.hashRules = []
  /-- What is known of the cache. -/
  cache : P s.cache

variable {w : World} {P : Cache → Prop}

/-! ### What does not touch the cache -/

theorem rel_now : (holding (IsStill w P)).Rel now w := fun _ hs => ⟨hs.world, hs⟩

theorem alikeCalls_systemCalls :
    (holding (IsStill w P)).AlikeCalls systemCalls (.still w) :=
  Relator.calls_live rel_now

theorem rel_look (p : Path) :
    (holding (IsStill w P)).Rel (look p) (Host.statBy (.still w) p) :=
  Relator.statBy alikeCalls_systemCalls p

/-- Counting does not matter. -/
theorem IsStill.count {s : Session} (hs : IsStill w P s) (asked : CallCounts) :
    IsStill w P { s with asked := asked } :=
  ⟨hs.world, hs.statRules, hs.hashRules, hs.cache⟩

/-- Without rules a look is counted, at most, and made. -/
theorem rel_watchedLook (before : Path → Run (Except Failure Unit)) (p : Path) :
    (holding (IsStill w P)).Rel (watchedLook before p) (Host.statBy (.still w) p) := by
  rintro ⟨_, cache, isBlind, lookups, interner, held, isWatched, asked, _, _⟩ ⟨rfl, rfl, rfl, hP⟩
  cases isWatched with
  | false => exact rel_look p _ ⟨rfl, rfl, rfl, hP⟩
  | true => exact rel_look p _ (IsStill.count ⟨rfl, rfl, rfl, hP⟩ _)

/-- So is a digest. -/
theorem rel_watchedDigest (what : String) {compute : Run (Except Error Digest)}
    {digest : Except Error Digest} (h : (holding (IsStill w P)).Rel compute digest) :
    (holding (IsStill w P)).Rel (watchedDigest what compute) digest := by
  rintro ⟨_, cache, isBlind, lookups, interner, held, isWatched, asked, _, _⟩ ⟨rfl, rfl, rfl, hP⟩
  cases isWatched with
  | false => exact h _ ⟨rfl, rfl, rfl, hP⟩
  | true => exact h _ (IsStill.count ⟨rfl, rfl, rfl, hP⟩ _)

theorem alikeHashers_hasher :
    (holding (IsStill w P)).AlikeHashers hasher (.sha256 (.still w)) where
  content what r := rel_watchedDigest what ((Relator.sha256 alikeCalls_systemCalls).content what r)
  file p seen := rel_watchedDigest _ ((Relator.sha256 alikeCalls_systemCalls).file p seen)

theorem rel_intern (key : String) : (holding (IsStill w P)).Rel (intern key) () :=
  fun _ hs => ⟨rfl, hs.world, hs.statRules, hs.hashRules, hs.cache⟩

theorem rel_keeping {α : Type} (keys : α → List String) {act : Run α} {a : α}
    (h : (holding (IsStill w P)).Rel act a) : (holding (IsStill w P)).Rel (keeping keys act) a :=
  fun s hs =>
    have hact := h s hs
    ⟨hact.1, hact.2.world, hact.2.statRules, hact.2.hashRules, hact.2.cache⟩

/-- **Whatever its cache holds, the host of a session computes as the bare host does.** -/
theorem alikeHosts_host : (holding (IsStill w P)).AlikeHosts host w.bareHost where
  calls := alikeCalls_systemCalls
  stat := rel_watchedLook _
  hasher := alikeHashers_hasher
  intern := rel_intern

/-- A request holds nothing when it is over. -/
theorem rel_request {α : Type} {act : ExceptT Failure Run α} {r : Except Failure α}
    (h : ((holding (IsStill w P)).except Failure).Rel act r) :
    (holding (IsStill w P)).Rel (request act) r :=
  rel_keeping _ h

/-! ### Using the cache -/

/-- What a lookup does: every other one of a blind session finds nothing. -/
theorem lookUp_eq {α : Type} (find : Cache → Option α × Cache) (s : Session) :
    lookUp find s =
      if s.isBlind && s.lookups % 2 = 0 then (none, { s with lookups := s.lookups + 1 })
      else ((find s.cache).1, { s with lookups := s.lookups + 1, cache := (find s.cache).2 }) := by
  unfold lookUp
  by_cases h : (s.isBlind && s.lookups % 2 = 0) = true
  · rw [if_pos h]
    simp only [bind, StateT.bind, get, getThe, MonadStateOf.get, StateT.get, pure, h]
    rfl
  · rw [if_neg h]
    simp only [bind, StateT.bind, get, getThe, MonadStateOf.get, StateT.get, pure, h]
    rfl

/-- A lookup keeps to what is known of the cache if that is kept by looking there. -/
theorem isStill_lookUp {α : Type} {find : Cache → Option α × Cache}
    (hfind : ∀ c, P c → P (find c).2) {s : Session} (hs : IsStill w P s) :
    IsStill w P (lookUp find s).2 := by
  rw [lookUp_eq]
  split_ifs
  · exact ⟨hs.world, hs.statRules, hs.hashRules, hs.cache⟩
  · exact ⟨hs.world, hs.statRules, hs.hashRules, hfind _ hs.cache⟩

/-- What a lookup finds is in the cache. -/
theorem admits_lookUp {α : Type} {find : Cache → Option α × Cache} {s : Session}
    {inLedger : Option α} (h : Ledger.Admits inLedger (find s.cache).1) :
    Ledger.Admits inLedger (lookUp find s).1 := by
  rw [lookUp_eq]
  split_ifs
  · exact Or.inl rfl
  · exact h

theorem isStill_updateCache {f : Cache → Cache} (hf : ∀ c, P c → P (f c)) {s : Session}
    (hs : IsStill w P s) : IsStill w P (updateCache f s).2 :=
  ⟨hs.world, hs.statRules, hs.hashRules, hf _ hs.cache⟩

/-- A session that has done nothing yet, on a world that is there already. -/
def startOn (w : World) (r : Retention) (isBlind isWatched : Bool) : Session :=
  { start r isBlind isWatched with world := w }

theorem isStill_startOn {r : Retention} (h : P (.empty r)) (isBlind isWatched : Bool) :
    IsStill w P (startOn w r isBlind isWatched) :=
  ⟨rfl, rfl, rfl, h⟩

/-! ### Answers -/

variable {st : Strategy}

/-- All that a cache holds is right. -/
def HoldsRight (w : World) (st : Strategy) (c : Cache) : Prop :=
  ∃ l : Ledger, c.HoldsBy l ∧ l.IsRight w st

theorem holdsRight_empty (w : World) (st : Strategy) (r : Retention) :
    HoldsRight w st (.empty r) :=
  ⟨.blank, Cache.holdsBy_empty r, Ledger.isRight_blank w st⟩

theorem HoldsRight.after {c : Cache} (hc : HoldsRight w st c) {u : Mirror.Use}
    (hu : u.IsRight w st) : HoldsRight w st (Cache.mirror.after c u) := by
  obtain ⟨l, hl, hright⟩ := hc
  exact ⟨l.after u, hl.after u, hright.after hu⟩

/-- The host of a session keeps to the ledger of its cache. -/
theorem keepsLedger_host : host.KeepsLedger w st (IsStill w (HoldsRight w st)) where
  ledger s hs := by
    obtain ⟨l, hl, hright⟩ := hs.cache
    exact ⟨l, hright, fun key => admits_lookUp (hl.entries.find key),
      fun key => admits_lookUp (hl.trees.find key),
      fun key => admits_lookUp (hl.aggregates.find key)⟩
  lookUpEntry key _ hs := isStill_lookUp (fun _ hc => hc.after (u := .lookUpEntry key) trivial) hs
  lookUpTree key _ hs := isStill_lookUp (fun _ hc => hc.after (u := .lookUpTree key) trivial) hs
  lookUpAggregate key _ hs :=
    isStill_lookUp (fun _ hc => hc.after (u := .lookUpAggregate key) trivial) hs
  putEntry _ e _ hs he := isStill_updateCache (fun _ hc => hc.after (u := .putEntry e) he) hs
  putTree _ t _ hs ht := isStill_updateCache (fun _ hc => hc.after (u := .putTree t) ht) hs
  putAggregate key a _ hs ha :=
    isStill_updateCache (fun _ hc => hc.after (u := .putAggregate key a) ha) hs

/-- **The host of a session is faithful** to a world that stands still. -/
theorem isFaithful_host : host.IsFaithful w st (IsStill w (HoldsRight w st)) where
  alike := alikeHosts_host
  entries := keepsLedger_host.entries
  trees := keepsLedger_host.trees
  aggregates := keepsLedger_host.aggregates
  keeping _ _ _ h := rel_keeping _ h
  exclusively _ _ _ _ h := h

/-- A root as the bare host takes it. -/
def bareElement (w : World) : Member → Element Id
  | .path p => .path p
  | .directory t => .directory t
  | .source s => .source (s.visit w.bareHost.calls.lift)

/-- A root is spelled canonically, where a tree is kept for it. -/
def IsCanonicalMember (w : World) : Member → Prop
  | .path p => w.IsCanonical p
  | .directory t => t.isFiltered = true ∨ w.IsCanonical t.root
  | .source _ => True

theorem alikeSources_source (s : Source) :
    ((holding (IsStill w P)).state (List Entry)).AlikeSources
      (s.visit systemCalls.lift) (s.visit w.bareHost.calls.lift) :=
  Relator.visit_source (Relator.calls_lift alikeCalls_systemCalls) s

theorem alike_element {r : Member} (hr : IsCanonicalMember w r) :
    (holding (IsStill w P)).AlikeElements w (element r) (bareElement w r) := by
  cases r with
  | path p => exact .path hr
  | directory t => exact .directory hr
  | source s => exact .source (alikeSources_source s)

theorem forall₂_element {c : List Member} (hc : ∀ r ∈ c, IsCanonicalMember w r) :
    List.Forall₂ ((holding (IsStill w P)).AlikeElements w) (c.map element)
      (c.map (bareElement w)) := by
  rw [List.forall₂_map_left_iff, List.forall₂_map_right_iff, List.forall₂_same]
  exact fun r hr => alike_element (hc r hr)

theorem rel_snapshotSelf (p : Path) :
    (holding (IsStill w (HoldsRight w st))).Rel (snapshotSelf p) (w.bareHost.snapshotSelf p) :=
  rel_request (isFaithful_host.snapshotSelf p)

theorem rel_snapshotAll (p : Path) :
    (holding (IsStill w (HoldsRight w st))).Rel (snapshotAll st p)
      (w.bareHost.snapshotAll st p) :=
  rel_request (isFaithful_host.snapshotAll p)

theorem rel_snapshotTree {t : DirectoryTree} (ht : t.isFiltered = true ∨ w.IsCanonical t.root) :
    (holding (IsStill w (HoldsRight w st))).Rel (snapshotTree t) (w.bareHost.snapshotTree t) :=
  rel_request (isFaithful_host.snapshotTree ht)

theorem rel_snapshotSource (s : Source) :
    (holding (IsStill w (HoldsRight w st))).Rel (snapshotSource s)
      (w.bareHost.snapshotSource (s.visit w.bareHost.calls.lift)) :=
  rel_request (isFaithful_host.snapshotSource (alikeSources_source s))

theorem rel_expand {c : List Member} (hc : ∀ r ∈ c, IsCanonicalMember w r) :
    (holding (IsStill w (HoldsRight w st))).Rel (expand c)
      (w.bareHost.expand (c.map (bareElement w))) :=
  rel_request (isFaithful_host.expand (forall₂_element hc))

theorem rel_snapshotCollection (s : Strategy) {c : List Member}
    (hc : ∀ r ∈ c, IsCanonicalMember w r) :
    (holding (IsStill w (HoldsRight w st))).Rel (snapshotCollection s c)
      (w.bareHost.snapshotCollection s (c.map (bareElement w))) :=
  rel_request (isFaithful_host.snapshotCollection s (forall₂_element hc))

end SnapStore.Session
