import SnapStore.Proofs.Session.Rules
import SnapStore.Proofs.Session.Still
import SnapStore.Proofs.Store.Makes
import SnapStore.Session.Requests

/-!
# Sessions without dots

Whatever a session is asked, if its cache holds only entries and trees without `.` and `..` in their
relative paths (`SnapStore.Cache.IsUndotted`) then it answers with no others. It may drop values,
hide them from lookups, look and hash by rules or take a snapshot inside of another; nothing of this
makes a relative path.
-/

namespace SnapStore

/-! ### Shelves and caches -/

namespace Shelf

variable {α : Type} {P : α → Prop} {s : Shelf α}

theorem exists_of_find? {key : String} {a : α} (h : s.find? key = some a) :
    ∃ i ∈ s.items, i.2 = a := by
  obtain ⟨items⟩ := s
  change items.lookup key = some a at h
  induction items with
  | nil => cases h
  | cons i items ih =>
    rw [List.lookup_cons] at h
    split at h
    · exact ⟨i, by simp, Option.some.inj h⟩
    · obtain ⟨j, hj, hja⟩ := ih h
      exact ⟨j, List.mem_cons_of_mem _ hj, hja⟩

theorem forall_bring (h : ∀ i ∈ s.items, P i.2) (key : String) {a : α} (ha : P a) :
    ∀ i ∈ (s.bring key a).items, P i.2 :=
  List.forall_mem_cons.2 ⟨ha, fun i hi => h i (List.mem_of_mem_filter hi)⟩

theorem forall_use (h : ∀ i ∈ s.items, P i.2) (r : Retention) (key : String) :
    ∀ i ∈ (s.use r key).items, P i.2 := by
  unfold use
  split
  · rename_i a ha
    obtain ⟨i, hi, rfl⟩ := exists_of_find? ha
    exact forall_bring h key (h i hi)
  · exact h

theorem forall_store (h : ∀ i ∈ s.items, P i.2) (r : Retention) (key : String) {a : α} (ha : P a) :
    ∀ i ∈ (s.store r key a).items, P i.2 := by
  cases r with
  | none => exact h
  | all => exact forall_bring h key ha
  | recent capacity => exact fun i hi => forall_bring h key ha i (List.mem_of_mem_take hi)

end Shelf

/-- **A cache that holds only undotted entries and trees.** -/
structure Cache.IsUndotted (c : Cache) : Prop where
  /-- The entries. -/
  entries : ∀ i ∈ c.entries.items, i.2.IsUndotted
  /-- The trees. -/
  trees : ∀ i ∈ c.trees.items, i.2.IsUndotted

namespace Cache.IsUndotted

variable {c : Cache} (h : c.IsUndotted)

include h

theorem lookUpEntry (key : String) :
    (∀ e, (c.lookUpEntry key).1 = some e → e.IsUndotted) ∧ (c.lookUpEntry key).2.IsUndotted := by
  refine ⟨fun e he => ?_, Shelf.forall_use h.entries _ key, h.trees⟩
  obtain ⟨i, hi, rfl⟩ := Shelf.exists_of_find? he
  exact h.entries i hi

theorem lookUpTree (key : String) :
    (∀ t, (c.lookUpTree key).1 = some t → t.IsUndotted) ∧ (c.lookUpTree key).2.IsUndotted := by
  refine ⟨fun t ht => ?_, h.entries, Shelf.forall_use h.trees _ key⟩
  obtain ⟨i, hi, rfl⟩ := Shelf.exists_of_find? ht
  exact h.trees i hi

theorem putEntry {e : Entry} (he : e.IsUndotted) : (c.putEntry e).IsUndotted :=
  ⟨Shelf.forall_store h.entries _ _ he, h.trees⟩

theorem putTree {t : TreeSnapshot} (ht : t.IsUndotted) : (c.putTree t).IsUndotted := by
  unfold Cache.putTree
  split
  · exact h
  · exact ⟨h.entries, Shelf.forall_store h.trees _ _ ht⟩

end Cache.IsUndotted

namespace Session

/-- Its cache holds only undotted entries and trees. -/
def IsUndotted (s : Session) : Prop := s.cache.IsUndotted

/-! ### The hosts of a session -/

/-- What a lookup finds, if it is not hidden. -/
theorem undotted_lookUp {α : Type} {P : α → Prop} {find : Cache → Option α × Cache}
    (hfind : ∀ c, c.IsUndotted → (∀ a, (find c).1 = some a → P a) ∧ (find c).2.IsUndotted)
    {s : Session} (hs : s.IsUndotted) :
    (∀ a, (lookUp find s).1 = some a → P a) ∧ (lookUp find s).2.IsUndotted := by
  rw [lookUp_eq]
  split_ifs
  · exact ⟨nofun, hs⟩
  · exact hfind s.cache hs

theorem preserving_systemCalls : (preserving IsUndotted).AlikeCalls systemCalls systemCalls :=
  Relator.calls_live fun _ hs => hs

theorem preserving_look (p : Path) : (preserving IsUndotted).Rel (look p) (look p) :=
  Relator.statBy preserving_systemCalls p

theorem preserving_watchedLook {before : Path → Run (Except Failure Unit)} {p : Path}
    (hbefore : ∀ s, s.IsUndotted → (before p s).2.IsUndotted) :
    (preserving IsUndotted).Rel (watchedLook before p) (watchedLook before p) := by
  intro s hs
  rw [run_watchedLook]
  split_ifs
  · dsimp only
    rcases s.statRules.lookup p with _ | ⟨seen⟩ | e | _
    · exact preserving_look p _ hs
    · exact hs
    · exact hs
    · dsimp only
      have hcleared := hbefore (clearStatRule p
        { s with asked := { s.asked with looks := s.asked.looks + 1 } }).2 hs
      generalize before p _ = result at hcleared ⊢
      rcases result with ⟨_ | _, s'⟩
      · exact hcleared
      · exact preserving_look p s' hcleared
  · exact preserving_look p s hs

theorem preserving_watchedDigest (what : String) {compute : Run (Except Error Digest)}
    (h : (preserving IsUndotted).Rel compute compute) :
    (preserving IsUndotted).Rel (watchedDigest what compute) (watchedDigest what compute) := by
  intro s hs
  rw [run_watchedDigest]
  split_ifs
  · dsimp only
    rcases s.hashRules.lookup what with _ | e
    · exact h _ hs
    · exact hs
  · exact h s hs

theorem preserving_hasher : (preserving IsUndotted).AlikeHashers hasher hasher where
  content what r :=
    preserving_watchedDigest what ((Relator.sha256 preserving_systemCalls).content what r)
  file p seen :=
    preserving_watchedDigest p.display ((Relator.sha256 preserving_systemCalls).file p seen)

/-- A host of the session keeps to undotted values if its looks do. -/
theorem keepsUndotted_hostLooking {stat : Path → Run (Except Failure Metadata)}
    (hstat : ∀ p, (preserving IsUndotted).Rel (stat p) (stat p)) :
    (hostLooking stat).KeepsUndotted IsUndotted where
  alike :=
    { calls := preserving_systemCalls
      stat := hstat
      hasher := preserving_hasher
      intern := fun _ _ hs => hs }
  exclusively _ _ _ := rfl
  keeping _ _ _ := ⟨rfl, fun hs => hs⟩
  findEntry key _ hs := undotted_lookUp (fun _ hc => hc.lookUpEntry key) hs
  storeEntry _ _ _ he hs := Cache.IsUndotted.putEntry hs he
  findTree key _ hs := undotted_lookUp (fun _ hc => hc.lookUpTree key) hs
  storeTree _ _ _ ht hs := Cache.IsUndotted.putTree hs ht

theorem keepsUndotted_innerHost : innerHost.KeepsUndotted IsUndotted :=
  keepsUndotted_hostLooking fun _ => preserving_watchedLook fun _ hs => hs

/-- **The host of a session keeps to undotted values**, also where looks take snapshots. -/
theorem keepsUndotted_host : host.KeepsUndotted IsUndotted := by
  refine keepsUndotted_hostLooking fun p => preserving_watchedLook fun s hs => ?_
  have hdiscard : Makes IsUndotted (fun _ => True) (discard (innerHost.snapshotSelf p)) := by
    refine (keepsUndotted_innerHost.makes_snapshotSelf p).bind fun _ _ => makes_pure trivial
  exact (hdiscard s hs).2

/-! ### What is answered -/

variable {s : Session} (hs : s.IsUndotted)

include hs

theorem isUndotted_of_snapshotSelf {p : Path} {e : Entry} (h : (snapshotSelf p s).1 = .ok e) :
    e.IsUndotted :=
  (keepsUndotted_host.makes_snapshotSelf p s hs).1 e h

theorem isUndotted_of_snapshotTree {t : DirectoryTree} {tree : TreeSnapshot}
    (h : (snapshotTree t s).1 = .ok tree) : tree.IsUndotted :=
  (keepsUndotted_host.makes_snapshotTree t s hs).1 tree h

theorem isUndotted_of_snapshotSource {source : Source} {tree : TreeSnapshot}
    (hsource : ∀ t, source = .scripted t → ∀ item ∈ t.items, item.relative.IsUndotted)
    (h : (snapshotSource source s).1 = .ok tree) : tree.IsUndotted :=
  (keepsUndotted_host.makes_snapshotSource hsource s hs).1 tree h

theorem isUndotted_of_expand {c : List Member} {es : List Entry}
    (hc : ∀ t, .source (.scripted t) ∈ c → ∀ item ∈ t.items, item.relative.IsUndotted)
    (h : (expand c s).1 = .ok es) : ∀ e ∈ es, e.IsUndotted := by
  refine (keepsUndotted_host.makes_expand (fun source hsource => ?_) s hs).1 es h
  obtain ⟨m, hm, helement⟩ := List.mem_map.1 hsource
  cases m with
  | path p => cases helement
  | directory t => cases helement
  | source source' =>
    cases helement
    refine keepsUndotted_host.makes_snapshotSource ?_
    rintro t rfl
    exact hc t hm

end Session

end SnapStore
