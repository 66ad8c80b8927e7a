import SnapStore.Proofs.Session.Still
import SnapStore.Proofs.Store.AlikeStores

/-!
# Sessions that keep nothing

A session whose cache keeps nothing (`SnapStore.Cache.IsForgetful`) computes whatever it is asked
for. On a world that stands still it answers as the bare host does, however paths are spelled
(`SnapStore.Session.rel_snapshotCollection_of_forgetful`), while a session that keeps trees does so
for canonical spellings only.
-/

namespace SnapStore

/-- A cache that keeps nothing, and holds nothing. -/
structure Cache.IsForgetful (c : Cache) : Prop where
  /-- It keeps nothing. -/
  retention : c.retention = .none
  /-- It holds no entry. -/
  entries : c.entries = .empty
  /-- It holds no tree. -/
  trees : c.trees = .empty
  /-- It holds no aggregate. -/
  aggregates : c.aggregates = .empty

namespace Cache.IsForgetful

theorem empty : IsForgetful (.empty .none) := ⟨rfl, rfl, rfl, rfl⟩

variable {c : Cache} (h : c.IsForgetful)

include h

/-- Whatever is done with it, it stays so. -/
theorem after (u : Mirror.Use) : (mirror.after c u).IsForgetful := by
  obtain ⟨_, _, _, _, counts⟩ := c
  obtain ⟨rfl, rfl, rfl, rfl⟩ := h
  cases u with
  | putTree t =>
    obtain ⟨base, entries⟩ := t
    cases base <;> exact ⟨rfl, rfl, rfl, rfl⟩
  | _ => exact ⟨rfl, rfl, rfl, rfl⟩

end Cache.IsForgetful

namespace Session

variable {w : World}

/-- A lookup finds nothing. -/
theorem rel_lookUp_of_forgetful {α : Type} {find : Cache → Option α × Cache}
    (hnone : ∀ c : Cache, c.IsForgetful → (find c).1 = none)
    (hfind : ∀ c : Cache, c.IsForgetful → (find c).2.IsForgetful) :
    (holding (IsStill w Cache.IsForgetful)).Rel (lookUp find) none := by
  intro s hs
  refine ⟨?_, isStill_lookUp hfind hs⟩
  rw [lookUp_eq]
  split_ifs
  · rfl
  · exact hnone _ hs.cache

/-- **The host of a session that keeps nothing** is alike the bare host in all that it has. -/
theorem alikeStores_host :
    (holding (IsStill w Cache.IsForgetful)).AlikeStores host w.bareHost where
  toAlikeHosts := alikeHosts_host
  entries :=
    { find := fun key => rel_lookUp_of_forgetful
        (fun c hc => by rw [Cache.lookUpEntry, hc.entries]; rfl)
        fun c hc => hc.after (.lookUpEntry key)
      store := fun _ e _ hs => ⟨rfl, isStill_updateCache (fun c hc => hc.after (.putEntry e)) hs⟩ }
  trees :=
    { find := fun key => rel_lookUp_of_forgetful
        (fun c hc => by rw [Cache.lookUpTree, hc.trees]; rfl)
        fun c hc => hc.after (.lookUpTree key)
      store := fun _ t _ hs => ⟨rfl, isStill_updateCache (fun c hc => hc.after (.putTree t)) hs⟩ }
  aggregates :=
    { find := fun key =>
        rel_lookUp_of_forgetful (fun c hc => by rw [Cache.lookUpAggregate, hc.aggregates]; rfl)
          fun c hc => hc.after (.lookUpAggregate key)
      store := fun key a _ hs =>
        ⟨rfl, isStill_updateCache (fun c hc => hc.after (.putAggregate key a)) hs⟩ }
  keeping keys _ _ h := rel_keeping keys h
  exclusively _ _ _ _ h := h

/-- The roots of a collection are the same for both. -/
theorem forall₂_sameElements (c : List Member) :
    List.Forall₂ (holding (IsStill w Cache.IsForgetful)).SameElements (c.map element)
      (c.map (bareElement w)) := by
  rw [List.forall₂_map_left_iff, List.forall₂_map_right_iff, List.forall₂_same]
  rintro (p | t | s) -
  · exact .path p
  · exact .directory t
  · exact .source (alikeSources_source s)

/-- **It answers as the bare host does**, however its roots are spelled. -/
theorem rel_snapshotTree_of_forgetful (t : DirectoryTree) :
    (holding (IsStill w Cache.IsForgetful)).Rel (snapshotTree t) (w.bareHost.snapshotTree t) :=
  rel_request (Relator.snapshotTree alikeStores_host t)

theorem rel_snapshotCollection_of_forgetful (how : Strategy) (c : List Member) :
    (holding (IsStill w Cache.IsForgetful)).Rel (snapshotCollection how c)
      (w.bareHost.snapshotCollection how (c.map (bareElement w))) :=
  rel_request (Relator.snapshotCollection alikeStores_host.toAlikeSnapshots how
    (forall₂_sameElements c))

end Session

end SnapStore
