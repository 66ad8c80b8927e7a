import SnapStore.Proofs.Store.Notes

/-!
# Frozen until forgotten, fresh after

A cache that keeps everything answers with what was computed first, whatever has become of the world
since, until it is told to forget. What is filtered or reported by other tree sources is not kept,
and what is forgotten is one key. Where nothing is kept under a key, a request for it is answered as
by a store without a cache (`SnapStore.Cache.IsFresh.answer`), whatever is kept under other keys:
the aggregate of a path is made of the entry and the tree under the same key.

`SnapStore.Mirror.frozen_until_forgotten` puts this together for a run through changing worlds.
-/

namespace SnapStore

/-! ### Fresh keys -/

namespace Cache

variable {c : Cache} {key : String} {w : World} {st : Strategy}

/-- Nothing is kept under a key. -/
structure IsFresh (key : String) (c : Cache) : Prop where
  /-- No entry. -/
  entries : c.entries.find? key = none
  /-- No tree. -/
  trees : c.trees.find? key = none
  /-- No aggregate. -/
  aggregates : c.aggregates.find? key = none

theorem isFresh_empty (key : String) (r : Retention) : (empty r).IsFresh key := ⟨rfl, rfl, rfl⟩

theorem isFresh_invalidate (key : String) (c : Cache) : (c.invalidate key).IsFresh key :=
  ⟨Shelf.find?_erase_self _ _, Shelf.find?_erase_self _ _, Shelf.find?_erase_self _ _⟩

/-- Other keys are not forgotten. -/
theorem find?_invalidate {other : String} (hother : other ≠ key) (c : Cache) :
    (c.invalidate key).entries.find? other = c.entries.find? other ∧
      (c.invalidate key).trees.find? other = c.trees.find? other ∧
      (c.invalidate key).aggregates.find? other = c.aggregates.find? other :=
  ⟨Shelf.find?_erase_of_ne hother _, Shelf.find?_erase_of_ne hother _,
    Shelf.find?_erase_of_ne hother _⟩

namespace IsFresh

/-- Where there is no entry, one is computed. -/
theorem gives_snapshotSelf {p : Path} (hp : p.canonical w.workingDirectory = .ok key) :
    Gives (fun c : Cache => c.entries.find? key = none) ((mirror.host w).snapshotSelf p)
      (w.bareHost.snapshotSelf p) := by
  intro c hc
  have hkey := Mirror.run_key (M := mirror) (w := w) p c
  rw [World.keyOf_eq_ok_iff.2 hp] at hkey
  rw [show ((mirror.host w).snapshotSelf p).run c = _ from run_bind_of_ok hkey,
    w.bareHost_snapshotSelf, World.keyOf_eq_ok_iff.2 hp]
  refine Host.gives_cached (fun _ => rfl)
    (fun c hc => ⟨hc, (Shelf.find?_use _ _ _ _).trans hc⟩) ?_ c hc
  exact fun c hc =>
    (Relator.observe (Mirror.alikeHosts_host mirror w fun _ => True) key c trivial).1

/-- Where there is no tree, it is walked. -/
theorem gives_snapshotTree {p : Path} (hp : p.canonical w.workingDirectory = .ok key) :
    Gives (fun c : Cache => c.trees.find? key = none) ((mirror.host w).snapshotTree (.all p))
      (w.bareHost.snapshotTree (.all p)) := by
  intro c hc
  have hkey := Mirror.run_key (M := mirror) (w := w) p c
  rw [World.keyOf_eq_ok_iff.2 hp] at hkey
  have hbare := w.bareHost_snapshotTree (.all p)
  rw [show (DirectoryTree.all p).root = p from rfl, World.keyOf_eq_ok_iff.2 hp] at hbare
  rw [show ((mirror.host w).snapshotTree (.all p)).run c = _ from run_bind_of_ok hkey, hbare]
  refine Host.gives_cached (fun _ => rfl)
    (fun c hc => ⟨hc, (Shelf.find?_use _ _ _ _).trans hc⟩) ?_ c hc
  exact fun c _ => congrArg Prod.fst (Mirror.run_walked (M := mirror) p key c)

/-- A path in a collection that has neither is computed. -/
theorem gives_expandElement {p : Path} (hp : p.canonical w.workingDirectory = .ok key) :
    Gives (fun c : Cache => c.entries.find? key = none ∧ c.trees.find? key = none)
      ((mirror.host w).expandElement (.path p)) (w.bareHost.expandElement (.path p)) := by
  -- The snapshot of the path itself does not touch the trees.
  have htrees : Preserves (fun c : Cache => c.trees.find? key = none)
      ((mirror.host w).snapshotSelf p) := by
    refine (preserves_of_rel (Relator.key (Mirror.alikeHosts_host mirror w _) p)).bind
      fun key' => ?_
    exact preserves_cached (fun _ => rfl) (fun c hc => hc)
      (preserves_of_rel (Relator.observe (Mirror.alikeHosts_host mirror w _) key'))
      fun _ _ _ _ hc => hc
  refine Gives.bind (·.trees.find? key = none) (fun c hc => gives_snapshotSelf hp c hc.1)
    (fun c hc => htrees c hc.2) fun e => ?_
  cases e with
  | directory path relative isRoot =>
    exact Gives.bind (fun _ => True) (gives_snapshotTree hp) (fun _ _ => trivial) fun t =>
      gives_pure _
  | file path relative isRoot snapshot => exact gives_pure _
  | missing path name => exact gives_pure _

/-- The aggregate of a key that nothing is kept under is made from nothing that is kept. -/
theorem gives_snapshotAll (st : Strategy) {p : Path}
    (hp : p.canonical w.workingDirectory = .ok key) :
    Gives (IsFresh key) ((mirror.host w).snapshotAll st p) (w.bareHost.snapshotAll st p) := by
  intro c hc
  have hkey := Mirror.run_key (M := mirror) (w := w) p c
  rw [World.keyOf_eq_ok_iff.2 hp] at hkey
  rw [show ((mirror.host w).snapshotAll st p).run c = _ from run_bind_of_ok hkey,
    w.bareHost_snapshotAll, World.keyOf_eq_ok_iff.2 hp]
  have hexpand : Gives (IsFresh key) ((mirror.host w).expand [.path (.ofString key)])
      (w.bareHost.expand [.path (.ofString key)]) :=
    Gives.bind (fun _ => True)
      (fun c hc => gives_expandElement (Path.canonical_ofString hp _) c ⟨hc.entries, hc.trees⟩)
      (fun _ _ => trivial) fun first => gives_pure _
  refine Host.gives_cached (fun _ => rfl) (fun c hc => ⟨hc.aggregates, hc.entries, hc.trees,
    (Shelf.find?_use _ _ _ _).trans hc.aggregates⟩) ?_ c hc
  exact Gives.bind (fun _ => True) hexpand (fun _ _ => trivial) fun _ => gives_pure _

/-- **A request for a key that nothing is kept under is answered as by a store without a cache.** -/
theorem answer (hc : c.IsFresh key) (st : Strategy) {p : Path}
    (hp : p.canonical w.workingDirectory = .ok key) {r : Request}
    (hr : r ∈ [Request.entry p, .tree (.all p), .aggregate p]) :
    (mirror.answer w st r c).1 = w.bareHost.answer st r := by
  simp only [List.mem_cons, List.not_mem_nil, or_false] at hr
  obtain rfl | rfl | rfl := hr
  · exact congrArg Answer.entry (gives_snapshotSelf hp c hc.entries)
  · exact congrArg Answer.tree (gives_snapshotTree hp c hc.trees)
  · exact congrArg Answer.aggregate (gives_snapshotAll st hp c hc)

end IsFresh

/-! ### What is not kept -/

/-- A filtered tree is walked and not kept. -/
theorem answer_filtered (w : World) (st : Strategy) {t : DirectoryTree} (ht : t.isFiltered = true)
    (c : Cache) : (mirror.answer w st (.tree t) c).2 = c := by
  have halike := Mirror.alikeHosts_host mirror w (· = c)
  have hstays : Preserves (· = c) ((mirror.host w).snapshotTree t) := by
    refine (preserves_of_rel (Relator.key halike t.root)).bind fun key => ?_
    rw [if_pos ht]
    exact preserves_of_rel (Relator.walk halike (some key)
      (Relator.visit_directoryTree (Relator.calls_lift halike.calls) t))
  exact hstays c rfl

/-- Neither is what another tree source reports. -/
theorem answer_source (w : World) (st : Strategy) (source : PureSource) (c : Cache) :
    (mirror.answer w st (.source source) c).2 = c :=
  preserves_of_rel
    (Relator.walk (Mirror.alikeHosts_host mirror w (· = c)) none (source.alike _)) c rfl

end Cache

/-! ### Frozen -/

namespace IsNoted

variable {s : Cache × List Note} {w : World} {key : String}

/-- An entry that is answered is the first that was noted. -/
theorem first_entry (hs : IsNoted s) (st : Strategy) {p : Path}
    (hp : p.canonical w.workingDirectory = .ok key) {e : Entry}
    (he : ((Cache.mirror.noting w).answer w st (.entry p) s).1 = .entry (.ok e)) :
    ∃ w₀, Note.first (Note.entry? key) key
        ((Cache.mirror.noting w).answer w st (.entry p) s).2.2 = some (w₀, e) ∧
      Host.rightEntry w₀ key = .ok e := by
  obtain ⟨hnoted, hkept⟩ := hs.snapshotSelf hp
  obtain ⟨hfound, hright⟩ := hnoted.entries key
  rw [hkept e (Answer.entry.inj he)] at hfound
  obtain ⟨⟨w₀, e₀⟩, hfirst, rfl⟩ := Option.map_eq_some_iff.1 hfound.symm
  exact ⟨w₀, hfirst, hright w₀ e₀ hfirst⟩

/-- So is a tree. -/
theorem first_tree (hs : IsNoted s) (st : Strategy) {p : Path}
    (hp : p.canonical w.workingDirectory = .ok key) (hcanonical : w.IsCanonical p)
    {t : TreeSnapshot}
    (ht : ((Cache.mirror.noting w).answer w st (.tree (.all p)) s).1 = .tree (.ok t)) :
    ∃ w₀, Note.first (Note.tree? key) key
        ((Cache.mirror.noting w).answer w st (.tree (.all p)) s).2.2 = some (w₀, t) ∧
      Host.rightTree w₀ key = .ok t := by
  obtain ⟨hnoted, hkept⟩ := hs.snapshotTree hcanonical hp
  obtain ⟨hfound, hright⟩ := hnoted.trees key
  rw [hkept t (Answer.tree.inj ht)] at hfound
  obtain ⟨⟨w₀, t₀⟩, hfirst, rfl⟩ := Option.map_eq_some_iff.1 hfound.symm
  exact ⟨w₀, hfirst, hright w₀ t₀ hfirst⟩

end IsNoted

namespace Mirror

/-- **Frozen until forgotten, fresh after.** After any run through changing worlds in which whole
trees are asked for by canonical paths: a snapshot that succeeds gives the value of the first
success on its key that was noted since the key was forgotten, which was right in the world of that
time. The notes do not change the run. Filtered trees and other tree sources change nothing that is
kept, and to forget a key changes nothing that is kept under others. A request for a key that has
just been forgotten is answered as by a store with an empty cache. -/
theorem frozen_until_forgotten (st : Strategy) {ts : List Turn}
    (hts : ∀ t ∈ ts, t.request.IsCanonical t.world) :
    let run := (turns Cache.mirror.noting st ts).run (.empty .all, [])
    let plain := (turns (fun _ => Cache.mirror) st ts).run (.empty .all)
    (run.1 = plain.1 ∧ run.2.1 = plain.2) ∧
    (∀ w p key e, p.canonical w.workingDirectory = .ok key →
      (Cache.mirror.answer w st (.entry p) plain.2).1 = .entry (.ok e) →
      ∃ w₀, Note.first (Note.entry? key) key
          ((Cache.mirror.noting w).answer w st (.entry p) run.2).2.2 = some (w₀, e) ∧
        Host.rightEntry w₀ key = .ok e) ∧
    (∀ w p key t, p.canonical w.workingDirectory = .ok key → w.IsCanonical p →
      (Cache.mirror.answer w st (.tree (.all p)) plain.2).1 = .tree (.ok t) →
      ∃ w₀, Note.first (Note.tree? key) key
          ((Cache.mirror.noting w).answer w st (.tree (.all p)) run.2).2.2 = some (w₀, t) ∧
        Host.rightTree w₀ key = .ok t) ∧
    (∀ w (t : DirectoryTree) (c : Cache), t.isFiltered = true →
      (Cache.mirror.answer w st (.tree t) c).2 = c) ∧
    (∀ w source (c : Cache), (Cache.mirror.answer w st (.source source) c).2 = c) ∧
    (∀ key other (c : Cache), other ≠ key →
      (c.invalidate key).entries.find? other = c.entries.find? other ∧
      (c.invalidate key).trees.find? other = c.trees.find? other ∧
      (c.invalidate key).aggregates.find? other = c.aggregates.find? other) ∧
    ∀ (w : World) p key (c : Cache), p.canonical w.workingDirectory = .ok key →
      ∀ r ∈ [Request.entry p, .tree (.all p), .aggregate p],
        (Cache.mirror.answer w st r (c.invalidate key)).1 =
          (Cache.mirror.answer w st r (.empty .all)).1 := by
  intro run plain
  have hnoted : IsNoted run.2 := isNoted_start.turns st hts
  have hplain : run.1 = plain.1 ∧ run.2.1 = plain.2 :=
    turns_noting Cache.mirror st ts (.empty .all, [])
  have hanswer : ∀ w r, ((Cache.mirror.noting w).answer w st r run.2).1 =
      (Cache.mirror.answer w st r plain.2).1 := by
    intro w r
    rw [← hplain.2]
    exact (answer_noting Cache.mirror st w r run.2).1
  refine ⟨hplain, fun w p key e hp he => hnoted.first_entry st hp ((hanswer w _).trans he),
    fun w p key t hp hcanonical ht => hnoted.first_tree st hp hcanonical ((hanswer w _).trans ht),
    fun w t c ht => Cache.answer_filtered w st ht c,
    fun w source c => Cache.answer_source w st source c,
    fun key other c hother => Cache.find?_invalidate hother c, fun w p key c hp r hr => ?_⟩
  rw [(Cache.isFresh_invalidate key c).answer st hp hr,
    (Cache.isFresh_empty key .all).answer st hp hr]

/-- The type of the entry that is answered. -/
def entryType? : Answer → Option FileType
  | .entry (.ok e) => some e.fileType
  | _ => none

/-- A directory that a collection asked for is answered after it has been removed. -/
theorem frozen_of_removed :
    let w := World.empty.put [[100]] (.directory .epoch)
    let ts : List Turn := [⟨w, .expansion [.path (.ofString "/d")]⟩, ⟨.empty, .invalidate "/e"⟩]
    let r := Request.entry (.ofString "/d")
    (∀ t ∈ ts, t.request.IsCanonical t.world) ∧
      Host.rightEntry .empty "/d" = .ok (.missing "/d" "d") ∧
      ∃ e, (Cache.mirror.answer .empty .default r
          ((turns (fun _ => Cache.mirror) .default ts).run (.empty .all)).2).1 = .entry (.ok e) ∧
        e.fileType = .directory ∧
        ∃ w₀, Note.first (Note.entry? "/d") "/d"
          ((Cache.mirror.noting .empty).answer .empty .default r
            ((turns Cache.mirror.noting .default ts).run (.empty .all, [])).2).2.2 = some (w₀, e) ∧
          Host.rightEntry w₀ "/d" = .ok e := by
  intro w ts r
  have hts : ∀ t ∈ ts, t.request.IsCanonical t.world := by
    simp only [ts, List.forall_mem_cons, Request.IsCanonical, Root.IsCanonical]
    exact ⟨⟨World.isCanonical_ofString (p := .ofString "/d") rfl, List.forall_mem_nil _⟩, trivial,
      List.forall_mem_nil _⟩
  have hkey : (Path.ofString "/d").canonical World.empty.workingDirectory = .ok "/d" := by
    decide +kernel
  have hanswer : entryType? (Cache.mirror.answer .empty .default r
      ((turns (fun _ => Cache.mirror) .default ts).run (.empty .all)).2).1 = some .directory := by
    decide +kernel
  refine ⟨hts, by decide +kernel, ?_⟩
  rcases hrun : (Cache.mirror.answer .empty .default r
    ((turns (fun _ => Cache.mirror) .default ts).run (.empty .all)).2).1
      with (_ | e) | _ | _ | _ | _
  all_goals rw [hrun] at hanswer
  all_goals try cases hanswer
  exact ⟨e, rfl, Option.some.inj hanswer,
    (frozen_until_forgotten .default hts).2.1 .empty (.ofString "/d") "/d" e hkey hrun⟩

end Mirror

end SnapStore
