import SnapStore.Proofs.Session.Directories

/-!
# Aggregates and where a path lies

The aggregate of a path is made of the names at and below it, if not all of their paths count. So a
directory that is copied elsewhere under the same name keeps its aggregate
(`SnapStore.Session.snapshotAll_relocated`), in order or not, and if no names count either, the copy
may have another name. Modification times never count, but the one of the path itself must have a
date.
-/

namespace SnapStore

/-! ### What is left of a root -/

namespace Strategy

variable {n : Normalization}

theorem normalized_singleton (how : Comparison) (e : Entry) :
    normalized ⟨how, n⟩ [e] = (pair? n e).toList := by
  change [e].filterMap (pair? n) = _
  rw [List.filterMap_cons]
  cases pair? n e <;> rfl

/-- What is left of a root is a matter of name and content, and of the content alone if nothing of
paths counts. -/
theorem pair?_root_congr (hn : n ≠ .absolute) {e e' : Entry}
    (hroot : Normalization.relative.apply e = some e.name)
    (hroot' : Normalization.relative.apply e' = some e'.name)
    (hname : n ≠ .ignored → e.name = e'.name) (hcontent : e.content = e'.content) :
    pair? n e = pair? n e' := by
  have happly : n.apply e = n.apply e' := by
    cases n with
    | absolute => exact absurd rfl hn
    | relative => rw [hroot, hroot', hname nofun]
    | nameOnly => exact congrArg some (hname nofun)
    | ignored => cases e <;> cases e' <;> first | rfl | cases hcontent
  rw [pair?, pair?, happly, hcontent]

end Strategy

namespace Session

open Strategy

variable {w w' : World} {s s' : Session} {p q : String}

/-- **The same stands at two paths**, each in the world of a session: nothing, files with the same
content, or directories with trees that have the same marks. -/
inductive StandsAlike (s s' : Session) (p q : String) : Prop
  /-- Nothing. -/
  | nothing (hp : s.world.find true (.ofString p) = .error .notFound)
    (hq : s'.world.find true (.ofString q) = .error .notFound) : StandsAlike s s' p q
  /-- Files with the same content, whenever they were changed. -/
  | file {content : Bytes} {modified modified' : Timestamp}
    (hp : s.world.find true (.ofString p) = .ok (.file content modified))
    (hq : s'.world.find true (.ofString q) = .ok (.file content modified')) : StandsAlike s s' p q
  /-- Directories whose trees list the same relative paths, of the same kinds, with the same
  digests. -/
  | directory {modified modified' : Timestamp} {t t' : TreeSnapshot}
    (hp : s.world.find true (.ofString p) = .ok (.directory modified))
    (hq : s'.world.find true (.ofString q) = .ok (.directory modified'))
    (ht : (snapshotTree (.all (.ofString p)) s).1 = .ok t)
    (ht' : (snapshotTree (.all (.ofString q)) s').1 = .ok t')
    (hmarks : ∀ m, m ∈ t.entries.map Entry.mark ↔ m ∈ t'.entries.map Entry.mark) :
    StandsAlike s s' p q

variable {how : Comparison} {n : Normalization}

/-- Where the same stands, the same is left. -/
theorem StandsAlike.exists_normalized (h : StandsAlike s s' p q) {st st' : Strategy}
    (hw : w.IsWellNamed) (hw' : w'.IsWellNamed) (hs : s.IsStill w (HoldsRight w st))
    (hs' : s'.IsStill w' (HoldsRight w' st'))
    (hp : (Path.ofString p).canonical w.workingDirectory = .ok p)
    (hq : (Path.ofString q).canonical w'.workingDirectory = .ok q) (hn : n ≠ .absolute)
    (hname : n ≠ .ignored → (Path.ofString p).finalName = (Path.ofString q).finalName) :
    ∃ es es', (w.bareHost.expandElement (.path (.ofString p))).run = w.ifDated (.ofString p) es ∧
      (w'.bareHost.expandElement (.path (.ofString q))).run = w'.ifDated (.ofString q) es' ∧
      normalized ⟨how, n⟩ es = normalized ⟨how, n⟩ es' := by
  cases h with
  | nothing hnode hnode' =>
    rw [hs.world] at hnode
    rw [hs'.world] at hnode'
    refine ⟨_, _, World.expandElement_of_nothing hp hnode, World.expandElement_of_nothing hq hnode',
      ?_⟩
    rw [normalized_singleton, normalized_singleton]
    exact congrArg Option.toList (pair?_root_congr hn rfl rfl hname rfl)
  | file hnode hnode' =>
    rw [hs.world] at hnode
    rw [hs'.world] at hnode'
    obtain ⟨r, hr, hes⟩ := World.exists_expandElement_of_file hp hnode
    obtain ⟨r', hr', hes'⟩ := World.exists_expandElement_of_file hq hnode'
    refine ⟨_, _, hes, hes', ?_⟩
    have hnames : n ≠ .ignored → r.name = r'.name := fun hi => by rw [hr, hr', hname hi]
    rw [normalized_singleton, normalized_singleton]
    exact congrArg Option.toList (pair?_root_congr hn rfl rfl hnames rfl)
  | directory hnode hnode' ht ht' hmarks =>
    rw [hs.world] at hnode
    rw [hs'.world] at hnode'
    have hbare := bareHost_snapshotTree_of_snapshotTree hp hs ht
    have hbare' := bareHost_snapshotTree_of_snapshotTree hq hs' ht'
    obtain ⟨r, hr, hes⟩ := World.exists_expandElement_of_directory hp hbare hnode
    obtain ⟨r', hr', hes'⟩ := World.exists_expandElement_of_directory hq hbare' hnode'
    refine ⟨_, _, hes, hes', ?_⟩
    have hbelow := World.areBelow_of_snapshotTree hp hbare hnode hw
    have hbelow' := World.areBelow_of_snapshotTree hq hbare' hnode' hw'
    have hnames : n ≠ .ignored → r.name = r'.name := fun hi => by rw [hr, hr', hname hi]
    rw [normalized_cons_of_areBelow hp hbelow hn rfl, normalized_cons_of_areBelow hq hbelow' hn rfl,
      hbelow.map_mark_eq hbelow' hmarks]
    have hroot : pair? n (.directory p r true) = pair? n (.directory q r' true) :=
      pair?_root_congr hn rfl rfl hnames rfl
    rw [hroot]

/-- **An aggregate does not tell where a path lies**, unless all of it counts: what stands alike at
two paths that end in the same name has the same aggregate, in whatever worlds they are, and it has
one if the time of the path itself has a date; otherwise there is a panic. If nothing of paths
counts, the names may differ as well. -/
theorem snapshotAll_relocated (hw : w.IsWellNamed) (hw' : w'.IsWellNamed)
    (hs : s.IsStill w (HoldsRight w ⟨how, n⟩)) (hs' : s'.IsStill w' (HoldsRight w' ⟨how, n⟩))
    (hp : (Path.ofString p).canonical w.workingDirectory = .ok p)
    (hq : (Path.ofString q).canonical w'.workingDirectory = .ok q) (hn : n ≠ .absolute)
    (hname : n ≠ .ignored → (Path.ofString p).fileName? = (Path.ofString q).fileName?)
    (h : StandsAlike s s' p q) :
    ∃ a, (snapshotAll ⟨how, n⟩ (.ofString p) s).1 = w.ifDated (.ofString p) a ∧
      (snapshotAll ⟨how, n⟩ (.ofString q) s').1 = w'.ifDated (.ofString q) a := by
  have hfinal : n ≠ .ignored → (Path.ofString p).finalName = (Path.ofString q).finalName :=
    fun hi => by rw [Path.finalName, Path.finalName, hname hi]
  obtain ⟨es, es', hes, hes', hnormalized⟩ := h.exists_normalized hw hw' hs hs' hp hq hn hfinal
  refine ⟨_, snapshotAll_of_expandElement hp hs hes, ?_⟩
  rw [snapshotAll_of_expandElement hq hs' hes']
  rw [combine, combine, pairs_congr hnormalized]

/-- A directory and a copy of it, in the order of their entries, and a file and a copy that was
written later. -/
theorem snapshotAll_relocated_of_copies :
    let w := ((((World.empty.apply (.makeDirectory (.ofString "/x/d/e/g"))).world.apply
      (.makeDirectory (.ofString "/y/d/e/g"))).world.apply
      (.write (.ofString "/x/f") [1] .epoch)).world.apply (.write (.ofString "/y/f") [1] ⟨1⟩)).world
    let s := startOn w .all false false
    w.IsWellNamed ∧ s.IsStill w (HoldsRight w ⟨.ordered, .relative⟩) ∧
      StandsAlike s s "/x/d" "/y/d" ∧ StandsAlike s s "/x/f" "/y/f" ∧
      (∀ c ∈ ["/x/d", "/y/d", "/x/f", "/y/f"], w.IsDated (.ofString c)) ∧
      (∃ a, (snapshotAll ⟨.ordered, .relative⟩ (.ofString "/x/d") s).1 = .ok a ∧
        (snapshotAll ⟨.ordered, .relative⟩ (.ofString "/y/d") s).1 = .ok a) ∧
      ∃ a, (snapshotAll ⟨.ordered, .relative⟩ (.ofString "/x/f") s).1 = .ok a ∧
        (snapshotAll ⟨.ordered, .relative⟩ (.ofString "/y/f") s).1 = .ok a := by
  intro w s
  have hw : w.IsWellNamed := (((World.isWellNamed_empty.apply _).apply _).apply _).apply _
  have hs : s.IsStill w (HoldsRight w ⟨.ordered, .relative⟩) :=
    isStill_startOn (holdsRight_empty _ _ _) _ _
  have hmarks : ∀ c ∈ ["/x/d", "/y/d"],
      (snapshotTree (.all (.ofString c)) s).1.toOption.map (·.entries.map Entry.mark) =
        some [(some ⟨false, ["e"]⟩, .directory), (some ⟨false, ["e", "g"]⟩, .directory)] := by
    decide +kernel
  obtain ⟨t, ht, hleft⟩ := Option.map_eq_some_iff.1 (hmarks "/x/d" (by simp))
  obtain ⟨t', ht', hleft'⟩ := Option.map_eq_some_iff.1 (hmarks "/y/d" (by simp))
  have hdirectory : ∀ c ∈ ["/x/d", "/y/d"],
      w.find true (.ofString c) = .ok (.directory .epoch) := by
    decide +kernel
  have hdirectories : StandsAlike s s "/x/d" "/y/d" :=
    .directory (hdirectory "/x/d" (by simp)) (hdirectory "/y/d" (by simp)) (eq_ok_of_toOption ht)
      (eq_ok_of_toOption ht') fun m => by rw [hleft, hleft']
  have hfile : w.find true (.ofString "/x/f") = .ok (.file [1] .epoch) ∧
      w.find true (.ofString "/y/f") = .ok (.file [1] ⟨1⟩) := by
    decide +kernel
  have hfiles : StandsAlike s s "/x/f" "/y/f" := .file hfile.1 hfile.2
  have hdated : ∀ c ∈ ["/x/d", "/y/d", "/x/f", "/y/f"], w.IsDated (.ofString c) := by
    decide +kernel
  refine ⟨hw, hs, hdirectories, hfiles, hdated, ?_, ?_⟩
  · obtain ⟨a, ha, ha'⟩ := snapshotAll_relocated (p := "/x/d") (q := "/y/d") hw hw hs hs rfl rfl
      nofun (fun _ => rfl) hdirectories
    rw [World.ifDated_of_isDated (hdated _ (by simp))] at ha ha'
    exact ⟨a, ha, ha'⟩
  · obtain ⟨a, ha, ha'⟩ := snapshotAll_relocated (p := "/x/f") (q := "/y/f") hw hw hs hs rfl rfl
      nofun (fun _ => rfl) hfiles
    rw [World.ifDated_of_isDated (hdated _ (by simp))] at ha ha'
    exact ⟨a, ha, ha'⟩

/-- **Not everything that was changed at another time has the same aggregate**: of two files with
the same content under the same name, one was changed at a time without a date, and it has none. -/
theorem snapshotAll_not_relocated :
    let modified : Timestamp := ⟨10000000000000000000000⟩
    let w := ((World.empty.apply (.write (.ofString "/x/f") [1] .epoch)).world.apply
      (.write (.ofString "/y/f") [1] modified)).world
    let s := startOn w .all false false
    w.IsWellNamed ∧ StandsAlike s s "/x/f" "/y/f" ∧
      (∃ a, (snapshotAll ⟨.ordered, .relative⟩ (.ofString "/x/f") s).1 = .ok a) ∧
      (snapshotAll ⟨.ordered, .relative⟩ (.ofString "/y/f") s).1 = .error .panic := by
  intro modified w s
  have hs : s.IsStill w (HoldsRight w ⟨.ordered, .relative⟩) :=
    isStill_startOn (holdsRight_empty _ _ _) _ _
  have hfile : w.find true (.ofString "/x/f") = .ok (.file [1] .epoch) ∧
      w.find true (.ofString "/y/f") = .ok (.file [1] modified) := by
    decide +kernel
  have hp : (Path.ofString "/x/f").canonical w.workingDirectory = .ok "/x/f" := rfl
  have hq : (Path.ofString "/y/f").canonical w.workingDirectory = .ok "/y/f" := rfl
  obtain ⟨r, -, hes⟩ := World.exists_expandElement_of_file hp hfile.1
  obtain ⟨r', -, hes'⟩ := World.exists_expandElement_of_file hq hfile.2
  have hdated : w.IsDated (.ofString "/x/f") := (World.isDated_iff_of_find hfile.1).2 (by decide)
  have hundated : ¬ w.IsDated (.ofString "/y/f") :=
    mt (World.isDated_iff_of_find hfile.2).1 (by decide)
  refine ⟨(World.isWellNamed_empty.apply _).apply _, .file hfile.1 hfile.2, ?_, ?_⟩
  · exact ⟨_, (snapshotAll_of_expandElement hp hs hes).trans (World.ifDated_of_isDated hdated _)⟩
  · exact (snapshotAll_of_expandElement hq hs hes').trans (if_neg hundated)

end Session

end SnapStore
