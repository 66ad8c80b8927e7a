import SnapStore.Proofs.Store.Protocol
import SnapStore.Proofs.Store.Transparency
import SnapStore.Proofs.Store.Walk

/-!
# Trees that are kept

A cache that keeps everything gives up a tree only if it is told to forget it. Once a tree is kept
under some key (`SnapStore.Cache.KeepsTree`), it is the answer to everybody who asks for that key,
and stays so whatever is asked for in between (`SnapStore.Cache.KeepsTree.answers`). Nothing is
supposed here of how trees are asked for. The other values that are kept may come from all sorts of
spellings, so nothing is said of what else is answered: the computations that go on meanwhile are
only known to leave the tree where it is (`SnapStore.Cache.KeepsTree.Stable`).
-/

namespace SnapStore

/-! ### Asking for a tree -/

namespace Mirror

variable {σ : Type} {M : Mirror σ} {w : World}

/-- The answer to a request for the whole tree below a path. -/
def tree (M : Mirror σ) (w : World) (p : Path) : StateM σ (Except Failure TreeSnapshot) :=
  ((M.host w).snapshotTree (.all p)).run

/-- The tree that is walked as its root is spelled. -/
def walked (M : Mirror σ) (w : World) (p : Path) (c : String) :
    ExceptT Failure (StateM σ) TreeSnapshot :=
  (M.host w).walk (some c) ((DirectoryTree.all p).visit (M.host w).calls.lift)

/-- Finding the key leaves the mirror alone. -/
theorem run_key (p : Path) (s : σ) :
    ((M.host w).key p).run s = (w.keyOf p, s) := by
  obtain ⟨hvalue, hstate⟩ := Relator.key (alikeHosts_host M w (· = s)) p s rfl
  rw [Host.bareHost_key] at hvalue
  exact Prod.ext hvalue hstate

/-- So does walking, which gives the tree of the course. -/
theorem run_walked (p : Path) (c : String) (s : σ) :
    (M.walked w p c).run s = (w.treeOf (some c) (w.course (.all p)), s) := by
  have halike := alikeHosts_host M w (· = s)
  obtain ⟨hvalue, hstate⟩ := Relator.walk halike (some c)
    (Relator.visit_directoryTree (Relator.calls_lift halike.calls) (.all p)) s rfl
  rw [World.bareHost_walk] at hvalue
  exact Prod.ext hvalue hstate

theorem run_tree {p : Path} {c : String} (hp : p.canonical w.workingDirectory = .ok c) (s : σ) :
    M.tree w p s = ((M.host w).cached (M.host w).trees .tree c (M.walked w p c)).run s := by
  have hkey := run_key (M := M) (w := w) p s
  rw [World.keyOf_eq_ok_iff.2 hp] at hkey
  exact run_bind_of_ok hkey

end Mirror

/-! ### What is kept -/

/-- A cache that keeps everything, and has this tree under this key. -/
structure Cache.KeepsTree (key : String) (t : TreeSnapshot) (c : Cache) : Prop where
  /-- Everything is kept. -/
  retention : c.retention = .all
  /-- The tree. -/
  found : c.trees.find? key = some t

/-- A request to forget what is kept under a key. -/
def Request.Forgets (key : String) : Request → Prop
  | .invalidate other => other = key
  | .invalidateAll => True
  | _ => False

namespace Cache.KeepsTree

variable {c key : String} {t : TreeSnapshot} {s : Cache} {w : World} {st : Strategy} {α β : Type}

/-- A tree that is found stays. -/
theorem lookUpTree (h : s.KeepsTree c t) (key : String) : (s.lookUpTree key).2.KeepsTree c t :=
  ⟨h.retention, (Shelf.find?_use _ _ _ _).trans h.found⟩

/-- A tree for another key does not take its place. -/
theorem putTree (h : s.KeepsTree c t) {t' : TreeSnapshot} (hbase : t'.base = some key)
    (hne : key ≠ c) : (s.putTree t').KeepsTree c t := by
  unfold Cache.putTree
  rw [hbase]
  refine ⟨h.retention, ?_⟩
  dsimp only
  rw [h.retention, Shelf.find?_store_all, if_neg hne.symm, h.found]

/-- Computations that leave the tree where it is. -/
def Stable (c : String) (t : TreeSnapshot) (x : ExceptT Failure (StateM Cache) α) : Prop :=
  ∀ s : Cache, s.KeepsTree c t → (x.run s).2.KeepsTree c t

theorem stable_of_rel {x : ExceptT Failure (StateM Cache) α} {y : ExceptT Failure Id α}
    (h : ((holding (KeepsTree c t)).except Failure).Rel x y) : Stable c t x :=
  preserves_of_rel h

theorem stable_pure (a : α) : Stable c t (pure a) := preserves_pure a

theorem stable_bind {x : ExceptT Failure (StateM Cache) α}
    {f : α → ExceptT Failure (StateM Cache) β}
    (hx : Stable c t x) (hf : ∀ a, Stable c t (f a)) : Stable c t (x >>= f) :=
  Preserves.bind hx hf

/-- The tree is the answer to whoever asks for its key. -/
theorem tree_eq (hs : s.KeepsTree c t) {q : Path} (hq : q.canonical w.workingDirectory = .ok c) :
    (mirror.tree w q s).1 = .ok t := by
  have hfind : (mirror.host w).trees.find? c s = (some t, (s.lookUpTree c).2) :=
    Prod.ext hs.found rfl
  rw [Mirror.run_tree hq, Host.run_cached fun _ => rfl, hfind]

/-! ### Requests that leave a tree where it is -/

theorem stable_key (p : Path) : Stable c t ((mirror.host w).key p) :=
  stable_of_rel (Relator.key (Mirror.alikeHosts_host mirror w _) p)

theorem stable_walk (base : Option String) {source : TreeSource (Collecting (StateM Cache))}
    {source' : TreeSource (Collecting Id)}
    (h : ((holding (KeepsTree c t)).state (List Entry)).AlikeSources source source') :
    Stable c t ((mirror.host w).walk base source) :=
  stable_of_rel (Relator.walk (Mirror.alikeHosts_host mirror w _) base h)

theorem stable_snapshotSelf (p : Path) : Stable c t ((mirror.host w).snapshotSelf p) := by
  refine stable_bind (stable_key p) fun key => ?_
  refine preserves_cached (fun _ => rfl) (fun s hs => ⟨hs.retention, hs.found⟩) ?_
    fun e s s' _ hs => ⟨hs.retention, hs.found⟩
  exact stable_of_rel (Relator.observe (Mirror.alikeHosts_host mirror w _) key)

theorem stable_snapshotTree (tree : DirectoryTree) :
    Stable c t ((mirror.host w).snapshotTree tree) := by
  have halike := Mirror.alikeHosts_host mirror w (KeepsTree c t)
  have hwalk : ∀ key, Stable c t ((mirror.host w).walk (some key)
      (tree.visit (mirror.host w).calls.lift)) := fun key =>
    stable_walk (some key) (Relator.visit_directoryTree (Relator.calls_lift halike.calls) tree)
  refine stable_bind (stable_key tree.root) fun key => ?_
  by_cases hfiltered : tree.isFiltered = true
  · rw [if_pos hfiltered]
    exact hwalk key
  · rw [if_neg hfiltered]
    by_cases hkey : key = c
    · -- The tree is found, and nothing is computed.
      subst hkey
      intro s hs
      have hfind : (mirror.host w).trees.find? key s = (some t, (s.lookUpTree key).2) :=
        Prod.ext hs.found rfl
      rw [Host.run_cached fun _ => rfl, hfind]
      exact hs.lookUpTree key
    · refine preserves_cached (fun _ => rfl) (fun s hs => hs.lookUpTree key) (hwalk key) ?_
      -- A tree that is made for another key has that key as its base.
      intro t' s s' hrun hs
      have hall : tree = .all tree.root :=
        DirectoryTree.eq_all_of_not_isFiltered (by simpa using hfiltered)
      rw [hall] at hrun
      have hvalue := (Mirror.run_walked (M := mirror) (w := w) tree.root key s).symm.trans hrun
      obtain ⟨-, hbase, -⟩ := w.of_treeOf (Prod.ext_iff.1 hvalue).1
      exact hs.putTree hbase hkey

theorem stable_expandElement (root : Root) :
    Stable c t ((mirror.host w).expandElement root.element) := by
  cases root with
  | path p =>
    exact preserves_expandElement_path (stable_snapshotSelf p) (stable_snapshotTree (.all p))
  | directory tree => exact stable_bind (stable_snapshotTree tree) fun found => stable_pure _
  | source source =>
    exact stable_bind (stable_walk none (source.alike _)) fun found => stable_pure _

theorem stable_expand (roots : List Root) :
    Stable c t ((mirror.host w).expand (roots.map Root.element)) := by
  refine preserves_expand (fun _ _ h => h) fun e he => ?_
  obtain ⟨root, -, rfl⟩ := List.mem_map.1 he
  exact stable_expandElement root

theorem stable_snapshotCollection (roots : List Root) :
    Stable c t ((mirror.host w).snapshotCollection st (roots.map Root.element)) :=
  stable_bind (stable_expand roots) fun _ => stable_pure _

theorem stable_snapshotAll (p : Path) : Stable c t ((mirror.host w).snapshotAll st p) := by
  refine stable_bind (stable_key p) fun key => ?_
  exact preserves_cached (fun _ => rfl) (fun s hs => ⟨hs.retention, hs.found⟩)
    (stable_snapshotCollection [.path (.ofString key)]) fun a s s' _ hs => ⟨hs.retention, hs.found⟩

/-- **No request makes a cache that keeps everything give up a tree**, except to forget it. -/
theorem answer (hs : s.KeepsTree c t) {r : Request} (hr : ¬ r.Forgets c) :
    (mirror.answer w st r s).2.KeepsTree c t := by
  cases r with
  | entry p => exact stable_snapshotSelf p s hs
  | aggregate p => exact stable_snapshotAll p s hs
  | tree tree => exact stable_snapshotTree tree s hs
  | source source => exact stable_walk none (source.alike _) s hs
  | expansion roots => exact stable_expand roots s hs
  | collection st roots => exact stable_snapshotCollection roots s hs
  | invalidate key => exact ⟨hs.retention, (Shelf.find?_erase_of_ne (Ne.symm hr) _).trans hs.found⟩
  | invalidateAll => exact absurd trivial hr

theorem answers (hs : s.KeepsTree c t) {rs : List Request} (hrs : ∀ r ∈ rs, ¬ r.Forgets c) :
    (mirror.answers w st rs s).2.KeepsTree c t := by
  induction rs generalizing s with
  | nil => exact hs
  | cons r rs ih =>
    have hfirst : (mirror.answer w st r s).2.KeepsTree c t := hs.answer (hrs r (by simp))
    have hrest := ih hfirst fun r' hr' => hrs r' (List.mem_cons_of_mem _ hr')
    unfold Mirror.answers at hrest ⊢
    rw [List.mapM_cons]
    exact hrest

end Cache.KeepsTree

end SnapStore
