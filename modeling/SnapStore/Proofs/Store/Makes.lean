import SnapStore.Proofs.Store.Alike
import SnapStore.Proofs.Store.Protocol
import SnapStore.Proofs.Tree.Tells

/-!
# What stores make

The values that a store gives out were made by itself or were found in what it keeps. So whatever is
true of all that it keeps and of all that it makes is true of all that it gives out. A computation
`SnapStore.Makes` values of some kind if it gives nothing else and preserves the invariant that
nothing else is kept.

Here it is said of entries and trees without `.` and `..` in their relative paths: a host that finds
no others (`SnapStore.Host.KeepsUndotted`) makes no others, whatever is asked of it.

What comes of a walk depends on the visitor that collects the entries. A source that tells only of
undotted relative paths does not see whether that visitor would take others, and one that refuses
them collects undotted entries from any source (`SnapStore.collecting`).
-/

namespace SnapStore

variable {σ α β : Type} {Inv : σ → Prop}

/-! ### Making values -/

/-- **Computations that give nothing but values with a property** and preserve an invariant. -/
def Makes (Inv : σ → Prop) (P : α → Prop) (x : ExceptT Failure (StateM σ) α) : Prop :=
  ∀ s, Inv s → (∀ a, (x.run s).1 = .ok a → P a) ∧ Inv (x.run s).2

section Makes

variable {P : α → Prop} {Q : β → Prop}

theorem makes_pure {a : α} (h : P a) : Makes Inv P (pure a) := by
  refine fun s hs => ⟨?_, hs⟩
  rintro _ ⟨⟩
  exact h

theorem makes_throw (e : Failure) : Makes Inv P (throw e) := fun _ hs => ⟨nofun, hs⟩

/-- A value that is computed aside. -/
theorem makes_liftError {x : Except Error α} (h : ∀ a, x = .ok a → P a) : Makes Inv P (liftM x) :=
  fun _ hs => ⟨fun a ha => h a (Failure.mapError_eq_ok_iff.1 ha), hs⟩

theorem Preserves.makes {x : ExceptT Failure (StateM σ) α} (hx : Preserves Inv x) :
    Makes Inv (fun _ => True) x := fun s hs => ⟨fun _ _ => trivial, hx s hs⟩

theorem Makes.bind {x : ExceptT Failure (StateM σ) α} {f : α → ExceptT Failure (StateM σ) β}
    (hx : Makes Inv P x) (hf : ∀ a, P a → Makes Inv Q (f a)) : Makes Inv Q (x >>= f) := by
  intro s hs
  obtain ⟨hvalue, hs'⟩ := hx s hs
  rcases hrun : x.run s with ⟨e | a, s'⟩
  all_goals rw [hrun] at hvalue hs'
  · rw [run_bind_of_error hrun]
    exact ⟨nofun, hs'⟩
  · rw [run_bind_of_ok hrun]
    exact hf a (hvalue a rfl) s' hs'

/-- **What is kept and made is given out.** -/
theorem makes_cached {h : Host (StateM σ)} {k : Keeper (StateM σ) α} {production : Production}
    {key : String} {compute : ExceptT Failure (StateM σ) α}
    (hexclusively : ∀ x : StateM σ (Except Failure α), h.exclusively production key x = x)
    (hfind : ∀ s, Inv s → (∀ a, (k.find? key s).1 = some a → P a) ∧ Inv (k.find? key s).2)
    (hcompute : Makes Inv P compute)
    (hstore : ∀ a s, P a → Inv s → Inv (k.store key a s).2) :
    Makes Inv P (h.cached k production key compute) := by
  intro s hs
  obtain ⟨hfound, hs₁⟩ := hfind s hs
  rw [Host.run_cached hexclusively]
  rcases hfirst : k.find? key s with ⟨_ | a, s₁⟩
  all_goals rw [hfirst] at hfound hs₁
  · obtain ⟨hfound', hs₂⟩ := hfind s₁ hs₁
    dsimp only
    rcases hsecond : k.find? key s₁ with ⟨_ | a, s₂⟩
    all_goals rw [hsecond] at hfound' hs₂
    · obtain ⟨hmade, hs₃⟩ := hcompute s₂ hs₂
      dsimp only
      rcases hrun : compute.run s₂ with ⟨e | a, s₃⟩
      all_goals rw [hrun] at hmade hs₃
      · exact ⟨nofun, hs₃⟩
      · exact makes_pure (hmade a rfl) _ (hstore a s₃ (hmade a rfl) hs₃)
    · exact makes_pure (hfound' a rfl) _ hs₂
  · exact makes_pure (hfound a rfl) _ hs₁

end Makes

/-! ### Collecting -/

/-- Computations that preserve an invariant. -/
def preserving (Inv : σ → Prop) : Relator (StateM σ) (StateM σ) where
  Rel x _ := ∀ s, Inv s → Inv (x s).2
  pure _ _ hs := hs
  map _ _ _ h := h
  bind hx hf s hs := hf _ _ (hx s hs)

/-- Computations that preserve an invariant and collect nothing but undotted entries. -/
def collecting (Inv : σ → Prop) : Relator (Collecting (StateM σ)) (Collecting (StateM σ)) where
  Rel x _ := ∀ seen s, (∀ e ∈ seen, Entry.IsUndotted e) → Inv s →
    (∀ e ∈ (x seen s).1.2, Entry.IsUndotted e) ∧ Inv (x seen s).2
  pure _ _ _ hseen hs := ⟨hseen, hs⟩
  map _ _ _ h := h
  bind hx hf seen s hseen hs := hf _ _ _ (hx seen s hseen hs).1 (hx seen s hseen hs).2

/-- The visitor that is told of undotted relative paths only. -/
def Visitor.undotted {m : Type → Type} [Monad m] (v : Visitor m) : Visitor m where
  directory d := if d.relative.IsUndotted then v.directory d else pure ()
  file d := if d.relative.IsUndotted then v.file d else pure ()

theorem Visitor.agreeOn_undotted {m : Type → Type} [Monad m] (v : Visitor m) :
    AgreeOn RelativePath.IsUndotted v v.undotted :=
  fun _ hd => ⟨(if_pos hd).symm, (if_pos hd).symm⟩

section Collecting

variable {h : Host (StateM σ)}

theorem collecting_lift {x y : StateM σ α} (hx : (preserving Inv).Rel x y) :
    (collecting Inv).Rel (StateT.lift x) (StateT.lift y) :=
  fun _ s hseen hs => ⟨hseen, hx s hs⟩

theorem collecting_calls {c d : Calls (StateM σ)} (hc : (preserving Inv).AlikeCalls c d) :
    (collecting Inv).AlikeCalls c.lift d.lift where
  workingDirectory := collecting_lift hc.workingDirectory
  stat p := collecting_lift (hc.stat p)
  linkStat p := collecting_lift (hc.linkStat p)
  list p := collecting_lift (hc.list p)
  identify p := collecting_lift (hc.identify p)
  openReader p := collecting_lift (hc.openReader p)

theorem collecting_collect {e : Entry} (he : e.IsUndotted) :
    ((collecting Inv).except Failure).Rel
      (Host.collect e : ExceptT Failure (Collecting (StateM σ)) Unit)
      (Host.collect e) :=
  Relator.lift fun _ _ hseen hs => ⟨List.forall_mem_cons.2 ⟨he, hseen⟩, hs⟩

variable (hh : (preserving Inv).AlikeHosts h h)

include hh

theorem collecting_hasher : (collecting Inv).AlikeHashers h.hasher.lift h.hasher.lift where
  content what r := collecting_lift (hh.hasher.content what r)
  file p seen := collecting_lift (hh.hasher.file p seen)

theorem collecting_key (p : Path) :
    ((collecting Inv).except Failure).Rel (ExceptT.mk (StateT.lift (h.key p).run))
      (ExceptT.mk (StateT.lift (h.key p).run)) :=
  collecting_lift (y := (h.key p).run) (Relator.key hh p)

/-- **A visitor that refuses all others collects undotted entries.** -/
theorem collecting_undotted :
    (collecting Inv).AlikeVisitors h.collector.undotted h.collector.undotted where
  directory d e hd := by
    change ((collecting Inv).except Failure).Rel
      (if _ then _ >>= _ else _) (if _ then _ >>= _ else _)
    rw [← hd.path, ← hd.relative]
    split_ifs with hundotted
    · refine ((collecting Inv).except Failure).bind (collecting_key hh d.path) fun path => ?_
      refine collecting_collect ?_
      rintro _ ⟨⟩
      exact hundotted
    · exact ((collecting Inv).except Failure).pure ()
  file d e hd := by
    change ((collecting Inv).except Failure).Rel
      (if _ then _ >>= _ else _) (if _ then _ >>= _ else _)
    rw [← hd.path, ← hd.relative, ← hd.modified]
    split_ifs with hundotted
    · refine ((collecting Inv).except Failure).bind (collecting_key hh d.path) fun path => ?_
      refine ((collecting Inv).except Failure).bind
        (Relator.lift (hd.digest _ _ (collecting_hasher hh))) fun hashed => ?_
      rcases hashed with cause | digest
      · cases cause <;> first | exact Relator.throw _ | exact collecting_collect nofun
      · refine collecting_collect ?_
        rintro _ ⟨⟩
        exact hundotted
    · exact ((collecting Inv).except Failure).pure ()

/-- **A walk collects undotted entries** if its source tells of nothing else. -/
theorem makes_walk (base : Option String) {source : TreeSource (Collecting (StateM σ))}
    (htells : TellsOnly RelativePath.IsUndotted source)
    (halike : (collecting Inv).AlikeSources source source) :
    Makes Inv TreeSnapshot.IsUndotted (h.walk base source) := by
  have hrefusing : source h.collector = source h.collector.undotted :=
    htells _ _ h.collector.agreeOn_undotted
  intro s hs
  obtain ⟨hentries, hs'⟩ : (∀ e ∈ ((source h.collector).run.run [] s).1.2, e.IsUndotted) ∧
      Inv ((source h.collector).run.run [] s).2 := by
    rw [hrefusing]
    exact halike _ _ (collecting_undotted hh) [] s (List.forall_mem_nil _) hs
  have hrun : (ExceptT.lift ((source h.collector).run.run []) :
      ExceptT Failure (StateM σ) _).run s =
      (.ok ((source h.collector).run.run [] s).1, ((source h.collector).run.run [] s).2) := rfl
  rw [Host.walk, run_bind_of_ok hrun]
  rcases hvisited : (source h.collector).run.run [] s with ⟨⟨e | u, entries⟩, s'⟩
  all_goals rw [hvisited] at hentries hs'
  · exact ⟨nofun, hs'⟩
  · exact makes_pure (fun e he => hentries e (List.mem_reverse.1 he)) s' hs'

/-- **An entry that is observed is undotted.** -/
theorem makes_observe (key : String) : Makes Inv Entry.IsUndotted (h.observe key) := by
  have hstat : Preserves Inv (ExceptT.mk (h.stat (.ofString key))) := hh.stat _
  refine hstat.makes.bind fun seen _ => ?_
  cases seen.fileType with
  | missing => exact makes_pure nofun
  | directory =>
    refine (makes_liftError fun _ => RelativePath.isUndotted_of_ofPath).bind fun r hr => ?_
    refine makes_pure ?_
    rintro _ ⟨⟩
    exact hr
  | regularFile =>
    have hfile : Preserves Inv (ExceptT.lift (h.hasher.file (.ofString key) seen)) :=
      hh.hasher.file _ seen
    refine hfile.makes.bind fun hashed _ => ?_
    rcases hashed with cause | digest
    · cases cause <;> first | exact makes_throw _ | exact makes_pure nofun
    · refine (makes_liftError fun _ => RelativePath.isUndotted_of_ofPath).bind fun r hr => ?_
      refine makes_pure ?_
      rintro _ ⟨⟩
      exact hr
  | other => exact makes_throw _

end Collecting

/-! ### Hosts that keep undotted values -/

/-- A host that finds only undotted entries and trees as long as it stores only such. -/
structure Host.KeepsUndotted (Inv : σ → Prop) (h : Host (StateM σ)) : Prop where
  /-- Calls, looks and digests preserve the invariant. -/
  alike : (preserving Inv).AlikeHosts h h
  /-- Critical sections make no difference. -/
  exclusively : ∀ {α : Type} production key (x : StateM σ α), h.exclusively production key x = x
  /-- Giving up keys makes none that matters. -/
  keeping : ∀ {α : Type} (keys : α → List String) (x : StateM σ α) (s : σ),
    (h.keeping keys x s).1 = (x s).1 ∧ (Inv (x s).2 → Inv (h.keeping keys x s).2)
  /-- Entries that are found. -/
  findEntry : ∀ key s, Inv s →
    (∀ e, (h.entries.find? key s).1 = some e → e.IsUndotted) ∧ Inv (h.entries.find? key s).2
  /-- Entries that are stored. -/
  storeEntry : ∀ key e s, Entry.IsUndotted e → Inv s → Inv (h.entries.store key e s).2
  /-- Trees that are found. -/
  findTree : ∀ key s, Inv s →
    (∀ t, (h.trees.find? key s).1 = some t → t.IsUndotted) ∧ Inv (h.trees.find? key s).2
  /-- Trees that are stored. -/
  storeTree : ∀ key t s, TreeSnapshot.IsUndotted t → Inv s → Inv (h.trees.store key t s).2

namespace Host.KeepsUndotted

variable {h : Host (StateM σ)} (hh : h.KeepsUndotted Inv)

include hh

theorem makes_snapshotSelf (p : Path) : Makes Inv Entry.IsUndotted (h.snapshotSelf p) := by
  have hkey : Preserves Inv (h.key p) := Relator.key hh.alike p
  exact hkey.makes.bind fun key _ =>
    makes_cached (hh.exclusively _ _) (hh.findEntry key) (makes_observe hh.alike key)
      (hh.storeEntry key)

theorem makes_snapshotTree (t : DirectoryTree) :
    Makes Inv TreeSnapshot.IsUndotted (h.snapshotTree t) := by
  have hkey : Preserves Inv (h.key t.root) := Relator.key hh.alike t.root
  refine hkey.makes.bind fun key _ => ?_
  have hwalk : Makes Inv TreeSnapshot.IsUndotted (h.walk (some key) (t.visit h.calls.lift)) :=
    makes_walk hh.alike (some key) (t.tellsOnly _)
      (Relator.visit_directoryTree (collecting_calls hh.alike.calls) t)
  dsimp only
  split_ifs
  · exact hwalk
  · exact makes_cached (hh.exclusively _ _) (hh.findTree key) hwalk (hh.storeTree key)

theorem makes_snapshotSource {source : Source}
    (hsource : ∀ t, source = .scripted t → ∀ item ∈ t.items, item.relative.IsUndotted) :
    Makes Inv TreeSnapshot.IsUndotted (h.snapshotSource (source.visit h.calls.lift)) :=
  makes_walk hh.alike none (Source.tellsOnly _ hsource)
    (Relator.visit_source (collecting_calls hh.alike.calls) source)

/-- **Collections are made of undotted entries** if their roots are. -/
theorem makes_expand {es : List (Element (StateM σ))}
    (hes : ∀ source, .source source ∈ es →
      Makes Inv TreeSnapshot.IsUndotted (h.snapshotSource source)) :
    Makes Inv (∀ e ∈ ·, Entry.IsUndotted e) (h.expand es) := by
  induction es with
  | nil => exact makes_pure (List.forall_mem_nil _)
  | cons element es ih =>
    have helement : Makes Inv (∀ e ∈ ·, Entry.IsUndotted e) (h.expandElement element) := by
      cases element with
      | path p =>
        refine (hh.makes_snapshotSelf p).bind fun e he => ?_
        cases e with
        | directory path relative isRoot =>
          exact (hh.makes_snapshotTree _).bind fun t ht =>
            makes_pure (List.forall_mem_cons.2 ⟨he, ht⟩)
        | file path relative isRoot snapshot => exact makes_pure (List.forall_mem_singleton.2 he)
        | missing path name => exact makes_pure (List.forall_mem_singleton.2 he)
      | directory t => exact (hh.makes_snapshotTree t).bind fun t ht => makes_pure ht
      | source source => exact (hes source (by simp)).bind fun t ht => makes_pure ht
    have hfirst : Makes Inv (∀ e ∈ ·, Entry.IsUndotted e)
        (h.keepingValue (·.map Entry.path) (h.expandElement element)) := by
      intro s hs
      obtain ⟨hmade, hs'⟩ := helement s hs
      exact ⟨fun es hes => hmade es ((hh.keeping _ _ s).1.symm.trans hes), (hh.keeping _ _ s).2 hs'⟩
    refine hfirst.bind fun first hfirst => ?_
    refine (ih fun source hsource => hes source (List.mem_cons_of_mem _ hsource)).bind
      fun rest hrest => ?_
    exact makes_pure (List.forall_mem_append.2 ⟨hfirst, hrest⟩)

end Host.KeepsUndotted

end SnapStore
