import SnapStore.Proofs.Store.Still

/-!
# The protocol of the cache, step by step

What is kept under a key and what is computed for it are joined by `SnapStore.Host.cached`. Where
critical sections make no difference, `SnapStore.Host.run_cached` says what it does lookup by
lookup, and `SnapStore.Host.run_cached_cases` what may come of it: a value that was there, or a
value that was not there and is stored now, or a failure, which is not stored.

Requests are put together from such computations. What they all do to the state of their host is
followed through by invariants (`SnapStore.Preserves`): if the snapshots of single paths and of
trees preserve an invariant, so does whatever is put together from them.
-/

namespace SnapStore

variable {σ α β : Type}

namespace Host

variable {h : Host (StateM σ)} {k : Keeper (StateM σ) α} {production : Production} {key : String}
  {compute : ExceptT Failure (StateM σ) α}

/-- **The protocol of the cache step by step**, where critical sections make no difference. -/
theorem run_cached
    (hexclusively : ∀ x : StateM σ (Except Failure α), h.exclusively production key x = x) (s : σ) :
    (h.cached k production key compute).run s =
      match k.find? key s with
      | (some a, s₁) => (.ok a, s₁)
      | (none, s₁) =>
        match k.find? key s₁ with
        | (some a, s₂) => (.ok a, s₂)
        | (none, s₂) =>
          match compute.run s₂ with
          | (.ok a, s₃) => (.ok a, (k.store key a s₃).2)
          | (.error e, s₃) => (.error e, s₃) := by
  have hfind : ∀ s, (liftM (k.find? key) : ExceptT Failure (StateM σ) (Option α)).run s =
      (.ok (k.find? key s).1, (k.find? key s).2) := fun _ => rfl
  rw [Host.cached, run_bind_of_ok (hfind s)]
  rcases k.find? key s with ⟨_ | a, s₁⟩
  · dsimp only
    rw [hexclusively]
    refine (run_bind_of_ok (hfind s₁)).trans ?_
    rcases k.find? key s₁ with ⟨_ | a, s₂⟩
    · dsimp only
      rcases hrun : compute.run s₂ with ⟨e | a, s₃⟩
      · exact run_bind_of_error hrun
      · exact run_bind_of_ok hrun
    · rfl
  · rfl

/-- **What may come of the protocol**, where it is known what a lookup finds: a value that is there,
or whatever comes of computing one. -/
theorem run_cached_cases
    (hexclusively : ∀ x : StateM σ (Except Failure α), h.exclusively production key x = x)
    {Inv : σ → Prop} {found : Option α}
    (hfind : ∀ s, Inv s → (k.find? key s).1 = found ∧ Inv (k.find? key s).2) {s : σ} (hs : Inv s) :
    (∃ a s', found = some a ∧ Inv s' ∧
      (h.cached k production key compute).run s = (.ok a, s')) ∨
    found = none ∧ ∃ s', Inv s' ∧
      ((∃ a s'', compute.run s' = (.ok a, s'') ∧
        (h.cached k production key compute).run s = (.ok a, (k.store key a s'').2)) ∨
      ∃ e s'', compute.run s' = (.error e, s'') ∧
        (h.cached k production key compute).run s = (.error e, s'')) := by
  obtain ⟨hvalue, hinv⟩ := hfind s hs
  rw [run_cached hexclusively]
  rcases hfirst : k.find? key s with ⟨_ | a, s₁⟩
  all_goals rw [hfirst] at hvalue hinv
  · obtain ⟨hvalue', hinv'⟩ := hfind s₁ hinv
    rw [← hvalue] at hvalue'
    dsimp only
    rcases hsecond : k.find? key s₁ with ⟨_ | a, s₂⟩
    all_goals rw [hsecond] at hvalue' hinv'
    · refine Or.inr ⟨hvalue.symm, s₂, hinv', ?_⟩
      dsimp only
      rcases hrun : compute.run s₂ with ⟨e | a, s₃⟩
      · exact Or.inr ⟨e, s₃, rfl, rfl⟩
      · exact Or.inl ⟨a, s₃, rfl, rfl⟩
    · cases hvalue'
  · exact Or.inl ⟨a, s₁, hvalue.symm, hinv, rfl⟩

end Host

/-! ### Preserving an invariant -/

/-- Computations that preserve an invariant, whatever comes of them. -/
def Preserves (Inv : σ → Prop) (x : ExceptT Failure (StateM σ) α) : Prop :=
  ∀ s, Inv s → Inv (x.run s).2

section Preserves

variable {Inv : σ → Prop}

theorem preserves_pure (a : α) : Preserves Inv (pure a) := fun _ hs => hs

theorem preserves_of_rel {x : ExceptT Failure (StateM σ) α} {y : ExceptT Failure Id α}
    (h : ((holding Inv).except Failure).Rel x y) : Preserves Inv x :=
  fun s hs => (h s hs).2

theorem Preserves.bind {x : ExceptT Failure (StateM σ) α} {f : α → ExceptT Failure (StateM σ) β}
    (hx : Preserves Inv x) (hf : ∀ a, Preserves Inv (f a)) : Preserves Inv (x >>= f) := by
  intro s hs
  have hs' := hx s hs
  rcases hrun : x.run s with ⟨e | a, s'⟩
  · rw [hrun] at hs'
    rw [run_bind_of_error hrun]
    exact hs'
  · rw [hrun] at hs'
    rw [run_bind_of_ok hrun]
    exact hf a s' hs'

variable {h : Host (StateM σ)}

/-- A computation that is kept preserves what looking up, computing and storing do. -/
theorem preserves_cached {k : Keeper (StateM σ) α} {production : Production} {key : String}
    {compute : ExceptT Failure (StateM σ) α}
    (hexclusively : ∀ x : StateM σ (Except Failure α), h.exclusively production key x = x)
    (hfind : ∀ s, Inv s → Inv (k.find? key s).2) (hcompute : Preserves Inv compute)
    (hstore : ∀ (a : α) (s s' : σ), compute.run s = (.ok a, s') → Inv s' →
      Inv (k.store key a s').2) :
    Preserves Inv (h.cached k production key compute) := by
  intro s hs
  have hfirst := hfind s hs
  rw [Host.run_cached hexclusively]
  rcases hfound : k.find? key s with ⟨_ | a, s₁⟩
  all_goals rw [hfound] at hfirst
  · have hsecond := hfind s₁ hfirst
    dsimp only
    rcases hfound' : k.find? key s₁ with ⟨_ | a, s₂⟩
    all_goals rw [hfound'] at hsecond
    · have hthird := hcompute s₂ hsecond
      dsimp only
      rcases hrun : compute.run s₂ with ⟨e | a, s₃⟩
      · rw [hrun] at hthird
        exact hthird
      · rw [hrun] at hthird
        exact hstore a s₂ s₃ hrun hthird
    · exact hsecond
  · exact hfirst

/-- A path in a collection is asked for itself and for the tree below it. -/
theorem preserves_expandElement_path {p : Path} (hself : Preserves Inv (h.snapshotSelf p))
    (htree : Preserves Inv (h.snapshotTree (.all p))) :
    Preserves Inv (h.expandElement (.path p)) := by
  refine hself.bind fun e => ?_
  cases e with
  | directory path relative isRoot => exact htree.bind fun t => preserves_pure _
  | file path relative isRoot snapshot => exact preserves_pure _
  | missing path name => exact preserves_pure _

/-- A collection is gone through root by root. -/
theorem preserves_expand
    (hkeeping : ∀ {α : Type} (keys : α → List String) {x : StateM σ α},
      (∀ s, Inv s → Inv (x s).2) → ∀ s, Inv s → Inv (h.keeping keys x s).2)
    {es : List (Element (StateM σ))} (hes : ∀ e ∈ es, Preserves Inv (h.expandElement e)) :
    Preserves Inv (h.expand es) := by
  induction es with
  | nil => exact preserves_pure []
  | cons e es ih =>
    have hfirst : Preserves Inv (h.keepingValue (·.map Entry.path) (h.expandElement e)) :=
      fun s hs => hkeeping _ (hes e (by simp)) s hs
    refine hfirst.bind fun first => ?_
    exact (ih fun e' he' => hes e' (List.mem_cons_of_mem _ he')).bind fun rest => preserves_pure _

end Preserves

/-! ### Giving a value -/

/-- Computations that give a certain value, whatever the state is, as long as this is true of it. -/
def Gives (Inv : σ → Prop) (x : ExceptT Failure (StateM σ) α) (y : ExceptT Failure Id α) : Prop :=
  ∀ s, Inv s → (x.run s).1 = y.run

section Gives

variable {Inv : σ → Prop}

theorem gives_pure (a : α) : Gives Inv (pure a) (pure a) := fun _ _ => rfl

/-- What is true of the state may be another thing after the first step. -/
theorem Gives.bind (Inv' : σ → Prop) {x : ExceptT Failure (StateM σ) α} {y : ExceptT Failure Id α}
    {f : α → ExceptT Failure (StateM σ) β} {g : α → ExceptT Failure Id β} (hx : Gives Inv x y)
    (hstate : ∀ s, Inv s → Inv' (x.run s).2) (hf : ∀ a, Gives Inv' (f a) (g a)) :
    Gives Inv (x >>= f) (y >>= g) := by
  intro s hs
  have hvalue := hx s hs
  have hs' := hstate s hs
  change (x.run s).1 = (y : Except Failure α) at hvalue
  rcases hrun : x.run s with ⟨r, s'⟩
  rw [hrun] at hvalue hs'
  dsimp only at hvalue hs'
  subst hvalue
  rcases r with e | a
  · rw [run_bind_of_error hrun]
    rfl
  · rw [run_bind_of_ok hrun]
    exact hf a s' hs'

/-- Where nothing is found, the protocol of the cache gives what is computed. -/
theorem Host.gives_cached {h : Host (StateM σ)} {k : Keeper (StateM σ) α} {production : Production}
    {key : String} {compute : ExceptT Failure (StateM σ) α} {right : ExceptT Failure Id α}
    (hexclusively : ∀ x : StateM σ (Except Failure α), h.exclusively production key x = x)
    (hfind : ∀ s, Inv s → (k.find? key s).1 = none ∧ Inv (k.find? key s).2)
    (hcompute : Gives Inv compute right) : Gives Inv (h.cached k production key compute) right := by
  intro s hs
  rcases @Host.run_cached_cases _ _ h k production key compute hexclusively _ _ hfind s hs with
    ⟨a, s', hfound, -⟩ | ⟨-, s', hs', ⟨a, s'', hran, hrun⟩ | ⟨e, s'', hran, hrun⟩⟩
  · cases hfound
  · have hvalue := hcompute s' hs'
    rw [hran] at hvalue
    rw [hrun, ← hvalue]
  · have hvalue := hcompute s' hs'
    rw [hran] at hvalue
    rw [hrun, ← hvalue]

end Gives

/-! ### Failing -/

/-- **A collection that fails, fails at one of its roots**: those before it do not, and those after
it are not looked at. -/
theorem Host.exists_failing_root {h : Host (StateM σ)} {es : List (Element (StateM σ))}
    {e : Failure} {s s' : σ} (hrun : (h.expand es).run s = (.error e, s')) :
    ∃ done m rest, es = done ++ m :: rest ∧
      (∃ entries s₁, (h.expand done).run s = (.ok entries, s₁)) ∧
      (h.expand (done ++ [m])).run s = (.error e, s') := by
  induction es generalizing s with
  | nil => cases hrun
  | cons m rest ih =>
    rcases hfirst : (h.keepingValue (·.map Entry.path) (h.expandElement m)).run s with
      ⟨e' | first, s₁⟩
    · have hfails : ∀ rest, (h.expand (m :: rest)).run s = (.error e', s₁) :=
        fun rest => run_bind_of_error hfirst
      rw [hfails, Prod.mk.injEq] at hrun
      obtain ⟨he, rfl⟩ := hrun
      cases he
      exact ⟨[], m, rest, rfl, ⟨[], s, rfl⟩, hfails []⟩
    · have hgoes : ∀ rest, (h.expand (m :: rest)).run s =
          (do return first ++ (← h.expand rest) : ExceptT Failure (StateM σ) (List Entry)).run s₁ :=
        fun rest => run_bind_of_ok hfirst
      rcases hrest : (h.expand rest).run s₁ with ⟨e' | entries, s₂⟩
      · rw [hgoes, run_bind_of_error hrest, Prod.mk.injEq] at hrun
        obtain ⟨he, rfl⟩ := hrun
        cases he
        obtain ⟨done, m', rest', rfl, ⟨entries, s₃, hdone⟩, hfails⟩ := ih hrest
        refine ⟨m :: done, m', rest', rfl, ⟨first ++ entries, s₃, ?_⟩, ?_⟩
        · rw [hgoes, run_bind_of_ok hdone]
          rfl
        · rw [List.cons_append, hgoes, run_bind_of_error hfails]
      · rw [hgoes, run_bind_of_ok hrest] at hrun
        cases hrun

end SnapStore
