import SnapStore.Proofs.Server.Rule

/-!
# What is stored was computed

A call stores nothing but what it has just computed, after it had looked in vain while it had the
lock, and it leaves the section of a key without a value only when its own computation has failed
(`SnapStore.Earned`). For a request that makes others on its way this is so for each of them
(`SnapStore.Task.earned_of_leads`): the values that an aggregate is made of are stored by the
request for it, one after the other, and each was computed by itself.

As a rule for tasks, this is a rule about all that was done before (`SnapStore.earning`).
-/

namespace SnapStore

/-- **A computation has just ended.** The call had looked in vain while it had the lock, and since
then it has done what the computation does that ends like this. -/
def Computed (st : Strategy) (key : String) (past : List Deed) (kind : Production)
    (r : Except Failure kind.Value) : Prop :=
  ∃ before p acts, (∃ cwd, p.canonical cwd = .ok key) ∧
    past = before ++ (Deed.vain kind key ++ acts) ∧
      (Task.computation st p key kind).run.Leads acts (.done r)

/-- What a call was after is there: it has just found it, or stored it. -/
def Obtained (key : String) (past : List Deed) (kind : Production) : Prop :=
  ∃ before a, past = before ++ [⟨.find kind key, some a⟩] ∨
    past = before ++ [⟨.store kind key a, ()⟩]

/-- **Nothing is stored but what has just been computed**, and nobody leaves a section without what
he was after but whoever has failed to compute it. -/
structure Earned (st : Strategy) (key : String) (past : List Deed) (q : Ask) : Prop where
  /-- What is stored is the value of the computation. -/
  store : ∀ kind key' a, q = .store kind key' a → key' = key ∧ Computed st key past kind (.ok a)
  /-- Whoever leaves has it, or has failed. -/
  leave : ∀ kind, q = .goOn kind .inside →
    Obtained key past kind ∨ ∃ e, Computed st key past kind (.error e)

/-- This, as a rule. -/
def earning (st : Strategy) (key : String) : Rule (List Deed) where
  Allows past q := Earned st key past q
  after past q r := past ++ [⟨q, r⟩]

theorem afterAll_earning (st : Strategy) (key : String) (past deeds : List Deed) :
    (earning st key).afterAll past deeds = past ++ deeds := by
  induction deeds generalizing past with
  | nil => exact (List.append_nil past).symm
  | cons d deeds ih => exact (ih _).trans (List.append_assoc past [d] deeds)

namespace Task

variable {α : Type} {st : Strategy} {key : String}

/-- A computation stores nothing that it has not earned, whatever was done before. -/
def Earns (st : Strategy) (key : String) (ends : α → Prop) (x : ExceptT Failure Task α) : Prop :=
  ∀ past, x.run.Follows (earning st key) (fun _ r => Succeeds ends r) past

theorem earns_pure {ends : α → Prop} {a : α} (h : ends a) : Earns st key ends (pure a) := fun _ => h

theorem Earns.bind {β : Type} {ends : α → Prop} {ends' : β → Prop} {x : ExceptT Failure Task α}
    {f : α → ExceptT Failure Task β} (h : Earns st key ends x)
    (hf : ∀ a, ends a → Earns st key ends' (f a)) : Earns st key ends' (x >>= f) := by
  refine fun past => (h past).bind fun past' r hr => ?_
  cases r with
  | ok a => exact hf a hr past'
  | error e => exact trivial

/-- What only looks stores nothing. -/
theorem earns_of_look {ends : α → Prop} {x : ExceptT Failure Task α}
    (h : Keeps (· = .look) ends x) : Earns st key ends x := by
  refine fun past => Obeys.follows h ?_
  rintro past' _ rfl
  exact ⟨nofun, nofun⟩

/-- When it leaves, **a call has what it was after**, or has failed to compute it. -/
theorem follows_attempt {kind : Production} {p : Path} (hkey : ∃ cwd, p.canonical cwd = .ok key)
    (h : Earns st key (fun _ => True) (computation st p key kind)) (past : List Deed) :
    (attempt kind key (computation st p key kind)).Follows (earning st key)
      (fun past' _ => Obtained key past' kind ∨ ∃ e, Computed st key past' kind (.error e))
      (past ++ Deed.waiting kind key) := by
  refine ⟨⟨nofun, nofun⟩, fun found => ?_⟩
  cases found with
  | some a => exact Or.inl ⟨_, a, Or.inl rfl⟩
  | none =>
    refine (h _).leads.bind ?_
    rintro _ r ⟨-, acts, hacts, rfl⟩
    have hcomputed : Computed st key ((earning st key).afterAll
        (past ++ Deed.waiting kind key ++ [⟨.find kind key, none⟩]) acts) kind r := by
      refine ⟨past, p, acts, hkey, ?_, hacts⟩
      rw [afterAll_earning, Deed.vain, List.append_assoc, List.append_assoc, List.append_assoc]
    cases r with
    | error e => exact Or.inr ⟨e, hcomputed⟩
    | ok a =>
      refine ⟨⟨?_, ?_⟩, fun _ => Or.inl ⟨_, a, Or.inr rfl⟩⟩
      · rintro _ _ _ ⟨⟩
        exact ⟨rfl, hcomputed⟩
      · rintro _ ⟨⟩

/-- **A call stores what it has computed** at its key. -/
theorem earns_atKey {kind : Production} {p : Path} (hkey : ∃ cwd, p.canonical cwd = .ok key)
    (h : Earns st key (fun _ => True) (computation st p key kind)) :
    Earns st key (fun _ => True) (atKey st p key kind) := by
  intro past
  rw [atKey_eq, run_cached]
  refine ⟨⟨nofun, nofun⟩, fun found => ?_⟩
  cases found with
  | some a => exact trivial
  | none =>
    rw [exclusively_eq]
    refine ⟨⟨nofun, nofun⟩, fun _ => ⟨⟨nofun, nofun⟩, fun _ => ?_⟩⟩
    have hattempt := follows_attempt hkey h past
    rw [← afterAll_earning st key] at hattempt
    refine hattempt.bind fun past' r hends => ⟨⟨nofun, ?_⟩, fun _ => ?_⟩
    · rintro _ ⟨⟩
      exact hends
    · exact ⟨⟨nofun, nofun⟩, fun _ => ⟨⟨nofun, nofun⟩, fun _ => succeeds_true r⟩⟩

/-- **Whatever is computed** stores nothing else on its way. -/
theorem earns_computation (hkey : ∀ cwd, (Path.ofString key).canonical cwd = .ok key) (p : Path)
    (kind : Production) : Earns st key (fun _ => True) (computation st p key kind) :=
  closed_computation (P := Earns st key) earns_pure Earns.bind earns_of_look hkey
    (fun _ _ => earns_atKey ⟨.ok p, hkey _⟩) p kind

/-- **Whatever a request has done, it had earned.** -/
theorem earned_of_leads (hkey : ∀ cwd, (Path.ofString key).canonical cwd = .ok key)
    {kind : Production} {p : Path} (hp : ∃ cwd, p.canonical cwd = .ok key)
    {t : Task (Except Failure kind.Value)} {before after : List Deed} {q : Ask} {r : q.Reply}
    (h : (atKey st p key kind).run.Leads (before ++ ⟨q, r⟩ :: after) t) :
    Earned st key before q := by
  obtain ⟨u, hbefore, hafter⟩ := h.split
  rcases hafter with _ | ⟨_, hafter⟩
  have hfollows := (earns_atKey hp (earns_computation hkey p kind) []).of_leads hbefore
  rw [afterAll_earning] at hfollows
  exact hfollows.1

end Task

end SnapStore
