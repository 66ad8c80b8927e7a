import SnapStore.Proofs.Server.Deeds

/-!
# Whoever has got the lock

A call that has got the lock of a key makes an attempt: it looks again, and computes if it looks in
vain (`SnapStore.Task.attempt`). Then it leaves, and goes on with whatever it was doing. This is so
for a request by itself as well as for those that another one makes on its way, and so it is said of
tasks that go on in any way (`SnapStore.Task.Attempts`).

By its deeds since it has got the lock, such a call has come from the attempt to where it is
(`SnapStore.Task.exists_leads_of_goOn`). So when its computation has ended it does nothing else
before it has stored the value (`SnapStore.Task.eq_of_leads_attempt`).
-/

namespace SnapStore

namespace Task

variable {α β γ : Type} {st : Strategy} {key : String}

theorem bind_assoc (t : Task α) (f : α → Task β) (g : β → Task γ) :
    t >>= f >>= g = t >>= fun a => f a >>= g := by
  induction t with
  | done a => rfl
  | ask q next ih => exact congrArg (ask q) (funext ih)

theorem bind_done (t : Task α) : t >>= done = t := by
  induction t with
  | done a => rfl
  | ask q next ih => exact congrArg (ask q) (funext ih)

/-- **Whoever gets the lock makes an attempt**, leaves and goes on, and ends as he should. -/
def Attempts (st : Strategy) (key : String) (ends : α → Prop) : Task α → Prop
  | .done a => ends a
  | .ask q next =>
    (∀ kind, q = .goOn kind .waiting → ∀ r, ∃ p, (∃ cwd, p.canonical cwd = .ok key) ∧
      ∃ rest, next r = attempt kind key (computation st p key kind) >>= leave kind >>= rest) ∧
    ∀ r, (next r).Attempts st key ends

variable {ends : α → Prop} {ends' : β → Prop}

theorem Attempts.bind {t : Task α} {f : α → Task β} (h : t.Attempts st key ends)
    (hf : ∀ a, ends a → (f a).Attempts st key ends') : (t >>= f).Attempts st key ends' := by
  induction t with
  | done a => exact hf a h
  | ask q next ih =>
    refine ⟨fun kind hq r => ?_, fun r => ih r (h.2 r)⟩
    obtain ⟨p, hp, rest, hnext⟩ := h.1 kind hq r
    refine ⟨p, hp, fun a => rest a >>= f, ?_⟩
    rw [← bind_assoc, ← hnext]
    rfl

/-- A task that only looks asks for no lock. -/
theorem Obeys.attempts {t : Task α} (h : t.Obeys (· = .look) ends) : t.Attempts st key ends := by
  induction t with
  | done a => exact h
  | ask q next ih =>
    refine ⟨?_, fun r => ih r (h.2 r)⟩
    rintro kind rfl
    cases h.1

/-- What is left of it makes attempts as well. -/
theorem Attempts.of_leads {t u : Task α} {deeds : List Deed} (h : t.Attempts st key ends)
    (hleads : t.Leads deeds u) : u.Attempts st key ends := by
  induction hleads with
  | refl => exact h
  | step r _ ih => exact ih (h.2 r)

/-! ### Requests make attempts -/

/-- The same for what may fail. -/
def MakesAttempts (st : Strategy) (key : String) (ends : α → Prop) (x : ExceptT Failure Task α) :
    Prop :=
  x.run.Attempts st key (Succeeds ends)

theorem makesAttempts_pure {a : α} (h : ends a) : MakesAttempts st key ends (pure a) := h

theorem MakesAttempts.bind {x : ExceptT Failure Task α} {f : α → ExceptT Failure Task β}
    (h : MakesAttempts st key ends x) (hf : ∀ a, ends a → MakesAttempts st key ends' (f a)) :
    MakesAttempts st key ends' (x >>= f) := by
  refine Attempts.bind h fun r hr => ?_
  cases r with
  | ok a => exact hf a hr
  | error e => exact trivial

/-- **A request makes an attempt** at its key if it has to wait for the lock. -/
theorem makesAttempts_atKey {kind : Production} {p : Path} (hp : ∃ cwd, p.canonical cwd = .ok key)
    (h : MakesAttempts st key (fun _ => True) (computation st p key kind)) :
    MakesAttempts st key (fun _ => True) (atKey st p key kind) := by
  have hattempt : (attempt kind key (computation st p key kind)).Attempts st key
      (Succeeds fun _ => True) := by
    refine ⟨nofun, fun found => ?_⟩
    cases found with
    | some a => exact trivial
    | none =>
      refine Attempts.bind h fun r _ => ?_
      cases r with
      | ok a => exact ⟨nofun, fun _ => trivial⟩
      | error e => exact trivial
  rw [MakesAttempts, atKey_eq, run_cached]
  refine ⟨nofun, fun found => ?_⟩
  cases found with
  | some a => exact trivial
  | none =>
    rw [exclusively_eq]
    refine ⟨nofun, fun _ => ⟨?_, fun _ => hattempt.bind fun r hr => ?_⟩⟩
    · rintro _ ⟨⟩ _
      exact ⟨p, hp, done, (bind_done _).symm⟩
    · exact ⟨nofun, fun _ => ⟨nofun, fun _ => ⟨nofun, fun _ => hr⟩⟩⟩

theorem makesAttempts_computation (hkey : ∀ cwd, (Path.ofString key).canonical cwd = .ok key)
    (p : Path) (kind : Production) :
    MakesAttempts st key (fun _ => True) (computation st p key kind) :=
  closed_computation (P := MakesAttempts st key) makesAttempts_pure MakesAttempts.bind
    Obeys.attempts hkey (fun _ _ => makesAttempts_atKey ⟨.ok p, hkey _⟩) p kind

/-- **Since it got the lock**, a call has come from its attempt to where it is. -/
theorem exists_leads_of_goOn (hkey : ∀ cwd, (Path.ofString key).canonical cwd = .ok key)
    {kind kind' : Production} {p : Path} (hp : ∃ cwd, p.canonical cwd = .ok key)
    {t : Task (Except Failure kind.Value)} {before acts : List Deed}
    (h : (atKey st p key kind).run.Leads (before ++ ⟨.goOn kind' .waiting, ()⟩ :: acts) t) :
    ∃ p', (∃ cwd, p'.canonical cwd = .ok key) ∧ ∃ rest,
      (attempt kind' key (computation st p' key kind') >>= leave kind' >>= rest).Leads acts t := by
  obtain ⟨u, hbefore, hafter⟩ := h.split
  have hcomputes : MakesAttempts st key (fun _ => True) (computation st p key kind) :=
    makesAttempts_computation hkey p kind
  have hattempts := (makesAttempts_atKey hp hcomputes).of_leads hbefore
  rcases hafter with _ | ⟨_, hafter⟩
  obtain ⟨p', hp', rest, hnext⟩ := hattempts.1 kind' rfl ()
  rw [hnext] at hafter
  exact ⟨p', hp', rest, hafter⟩

end Task

end SnapStore
