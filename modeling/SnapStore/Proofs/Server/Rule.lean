import SnapStore.Proofs.Server.Deeds

/-!
# Rules for tasks

What a task may ask for can depend on what it has asked for before and on the replies. A
`SnapStore.Rule` keeps account of that in a state of its own: it says what is allowed in a state and
what the state is after a reply. A task follows a rule from a state on (`SnapStore.Task.Follows`) if
it never asks for anything that is not allowed, whatever is replied, and ends in a state in which it
should.

One task after the other follows a rule if each does (`SnapStore.Task.Follows.bind`). What a task
has done by then leads to the state, and what is left follows the rule from there
(`SnapStore.Task.Follows.of_leads`).
-/

namespace SnapStore

/-- What may be asked for, depending on what was asked for and replied before. -/
structure Rule (σ : Type) where
  /-- What may be asked for in a state. -/
  Allows : σ → Ask → Prop
  /-- The state after a reply. -/
  after : σ → (q : Ask) → q.Reply → σ

variable {σ α β : Type} {rule : Rule σ} {state : σ}

namespace Rule

/-- The state after all that was done. -/
def afterAll (rule : Rule σ) (state : σ) (deeds : List Deed) : σ :=
  deeds.foldl (fun state d => rule.after state d.ask d.reply) state

theorem afterAll_concat (rule : Rule σ) (state : σ) (deeds : List Deed) (q : Ask) (r : q.Reply) :
    rule.afterAll state (deeds ++ [⟨q, r⟩]) = rule.after (rule.afterAll state deeds) q r :=
  List.foldl_append ..

end Rule

namespace Task

/-- **A task follows a rule** from a state on, and ends as it should if it ends, whatever the
replies are. -/
def Follows (rule : Rule σ) (ends : σ → α → Prop) (state : σ) : Task α → Prop
  | .done a => ends state a
  | .ask q next => rule.Allows state q ∧ ∀ r, (next r).Follows rule ends (rule.after state q r)

variable {ends : σ → α → Prop} {t u : Task α}

theorem Follows.mono {ends' : σ → α → Prop} (h : t.Follows rule ends state)
    (hends : ∀ state a, ends state a → ends' state a) : t.Follows rule ends' state := by
  induction t generalizing state with
  | done a => exact hends state a h
  | ask q next ih => exact ⟨h.1, fun r => ih r (h.2 r)⟩

theorem Follows.bind {f : α → Task β} {ends' : σ → β → Prop} (h : t.Follows rule ends state)
    (hf : ∀ state' a, ends state' a → (f a).Follows rule ends' state') :
    (t >>= f).Follows rule ends' state := by
  induction t generalizing state with
  | done a => exact hf state a h
  | ask q next ih => exact ⟨h.1, fun r => ih r (h.2 r)⟩

/-- What is left of a task follows the rule from the state to which it has come. -/
theorem Follows.of_leads {deeds : List Deed} (ht : t.Follows rule ends state)
    (h : t.Leads deeds u) : u.Follows rule ends (rule.afterAll state deeds) := by
  induction h generalizing state with
  | refl => exact ht
  | step r _ ih => exact ih (ht.2 r)

/-- The state at the end is that to which the task has come. -/
theorem Follows.leads (h : t.Follows rule ends state) :
    t.Follows rule (fun state' a => ends state' a ∧ ∃ deeds,
      t.Leads deeds (.done a) ∧ state' = rule.afterAll state deeds) state := by
  induction t generalizing state with
  | done a => exact ⟨h, [], .refl _, rfl⟩
  | ask q next ih =>
    refine ⟨h.1, fun r => (ih r (h.2 r)).mono ?_⟩
    rintro state' a ⟨hends, deeds, hdeeds, rfl⟩
    exact ⟨hends, ⟨q, r⟩ :: deeds, .step r hdeeds, rfl⟩

/-- A task that asks only what is always allowed. -/
theorem Obeys.follows {allowed : Ask → Prop} {ends : α → Prop} (h : t.Obeys allowed ends)
    (hallows : ∀ state q, allowed q → rule.Allows state q) :
    t.Follows rule (fun _ a => ends a) state := by
  induction t generalizing state with
  | done a => exact h
  | ask q next ih => exact ⟨hallows state q h.1, fun r => ih r (h.2 r)⟩

/-- A task that asks only what is allowed in a state and does not change it. -/
theorem Obeys.stays {allowed : Ask → Prop} {ends : α → Prop} (h : t.Obeys allowed ends)
    (hallows : ∀ q, allowed q → rule.Allows state q)
    (hafter : ∀ q, allowed q → ∀ r, rule.after state q r = state) :
    t.Follows rule (fun state' a => state' = state ∧ ends a) state := by
  induction t with
  | done a => exact ⟨rfl, h⟩
  | ask q next ih =>
    refine ⟨hallows q h.1, fun r => ?_⟩
    rw [hafter q h.1 r]
    exact ih r (h.2 r)

end Task

end SnapStore
