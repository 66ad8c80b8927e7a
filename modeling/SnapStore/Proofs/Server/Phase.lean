import SnapStore.Proofs.Lock.Standing
import SnapStore.Proofs.Server.Rule

/-!
# The phases of a call

A call that goes by the protocol for what is kept is, for each kind of things, outside of the
section of its key or in one of six phases of it (`SnapStore.Phase`). Which one it is can be read
off what the call has done so far (`SnapStore.Phase.ofDeeds`). It says more than how far the call
has come in the section (`SnapStore.Phase.stage?`): of those who are inside, some have not looked
again, some have looked in vain and compute, and some have what they want.

What may be asked for depends on the phase (`SnapStore.Phase.Allows`): above all, nothing is stored
but by a call that computes, and nothing is computed but after a look in vain under the lock. A task
that keeps to this from some phase on follows the protocol (`SnapStore.Task.Follows`). All requests
do (`SnapStore.Task.follows_atKey`), whatever is replied, and aggregates follow it for all three
kinds, though they make requests of the others inside of their own section.
-/

namespace SnapStore

/-- How far a call has come, as far as one kind of things is concerned. -/
inductive Phase
  /-- It is not in the section. -/
  | outside
  /-- It waits for the lock. -/
  | waiting
  /-- It has got the lock, and has not looked again. -/
  | entered
  /-- It has looked again in vain, and computes. -/
  | computing
  /-- It has found something, or has stored it. -/
  | settled
  /-- It has given the lock back. -/
  | leaving
  /-- It has looked whether the key can leave the table. -/
  | retired
  deriving DecidableEq

namespace Phase

/-- How far a call has come in the section. -/
def stage? : Phase → Option Stage
  | .outside => none
  | .waiting => some .waiting
  | .entered => some .inside
  | .computing => some .inside
  | .settled => some .inside
  | .leaving => some .leaving
  | .retired => some .retired

/-- The phase after the next step of the section. -/
def next : Phase → Phase
  | .outside => .outside
  | .waiting => .entered
  | .entered => .leaving
  | .computing => .leaving
  | .settled => .leaving
  | .leaving => .retired
  | .retired => .outside

theorem stage?_next (phase : Phase) : phase.next.stage? = phase.stage?.bind Stage.next? := by
  cases phase <;> rfl

theorem next_of_inside {phase : Phase} (h : phase.stage? = some .inside) :
    phase.next = .leaving := by
  cases phase <;> first | rfl | cases h

/-- **What may be asked for** in a phase. -/
def Allows (kind : Production) (phase : Phase) : Ask → Prop
  | .look => True
  | .find _ _ => True
  | .store kind' _ _ => kind' = kind → phase = .computing
  | .enter kind' _ => kind' = kind → phase = .outside
  | .goOn kind' stage => kind' = kind → phase.stage? = some stage

/-- The phase after a reply. -/
def after (kind : Production) (phase : Phase) : (q : Ask) → q.Reply → Phase
  | .look, _ => phase
  | .find kind' _, found =>
    if kind' = kind ∧ phase = .entered then
      if Option.isSome found then .settled else .computing
    else phase
  | .store kind' _ _, _ => if kind' = kind then .settled else phase
  | .enter kind' _, _ => if kind' = kind then .waiting else phase
  | .goOn kind' _, _ => if kind' = kind then phase.next else phase

/-- **The protocol**, as far as one kind of things is concerned. -/
def rule (kind : Production) : Rule Phase where
  Allows := Allows kind
  after := after kind

theorem rule_after (kind : Production) : (rule kind).after = after kind := rfl

/-- **The phase of a call** that has done this. -/
def ofDeeds (kind : Production) (deeds : List Deed) : Phase := (rule kind).afterAll .outside deeds

theorem ofDeeds_concat (kind : Production) (deeds : List Deed) (q : Ask) (r : q.Reply) :
    ofDeeds kind (deeds ++ [⟨q, r⟩]) = (ofDeeds kind deeds).after kind q r :=
  (rule kind).afterAll_concat ..

variable {kind : Production} {phase : Phase}

/-- A question that has nothing to do with a kind may be asked everywhere, -/
theorem allows_of_spares {q : Ask} (h : q.Spares kind) : phase.Allows kind q := by
  cases q with
  | look => exact trivial
  | find => exact trivial
  | store => exact fun heq => absurd heq h
  | enter => exact fun heq => absurd heq h
  | goOn => exact fun heq => absurd heq h

/-- and changes nothing. -/
theorem after_of_spares {q : Ask} (h : q.Spares kind) (r : q.Reply) :
    phase.after kind q r = phase := by
  cases q with
  | look => rfl
  | find => exact if_neg fun heq => h heq.1
  | store => exact if_neg h
  | enter => exact if_neg h
  | goOn => exact if_neg h

/-- What is asked inside of a section or outside of it leaves the call there. -/
theorem stage?_after {q : Ask} (henter : ∀ key, q ≠ .enter kind key)
    (hgoOn : ∀ stage, q ≠ .goOn kind stage) (hallows : phase.Allows kind q) (r : q.Reply) :
    (phase.after kind q r).stage? = phase.stage? := by
  cases q with
  | look => rfl
  | find kind' key =>
    rw [after]
    split_ifs with hentered hfound
    · rw [hentered.2]
      rfl
    · rw [hentered.2]
      rfl
    · rfl
  | store kind' key a =>
    rw [after]
    split_ifs with hkind
    · rw [hallows hkind]
      rfl
    · rfl
  | enter kind' key =>
    have hkind : kind' ≠ kind := fun hkind => henter key (congrArg (Ask.enter · key) hkind)
    exact congrArg stage? (if_neg hkind)
  | goOn kind' stage =>
    have hkind : kind' ≠ kind := fun hkind => hgoOn stage (congrArg (Ask.goOn · stage) hkind)
    exact congrArg stage? (if_neg hkind)

/-- A call that computes has done so before, or it has just looked in vain. -/
theorem computing_of_after {q : Ask} {r : q.Reply} (h : phase.after kind q r = .computing) :
    phase = .computing ∨ ∃ key, (⟨q, r⟩ : Deed) = ⟨.find kind key, none⟩ := by
  cases q with
  | look => exact Or.inl h
  | find kind' key =>
    rw [after] at h
    split_ifs at h with hentered hfound
    · obtain ⟨rfl, -⟩ := hentered
      exact Or.inr ⟨key, congrArg (Deed.mk _) (Option.not_isSome_iff_eq_none.1 hfound)⟩
    · exact Or.inl h
  | store kind' key a =>
    rw [after] at h
    split_ifs at h
    exact Or.inl h
  | enter kind' key =>
    rw [after] at h
    split_ifs at h
    exact Or.inl h
  | goOn kind' stage =>
    rw [after] at h
    split_ifs at h
    · cases phase <;> cases h
    · exact Or.inl h

end Phase

namespace Task

variable {α β : Type} {kind : Production} {phase : Phase}

/-- A task that may fail follows the protocol and comes back to the phase in which
it was. -/
def Returns (kind : Production) (phase : Phase) (ends : α → Prop) (x : ExceptT Failure Task α) :
    Prop :=
  x.run.Follows (Phase.rule kind) (fun phase' r => phase' = phase ∧ Succeeds ends r) phase

theorem returns_pure {ends : α → Prop} {a : α} (h : ends a) : Returns kind phase ends (pure a) :=
  ⟨rfl, h⟩

theorem Returns.bind {x : ExceptT Failure Task α} {f : α → ExceptT Failure Task β} {ends : α → Prop}
    {ends' : β → Prop} (h : Returns kind phase ends x)
    (hf : ∀ a, ends a → Returns kind phase ends' (f a)) : Returns kind phase ends' (x >>= f) := by
  refine Follows.bind h ?_
  rintro _ r ⟨rfl, hr⟩
  cases r with
  | ok a => exact hf a hr
  | error e => exact ⟨rfl, trivial⟩

theorem Keeps.returns {x : ExceptT Failure Task α} {ends : α → Prop}
    (h : Keeps (Ask.Spares kind) ends x) : Returns kind phase ends x :=
  Obeys.stays h (fun _ => Phase.allows_of_spares) fun _ => Phase.after_of_spares

/-! ### Sections -/

section Sections

variable {key : String}

/-- A section of the kind itself. -/
theorem follows_exclusively {act : Task α} {ends : α → Prop}
    (h : act.Follows (Phase.rule kind) (fun phase' a => phase'.stage? = some .inside ∧ ends a)
      .entered) :
    (exclusively kind key act).Follows (Phase.rule kind)
      (fun phase' a => phase' = .outside ∧ ends a) .outside := by
  rw [exclusively_eq]
  refine ⟨fun _ => rfl, fun _ => ?_⟩
  rw [Phase.rule_after, Phase.after, if_pos rfl]
  refine ⟨fun _ => rfl, fun _ => ?_⟩
  rw [Phase.rule_after, Phase.after, if_pos rfl]
  refine h.bind fun phase' a ⟨hinside, ha⟩ => ⟨fun _ => hinside, fun _ => ?_⟩
  rw [Phase.rule_after, Phase.after, if_pos rfl, Phase.next_of_inside hinside]
  refine ⟨fun _ => rfl, fun _ => ?_⟩
  rw [Phase.rule_after, Phase.after, if_pos rfl]
  refine ⟨fun _ => rfl, fun _ => ?_⟩
  rw [Phase.rule_after, Phase.after, if_pos rfl]
  exact ⟨rfl, ha⟩

/-- A section of another kind. -/
theorem follows_exclusively_of_ne {kind' : Production} (hne : kind' ≠ kind) {act : Task α}
    {ends : α → Prop}
    (h : act.Follows (Phase.rule kind) (fun phase' a => phase' = phase ∧ ends a) phase) :
    (exclusively kind' key act).Follows (Phase.rule kind)
      (fun phase' a => phase' = phase ∧ ends a) phase := by
  have hleave : ∀ a, ends a → (leave kind' a).Follows (Phase.rule kind)
      (fun phase' a => phase' = phase ∧ ends a) phase := by
    intro a ha
    have hobeys : (leave kind' a).Obeys (Ask.Spares kind) ends :=
      ⟨hne, fun _ => ⟨hne, fun _ => ⟨hne, fun _ => ha⟩⟩⟩
    exact hobeys.stays (fun _ => Phase.allows_of_spares) fun _ => Phase.after_of_spares
  rw [exclusively_eq]
  refine ⟨fun heq => absurd heq hne, fun _ => ?_⟩
  rw [Phase.rule_after, Phase.after, if_neg hne]
  refine ⟨fun heq => absurd heq hne, fun _ => ?_⟩
  rw [Phase.rule_after, Phase.after, if_neg hne]
  refine h.bind ?_
  rintro _ a ⟨rfl, ha⟩
  exact hleave a ha

/-- **What is kept goes by the protocol**, for its own kind and for others. -/
theorem returns_cached {kind' : Production} {compute : ExceptT Failure Task kind'.Value}
    (hspares : Keeps (Ask.Spares kind') (fun _ => True) compute)
    (hother : kind' ≠ kind → Returns kind .outside (fun _ => True) compute) :
    Returns kind .outside (fun _ => True) (host.cached (keeper kind') kind' key compute) := by
  rw [Returns, run_cached]
  refine ⟨trivial, fun found => ?_⟩
  rw [Phase.rule_after, Phase.after, if_neg (by simp)]
  cases found with
  | some a => exact ⟨rfl, trivial⟩
  | none =>
    by_cases hkind : kind' = kind
    · subst hkind
      refine follows_exclusively ⟨trivial, fun found => ?_⟩
      rw [Phase.rule_after, Phase.after, if_pos ⟨rfl, rfl⟩]
      cases found with
      | some a => exact ⟨rfl, trivial⟩
      | none =>
        refine Follows.bind hspares.returns ?_
        rintro _ r ⟨rfl, -⟩
        cases r with
        | ok a =>
          refine ⟨fun _ => rfl, fun _ => ?_⟩
          rw [Phase.rule_after, Phase.after, if_pos rfl]
          exact ⟨rfl, trivial⟩
        | error e => exact ⟨rfl, trivial⟩
    · refine follows_exclusively_of_ne hkind ⟨trivial, fun found => ?_⟩
      rw [Phase.rule_after, Phase.after, if_neg (by simp)]
      cases found with
      | some a => exact ⟨rfl, trivial⟩
      | none =>
        refine Follows.bind (hother hkind) ?_
        rintro _ r ⟨rfl, -⟩
        cases r with
        | ok a =>
          refine ⟨fun heq => absurd heq hkind, fun _ => ?_⟩
          rw [Phase.rule_after, Phase.after, if_neg hkind]
          exact ⟨rfl, trivial⟩
        | error e => exact ⟨rfl, trivial⟩

end Sections

/-! ### Requests -/

section Requests

variable {st : Strategy} {p : Path} {key : String}

theorem returns_of_look {x : ExceptT Failure Task α} {ends : α → Prop}
    (h : Keeps (· = .look) ends x) : Returns kind phase ends x :=
  (spares_of_look h).returns

variable (hkey : ∀ cwd, (Path.ofString key).canonical cwd = .ok key)

include hkey

theorem returns_atKey (kind' : Production) :
    Returns kind .outside (fun _ => True) (atKey st p key kind') := by
  rw [atKey_eq]
  refine returns_cached (spares_computation hkey kind') fun _ => ?_
  refine closed_computation (P := Returns kind .outside) returns_pure Returns.bind returns_of_look
    hkey (fun kind' _ h => ?_) p kind'
  rw [atKey_eq]
  exact returns_cached (spares_computation hkey kind') fun _ => h

/-- **Every request follows the protocol** for every kind of things, and is outside when it has
come to its end. -/
theorem follows_atKey (kind' : Production) :
    (atKey st p key kind').run.Follows (Phase.rule kind) (fun phase _ => phase = .outside)
      .outside := by
  have h : Returns kind .outside (fun _ => True) (atKey st p key kind') := returns_atKey hkey kind'
  exact Follows.mono h fun _ _ hends => hends.1

end Requests

end Task

end SnapStore
