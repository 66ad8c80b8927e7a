import SnapStore.Proofs.Crew.Nesting

/-!
# No deadlock

Every thread of a crew has a stack of the sections that it is in, and the locks agree with the
stacks (`SnapStore.Crew.IsSeated`): in the sections of one kind a thread stands as its stack says.
So a thread that cannot go on waits for a lock, and what it waits for is held by a thread that has
not finished. If that one has to wait as well, then for a lock of lower rank than the one it holds
(`SnapStore.Crew.IsSeated.rank_lt`). As ranks cannot decrease forever, every chain of threads that
wait for one another ends in one that can go on (`SnapStore.Crew.Reachable.exists_canGoOn`).
-/

namespace SnapStore

open Nesting

/-- The sections of one kind on a stack. -/
def seatsOf (kind : Production) (stack : List Seat) : List (String × Stage) :=
  (stack.filter (·.kind = kind)).map fun s => (s.key, s.stage)

section Seats

variable {kind kind' : Production} {key : String} {stage : Stage} {stack below : List Seat}

theorem seatsOf_cons_self :
    seatsOf kind (⟨kind, key, stage⟩ :: stack) = (key, stage) :: seatsOf kind stack := by
  simp [seatsOf]

theorem seatsOf_cons_of_ne (h : kind' ≠ kind) :
    seatsOf kind (⟨kind', key, stage⟩ :: stack) = seatsOf kind stack := by
  simp [seatsOf, h]

theorem mem_seatsOf : (key, stage) ∈ seatsOf kind stack ↔ ⟨kind, key, stage⟩ ∈ stack := by
  simp only [seatsOf, List.mem_map, List.mem_filter, decide_eq_true_eq, Prod.mk.injEq]
  constructor
  · rintro ⟨⟨_, _, _⟩, ⟨hs, rfl⟩, rfl, rfl⟩
    exact hs
  · exact fun hs => ⟨_, ⟨hs, rfl⟩, rfl, rfl⟩

/-- The innermost section goes on, if it is of this kind. -/
theorem seatsOf_advance_self : seatsOf kind (advance (⟨kind, key, stage⟩ :: below)) =
    (stage.next?.map (key, ·)).toList ++ seatsOf kind below := by
  rw [advance]
  cases stage.next? with
  | none => rfl
  | some next => exact seatsOf_cons_self

theorem seatsOf_advance_of_ne (h : kind' ≠ kind) :
    seatsOf kind (advance (⟨kind', key, stage⟩ :: below)) = seatsOf kind below := by
  rw [advance]
  cases stage.next? with
  | none => rfl
  | some next => exact seatsOf_cons_of_ne h

/-- What has nothing to do with the sections of a kind leaves them as they are. -/
theorem seatsOf_after {q : Ask} (hq : Allows stack q) (henter : ∀ key, q ≠ .enter kind key)
    (hgoOn : ∀ stage, q ≠ .goOn kind stage) (r : q.Reply) :
    seatsOf kind (after stack q r) = seatsOf kind stack := by
  cases q with
  | look => rfl
  | find => rfl
  | store => rfl
  | enter kind' key =>
    exact seatsOf_cons_of_ne fun hkind => henter key (congrArg (Ask.enter · key) hkind)
  | goOn kind' stage =>
    obtain ⟨key, below, rfl⟩ := hq
    have hne : kind' ≠ kind := fun hkind => hgoOn stage (congrArg (Ask.goOn · stage) hkind)
    exact (seatsOf_advance_of_ne hne).trans (seatsOf_cons_of_ne hne).symm

end Seats

namespace Crew

variable {c c' : Crew} {i j : Nat} {kind kind' : Production} {key key' : String}

/-! ### What a step does -/

theorem exists_of_step? {replies : (q : Ask) → q.Reply} (h : c.step? i replies = some c') :
    ∃ q next crowds, c.tasks[i]? = some (.ask q next) ∧ c.grant? i q = some crowds ∧
      c' = ⟨crowds, c.tasks.set i (next (replies q))⟩ := by
  unfold step? at h
  split at h
  · rename_i q next htask
    obtain ⟨crowds, hgrant, rfl⟩ := Option.map_eq_some_iff.1 h
    exact ⟨q, next, crowds, htask, hgrant, rfl⟩
  · cases h

/-- Nothing but a lock keeps a thread from going on. -/
theorem grant?_of_not_canGoOn {q : Ask} {next : q.Reply → Task Unit}
    (htask : c.tasks[i]? = some (.ask q next)) (h : ¬c.CanGoOn i) : c.grant? i q = none := by
  obtain ⟨replies, hnone⟩ := not_forall.1 h
  rw [Option.not_isSome_iff_eq_none, step?, htask] at hnone
  exact Option.map_eq_none_iff.1 hnone

/-- **What a step of a thread makes of the sections of a kind.** It begins one, or it goes on in
one, or it does nothing about them. -/
theorem crowds_of_grant? {q : Ask} {crowds : Production → Crowd String}
    (h : c.grant? i q = some crowds) (kind : Production) :
    (∃ key, q = .enter kind key ∧ (c.crowds kind).enter? i key = some (crowds kind)) ∨
    (∃ stage, q = .goOn kind stage ∧ (c.crowds kind).advance? i = some (crowds kind)) ∨
    (∀ key, q ≠ .enter kind key) ∧ (∀ stage, q ≠ .goOn kind stage) ∧
      crowds kind = c.crowds kind := by
  have hother : ∀ {kind' d}, kind ≠ kind' → Function.update c.crowds kind' d kind = c.crowds kind :=
    fun hne => Function.update_of_ne hne ..
  cases q with
  | look =>
    cases h
    exact Or.inr (Or.inr ⟨nofun, nofun, rfl⟩)
  | find =>
    cases h
    exact Or.inr (Or.inr ⟨nofun, nofun, rfl⟩)
  | store =>
    cases h
    exact Or.inr (Or.inr ⟨nofun, nofun, rfl⟩)
  | enter kind' key =>
    obtain ⟨d, hd, rfl⟩ := Option.map_eq_some_iff.1 h
    by_cases hkind : kind' = kind
    · subst hkind
      exact Or.inl ⟨key, rfl, by rwa [Function.update_self]⟩
    · refine Or.inr (Or.inr ⟨?_, nofun, hother (Ne.symm hkind)⟩)
      rintro _ ⟨⟩
      exact hkind rfl
  | goOn kind' stage =>
    obtain ⟨d, hd, rfl⟩ := Option.map_eq_some_iff.1 h
    by_cases hkind : kind' = kind
    · subst hkind
      exact Or.inr (Or.inl ⟨stage, rfl, by rwa [Function.update_self]⟩)
    · refine Or.inr (Or.inr ⟨nofun, ?_, hother (Ne.symm hkind)⟩)
      rintro _ ⟨⟩
      exact hkind rfl

/-- The other threads stand where they stood. -/
theorem standing_of_ne {q : Ask} {crowds : Production → Crowd String}
    (h : c.grant? i q = some crowds) (hne : j ≠ i) (kind : Production) :
    (crowds kind).standing j = (c.crowds kind).standing j := by
  rcases crowds_of_grant? h kind with ⟨key, -, hc⟩ | ⟨stage, -, hc⟩ | ⟨-, -, hc⟩
  · rw [Crowd.standing_enter? hc, if_neg hne]
  · obtain ⟨-, -, -, -, -, hothers⟩ := Crowd.exists_standing_of_advance? hc
    exact hothers j hne
  · rw [hc]

/-- **A thread stands where its stack says** if it stood there before. -/
theorem standing_of_grant? {q : Ask} {crowds : Production → Crowd String}
    (h : c.grant? i q = some crowds) {stack : List Seat}
    (hstanding : (c.crowds kind).standing i = seatsOf kind stack) (hq : Allows stack q)
    (r : q.Reply) : (crowds kind).standing i = seatsOf kind (after stack q r) := by
  rcases crowds_of_grant? h kind with ⟨key, rfl, hc⟩ | ⟨stage, rfl, hc⟩ | ⟨henter, hgoOn, hc⟩
  · rw [Crowd.standing_enter? hc, if_pos rfl, hstanding]
    exact seatsOf_cons_self.symm
  · obtain ⟨key, below, rfl⟩ := hq
    obtain ⟨key', stage', below', hbefore, hafter, -⟩ := Crowd.exists_standing_of_advance? hc
    rw [hstanding, seatsOf_cons_self] at hbefore
    cases hbefore
    rw [hafter]
    exact seatsOf_advance_self.symm
  · rw [hc, hstanding, seatsOf_after hq henter hgoOn]

/-! ### The invariant -/

/-- **Threads stand where their stacks say**, and nest their sections well. -/
structure IsSeated (stackOf : Nat → List Seat) (c : Crew) : Prop where
  /-- At most one thread is inside under a key. -/
  sound : ∀ kind, (c.crowds kind).IsSound
  /-- No lock is held for nothing. -/
  regular : ∀ kind, (c.crowds kind).table.IsRegular
  /-- A thread stands where its stack says. -/
  standing : ∀ i kind, (c.crowds kind).standing i = seatsOf kind (stackOf i)
  /-- The stacks are in order. -/
  ordered : ∀ i, IsOrdered (stackOf i)
  /-- What a thread has still to do goes by the rule. -/
  follows : ∀ i (t : Task Unit), c.tasks[i]? = some t →
    t.Follows rule (fun stack _ => stack = []) (stackOf i)
  /-- Where there is no thread, there is no stack. -/
  nobody : ∀ i, c.tasks[i]? = none → stackOf i = []

theorem isSeated_start (pr : Providers) (st : Strategy) (programs : List (List Request)) :
    (start pr st programs).IsSeated fun _ => [] where
  sound _ := Crowd.isSound_empty
  regular _ _ _ h := by cases h
  standing _ _ := rfl
  ordered _ := .nil
  follows i t ht := by
    obtain ⟨requests, -, rfl⟩ := List.mem_map.1 (List.mem_of_getElem? ht)
    exact pr.follows_work st requests
  nobody _ _ := rfl

namespace IsSeated

variable {stackOf : Nat → List Seat} (hc : c.IsSeated stackOf)

include hc

/-- What a thread asks next is what it may ask. -/
theorem allows {q : Ask} {next : q.Reply → Task Unit} (htask : c.tasks[i]? = some (.ask q next)) :
    Allows (stackOf i) q :=
  (hc.follows i _ htask).1

/-- **Every step preserves the invariant.** -/
theorem step {replies : (q : Ask) → q.Reply} (h : c.step? i replies = some c') :
    ∃ stackOf', c'.IsSeated stackOf' := by
  obtain ⟨q, next, crowds, htask, hgrant, rfl⟩ := exists_of_step? h
  have hallows := hc.allows htask
  have hmoves : ∀ kind,
      (c.crowds kind).Moves (crowds kind) ∨ crowds kind = c.crowds kind := by
    intro kind
    rcases crowds_of_grant? hgrant kind with ⟨key, -, hd⟩ | ⟨stage, -, hd⟩ | ⟨-, -, hd⟩
    · exact Or.inl (Crowd.moves_of_step? ⟨.enter i key, hd⟩)
    · exact Or.inl (Crowd.moves_of_step? ⟨.advance i, hd⟩)
    · exact Or.inr hd
  have hlt : i < c.tasks.length := (List.getElem?_eq_some_iff.1 htask).1
  exact ⟨Function.update stackOf i (after (stackOf i) q (replies q)), {
    sound := fun kind => by
      change (crowds kind).IsSound
      rcases hmoves kind with hmove | hsame
      · exact (hc.sound kind).moves hmove
      · exact hsame ▸ hc.sound kind
    regular := fun kind => by
      change (crowds kind).table.IsRegular
      rcases hmoves kind with hmove | hsame
      · exact hmove.isRegular (hc.regular kind)
      · exact hsame ▸ hc.regular kind
    standing := fun j kind => by
      rcases eq_or_ne j i with rfl | hj
      · rw [Function.update_self]
        exact standing_of_grant? hgrant (hc.standing j kind) hallows _
      · rw [Function.update_of_ne hj]
        exact (standing_of_ne hgrant hj kind).trans (hc.standing j kind)
    ordered := fun j => by
      rcases eq_or_ne j i with rfl | hj
      · rw [Function.update_self]
        exact isOrdered_after (hc.ordered j) hallows _
      · rw [Function.update_of_ne hj]
        exact hc.ordered j
    follows := fun j t ht => by
      rcases eq_or_ne j i with rfl | hj
      · rw [List.getElem?_set_self hlt] at ht
        cases ht
        rw [Function.update_self]
        exact (hc.follows j _ htask).2 _
      · rw [List.getElem?_set_ne hj.symm] at ht
        rw [Function.update_of_ne hj]
        exact hc.follows j t ht
    nobody := fun j hnone => by
      rcases eq_or_ne j i with rfl | hj
      · rw [List.getElem?_set_self hlt] at hnone
        cases hnone
      · rw [List.getElem?_set_ne hj.symm] at hnone
        rw [Function.update_of_ne hj]
        exact hc.nobody j hnone }⟩

/-! ### Who waits for whom -/

/-- Who holds a lock has not finished. -/
theorem isUnfinished_of_holds (h : c.Holds j kind key) : c.IsUnfinished j := by
  have hne : stackOf j ≠ [] := by
    intro hnil
    unfold Holds at h
    rw [hc.standing, hnil] at h
    cases h
  rcases htask : c.tasks[j]? with _ | t
  · exact absurd (hc.nobody j htask) hne
  · cases t with
    | done a => exact absurd (hc.follows j _ htask) hne
    | ask q next => exact ⟨q, next, htask⟩

/-- **A thread that cannot go on waits for a lock that another one holds.** -/
theorem exists_waitsFor (hunfinished : c.IsUnfinished i) (h : ¬c.CanGoOn i) :
    ∃ j kind key, c.Awaits i kind key ∧ c.Holds j kind key := by
  obtain ⟨q, next, htask⟩ := hunfinished
  have hallows := hc.allows htask
  have hgrant := grant?_of_not_canGoOn htask h
  cases q with
  | look => cases hgrant
  | find => cases hgrant
  | store => cases hgrant
  | enter kind key =>
    -- All sections that the thread is in are of higher rank, so it is in none of this kind.
    have hnone : (c.crowds kind).standing i = [] := by
      rw [hc.standing, List.eq_nil_iff_forall_not_mem]
      rintro ⟨key', stage⟩ hmem
      exact Nat.lt_irrefl _ (hallows _ (mem_seatsOf.1 hmem)).2
    have henter := Option.map_eq_none_iff.1 hgrant
    rw [Crowd.enter?, if_pos (Crowd.isReady_of_standing_eq_nil hnone)] at henter
    cases henter
  | goOn kind stage =>
    obtain ⟨key, below, hstack⟩ := hallows
    have hstanding : (c.crowds kind).standing i = (key, stage) :: seatsOf kind below := by
      rw [hc.standing, hstack, seatsOf_cons_self]
    have hblocked := Option.map_eq_none_iff.1 hgrant
    obtain ⟨rfl, j, -, hinside⟩ := (hc.sound kind).exists_inside_of_advance?_eq_none
      (hc.regular kind) hstanding hblocked
    exact ⟨j, kind, key, ⟨⟨next, htask⟩, by rw [hstanding]; rfl, hblocked⟩, hinside⟩

/-- **Who waits holds only locks of higher rank** than the one it waits for. -/
theorem rank_lt (hholds : c.Holds j kind key) (hawaits : c.Awaits j kind' key') :
    kind'.rank < kind.rank := by
  obtain ⟨⟨next, htask⟩, -, -⟩ := hawaits
  obtain ⟨key'', below, hstack⟩ := hc.allows htask
  have hordered := hc.ordered j
  unfold Holds at hholds
  rw [hc.standing, mem_seatsOf, hstack] at hholds
  rw [hstack] at hordered
  -- The seat inside is not the innermost one, which waits.
  rcases List.mem_cons.1 hholds with heq | hbelow
  · cases heq
  · exact ((List.pairwise_cons.1 hordered).1 _ hbelow).2

/-- **Every chain of threads that wait for one another ends** in one that can go on. -/
theorem exists_canGoOn (hunfinished : c.IsUnfinished i) :
    ∃ j, Relation.ReflTransGen c.WaitsFor i j ∧ c.IsUnfinished j ∧ c.CanGoOn j := by
  -- The induction is on the rank of what the thread waits for.
  have hchain : ∀ rank i kind key, kind.rank = rank → c.Awaits i kind key →
      ∀ j, c.Holds j kind key →
        ∃ k, Relation.ReflTransGen c.WaitsFor j k ∧ c.IsUnfinished k ∧ c.CanGoOn k := by
    intro rank
    induction rank using Nat.strongRecOn with
    | ind rank ih =>
      rintro i kind key rfl - j hholds
      have hj := hc.isUnfinished_of_holds hholds
      by_cases hgoes : c.CanGoOn j
      · exact ⟨j, .refl, hj, hgoes⟩
      · obtain ⟨j', kind', key', hawaits, hholds'⟩ := hc.exists_waitsFor hj hgoes
        obtain ⟨k, hk, hends⟩ :=
          ih _ (hc.rank_lt hholds hawaits) j kind' key' rfl hawaits j' hholds'
        exact ⟨k, hk.head ⟨kind', key', hawaits, hholds'⟩, hends⟩
  by_cases hgoes : c.CanGoOn i
  · exact ⟨i, .refl, hunfinished, hgoes⟩
  · obtain ⟨j, kind, key, hawaits, hholds⟩ := hc.exists_waitsFor hunfinished hgoes
    obtain ⟨k, hk, hends⟩ := hchain _ i kind key rfl hawaits j hholds
    exact ⟨k, hk.head ⟨kind, key, hawaits, hholds⟩, hends⟩

/-- No threads wait in a ring, nor otherwise for one another alone. -/
theorem not_closed {waiting : Set Nat} (hne : waiting.Nonempty) :
    ¬∀ i ∈ waiting, ∃ j ∈ waiting, c.WaitsFor i j := by
  intro hclosed
  have hnone : ∀ rank, ∀ j ∈ waiting, ∀ kind key, kind.rank = rank → ¬c.Holds j kind key := by
    intro rank
    induction rank using Nat.strongRecOn with
    | ind rank ih =>
      rintro j hj kind key rfl hholds
      obtain ⟨k, hk, kind', key', hawaits, hholds'⟩ := hclosed j hj
      exact ih _ (hc.rank_lt hholds hawaits) k hk kind' key' rfl hholds'
  obtain ⟨i, hi⟩ := hne
  obtain ⟨j, hj, kind, key, -, hholds⟩ := hclosed i hi
  exact hnone _ j hj kind key rfl hholds

end IsSeated

variable {pr : Providers} {st : Strategy} {programs : List (List Request)}

theorem Reachable.exists_isSeated (h : Reachable pr st programs c) :
    ∃ stackOf, c.IsSeated stackOf := by
  induction h with
  | refl => exact ⟨_, isSeated_start pr st programs⟩
  | tail _ hstep ih =>
    obtain ⟨stackOf, hc⟩ := ih
    obtain ⟨i, replies, hstep⟩ := hstep
    exact hc.step hstep

/-- **No deadlock.** Whatever requests any number of threads work through on one store, however
their steps are interleaved and whatever is replied, seen and hashed: from a thread that has not
finished, those it waits for, those they wait for and so on lead to a thread that has not finished
and can take a step. And there are never threads that all wait for locks held among themselves. -/
theorem Reachable.no_deadlock (h : Reachable pr st programs c) :
    (∀ i, c.IsUnfinished i →
      ∃ j, Relation.ReflTransGen c.WaitsFor i j ∧ c.IsUnfinished j ∧ c.CanGoOn j) ∧
    ∀ waiting : Set Nat, waiting.Nonempty → ¬∀ i ∈ waiting, ∃ j ∈ waiting, c.WaitsFor i j := by
  obtain ⟨stackOf, hc⟩ := Reachable.exists_isSeated h
  exact ⟨fun i hi => hc.exists_canGoOn hi, fun waiting hne => hc.not_closed hne⟩

/-! ### Threads that wait for threads that wait -/

/-- What is seen of an empty world and an empty store. -/
def nothingThere : (q : Ask) → q.Reply
  | .look => .empty
  | .find _ _ => none
  | .store _ _ _ => ()
  | .enter _ _ => ()
  | .goOn _ _ => ()

/-- Threads take steps one after the other, while nothing is there. -/
def run? (c : Crew) (moves : List Nat) : Option Crew :=
  moves.foldlM (fun c i => c.step? i nothingThere) c

theorem reachable_of_run? {moves : List Nat} (h : (start pr st programs).run? moves = some c) :
    Reachable pr st programs c :=
  Relation.ReflTransGen.mono (fun _ _ ⟨i, hstep⟩ => ⟨i, nothingThere, hstep⟩) _ _
    (reflTransGen_of_foldlM h)

/-- Whether a thread waits for the lock of a key, as can be computed. -/
def awaits (c : Crew) (i : Nat) (kind : Production) (key : String) : Bool :=
  (match c.tasks[i]? with
    | some (.ask (.goOn kind' .waiting) _) => kind' = kind
    | _ => false) &&
  ((c.crowds kind).standing i).head? = some (key, .waiting) && ((c.crowds kind).advance? i).isNone

theorem awaits_of_awaits (h : c.awaits i kind key = true) : c.Awaits i kind key := by
  simp only [awaits, Bool.and_eq_true, decide_eq_true_eq, Option.isNone_iff_eq_none] at h
  obtain ⟨⟨htask, hstanding⟩, hblocked⟩ := h
  refine ⟨?_, hstanding, hblocked⟩
  split at htask
  · rename_i next htask'
    obtain rfl := of_decide_eq_true htask
    exact ⟨next, htask'⟩
  · cases htask

/-- Two aggregates and an entry of one path: the second waits for the first, the first for the
third, and the third can go on. -/
theorem Reachable.no_deadlock_of_chain : ∃ c : Crew,
    Reachable .native .default
      [[.aggregate (.ofString "/a")], [.aggregate (.ofString "/a")], [.entry (.ofString "/a")]] c ∧
    c.WaitsFor 1 0 ∧ c.WaitsFor 0 2 ∧ c.IsUnfinished 1 ∧
    (∃ j, Relation.ReflTransGen c.WaitsFor 1 j ∧ c.IsUnfinished j ∧ c.CanGoOn j) ∧
    ∀ waiting : Set Nat, waiting.Nonempty → ¬∀ i ∈ waiting, ∃ j ∈ waiting, c.WaitsFor i j := by
  have hrun : ((start .native .default [[.aggregate (.ofString "/a")],
      [.aggregate (.ofString "/a")], [.entry (.ofString "/a")]]).run?
        [2, 2, 2, 2, 0, 0, 0, 0, 0, 0, 0, 0, 1, 1, 1]).any (fun c =>
        c.awaits 1 .aggregate "/a" && ("/a", .inside) ∈ (c.crowds .aggregate).standing 0 &&
        c.awaits 0 .entry "/a" && ("/a", .inside) ∈ (c.crowds .entry).standing 2) = true := by
    decide +kernel
  obtain ⟨c, hc, hwaits⟩ := (Option.any_eq_true _ _).1 hrun
  simp only [Bool.and_eq_true, decide_eq_true_eq] at hwaits
  obtain ⟨⟨⟨hone, hzero⟩, hzero'⟩, htwo⟩ := hwaits
  have hwaits := awaits_of_awaits hone
  have hreachable := reachable_of_run? hc
  have hunfinished : c.IsUnfinished 1 := ⟨_, hwaits.1⟩
  obtain ⟨hends, hnone⟩ := Reachable.no_deadlock hreachable
  exact ⟨c, hreachable, ⟨_, _, hwaits, hzero⟩, ⟨_, _, awaits_of_awaits hzero', htwo⟩, hunfinished,
    hends 1 hunfinished, hnone⟩

end Crew

end SnapStore
