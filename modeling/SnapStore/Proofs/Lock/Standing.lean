import SnapStore.Proofs.Lock.Exclusion

/-!
# Where a thread stands

A crowd lists the leases of all threads together. What a single thread knows of it is where it
stands (`SnapStore.Crowd.standing`): the keys of the sections that it is in, and how far it has come
in each of them, the innermost first. A move of one thread changes where that thread stands and
nothing else (`SnapStore.Crowd.standing_enter?`, `SnapStore.Crowd.exists_standing_of_advance?`).

A thread that cannot go on waits for a lock that another thread holds, and that one is inside under
the same key (`SnapStore.Crowd.exists_inside_of_advance?_eq_none`). That the lock is not held by
somebody who has gone away needs one more invariant than exclusion does
(`SnapStore.LockTable.IsRegular`).
-/

namespace SnapStore

/-! ### Locks with an owner -/

/-- A lock that has an owner has been taken. -/
def Lock.IsRegular (k : Lock) : Prop := k.owner ≠ none → 0 < k.depth

namespace LockTable

variable {κ : Type} {t : LockTable κ}

/-- **No lock is held for nothing.** -/
def IsRegular (t : LockTable κ) : Prop := ∀ id k, t.lock? id = some k → k.IsRegular

theorem IsRegular.modify (h : t.IsRegular) (id : Nat) {f : Lock → Lock}
    (hf : ∀ k : Lock, k.IsRegular → (f k).IsRegular) : (t.modify id f).IsRegular := by
  intro other k' hk'
  obtain ⟨k, hk, ⟨-, rfl⟩ | ⟨-, rfl⟩⟩ := exists_lock?_of_modify hk'
  · exact hf k (h other k hk)
  · exact h other k' hk

theorem IsRegular.release (h : t.IsRegular) (id : Nat) : (t.release id).IsRegular := by
  refine h.modify id fun k _ howner => ?_
  change (if k.depth ≤ 1 then none else k.owner) ≠ none at howner
  change 0 < k.depth - 1
  split_ifs at howner
  · exact absurd rfl howner
  · omega

variable [DecidableEq κ]

theorem IsRegular.lease (h : t.IsRegular) (key : κ) : (t.lease key).2.IsRegular := by
  rcases hfind : t.find? key with _ | id
  · intro other k hk
    by_cases hother : other = (t.lease key).1
    · rw [hother, lock?_lease_self hfind] at hk
      cases hk
      exact fun howner => absurd rfl howner
    · rw [lock?_lease_of_ne hfind hother] at hk
      exact h other k hk
  · rw [lease_of_find? hfind]
    exact h.modify id fun _ hk => hk

theorem IsRegular.retire (h : t.IsRegular) (key : κ) (id : Nat) : (t.retire key id).IsRegular := by
  unfold LockTable.retire
  split_ifs
  · have hkeys : IsRegular { t with keys := t.keys.filter fun e => !(e.1 == key) } := h
    exact hkeys.modify id fun _ hk => hk
  · exact h

end LockTable

/-- What comes after a stage of a section, if anything does. -/
def Stage.next? : Stage → Option Stage
  | .waiting => some .inside
  | .inside => some .leaving
  | .leaving => some .retired
  | .retired => none

namespace Lease

variable {κ : Type} [DecidableEq κ] {l : Lease κ} {t : LockTable κ}

/-- What becomes of a lease is that it comes to its next stage. -/
theorem snd_of_next? {r : LockTable κ × Option (Lease κ)} (h : l.next? t = some r) :
    r.2 = l.stage.next?.map fun stage => { l with stage := stage } := by
  unfold next? at h
  cases hstage : l.stage with
  | waiting =>
    rw [hstage] at h
    obtain ⟨t', -, rfl⟩ := Option.map_eq_some_iff.1 h
    rfl
  | inside =>
    rw [hstage] at h
    cases h
    rfl
  | leaving =>
    rw [hstage] at h
    cases h
    rfl
  | retired =>
    rw [hstage] at h
    cases h
    rfl

/-- Nothing but a lock keeps a thread from going on. -/
theorem waiting_of_next?_eq_none (h : l.next? t = none) :
    l.stage = .waiting ∧ t.acquire? l.thread l.lock = none := by
  unfold next? at h
  cases hstage : l.stage with
  | waiting =>
    rw [hstage] at h
    exact ⟨rfl, Option.map_eq_none_iff.1 h⟩
  | inside =>
    rw [hstage] at h
    cases h
  | leaving =>
    rw [hstage] at h
    cases h
  | retired =>
    rw [hstage] at h
    cases h

end Lease

namespace Crowd

variable {κ : Type}

/-- **Where a thread stands**: the sections that it is in, the innermost first. -/
def standing (c : Crowd κ) (thread : Nat) : List (κ × Stage) :=
  (c.leases.filter (·.thread = thread)).map fun l => (l.key, l.stage)

variable {c c' : Crowd κ} {thread : Nat} {key : κ}

theorem mem_standing {stage : Stage} :
    (key, stage) ∈ c.standing thread ↔
      ∃ l ∈ c.leases, l.thread = thread ∧ l.key = key ∧ l.stage = stage := by
  simp [standing, and_assoc]

/-- Leases of others are of no account. -/
theorem standing_append {front rest : List (Lease κ)} {t : LockTable κ} (other : Nat) :
    standing ⟨t, front ++ rest⟩ other = standing ⟨t, front⟩ other ++ standing ⟨t, rest⟩ other := by
  simp [standing]

theorem standing_of_forall_ne {ls : List (Lease κ)} {t : LockTable κ}
    (h : ∀ l ∈ ls, l.thread ≠ thread) : standing ⟨t, ls⟩ thread = [] := by
  have hnone : ls.filter (·.thread = thread) = [] := by simpa using h
  rw [standing, hnone]
  rfl

theorem standing_cons_self {l : Lease κ} {ls : List (Lease κ)} {t : LockTable κ}
    (h : l.thread = thread) :
    standing ⟨t, l :: ls⟩ thread = (l.key, l.stage) :: standing ⟨t, ls⟩ thread := by
  simp [standing, h]

theorem standing_cons_of_ne {l : Lease κ} {ls : List (Lease κ)} {t : LockTable κ}
    (h : l.thread ≠ thread) : standing ⟨t, l :: ls⟩ thread = standing ⟨t, ls⟩ thread := by
  simp [standing, h]

/-- The lease that goes on when a thread does is its first one. -/
theorem exists_first_of_standing {stage : Stage} {below : List (κ × Stage)}
    (h : c.standing thread = (key, stage) :: below) :
    ∃ front l rest, c.leases = front ++ l :: rest ∧ (∀ m ∈ front, m.thread ≠ thread) ∧
      l.thread = thread ∧ l.key = key ∧ l.stage = stage := by
  obtain ⟨t, ls⟩ := c
  induction ls with
  | nil => cases h
  | cons l ls ih =>
    by_cases hl : l.thread = thread
    · rw [standing_cons_self hl] at h
      obtain ⟨hkey, hstage⟩ := Prod.mk.inj (List.cons.inj h).1
      exact ⟨[], l, ls, rfl, by simp, hl, hkey, hstage⟩
    · rw [standing_cons_of_ne hl] at h
      obtain ⟨front, m, rest, hleases, hfront, hm⟩ := ih h
      refine ⟨l :: front, m, rest, congrArg (l :: ·) hleases, ?_, hm⟩
      rintro n hn
      rcases List.mem_cons.1 hn with rfl | hn
      · exact hl
      · exact hfront n hn

/-- A thread that stands nowhere can begin a section. -/
theorem isReady_of_standing_eq_nil (h : c.standing thread = []) : c.isReady thread = true := by
  have hnone : c.leases.find? (·.thread = thread) = none := by
    simpa [standing, List.find?_eq_none] using h
  rw [isReady, hnone]
  rfl

variable [DecidableEq κ]

theorem advanceIn?_of_first {t : LockTable κ} {front rest : List (Lease κ)} {l : Lease κ}
    (hfront : ∀ m ∈ front, m.thread ≠ thread) (hl : l.thread = thread) :
    advanceIn? t thread (front ++ l :: rest) =
      (l.next? t).map fun r => ⟨r.1, front ++ (r.2.toList ++ rest)⟩ := by
  induction front with
  | nil => exact if_pos hl
  | cons m front ih =>
    have hm := hfront m (List.mem_cons_self ..)
    have hrest := ih fun n hn => hfront n (List.mem_cons_of_mem m hn)
    rw [List.cons_append, advanceIn?, if_neg hm, hrest, Option.map_map]
    rfl

/-- **A thread that begins a section** waits there, and the others stand where they stood. -/
theorem standing_enter? (h : c.enter? thread key = some c') (other : Nat) :
    c'.standing other =
      if other = thread then (key, .waiting) :: c.standing other else c.standing other := by
  unfold enter? at h
  split_ifs at h
  cases h
  by_cases hother : other = thread
  · rw [if_pos hother]
    exact standing_cons_self hother.symm
  · rw [if_neg hother]
    exact standing_cons_of_ne (Ne.symm hother)

/-- **A thread that goes on** comes to the next stage of its innermost section, and the others stand
where they stood. -/
theorem exists_standing_of_advance? (h : c.advance? thread = some c') :
    ∃ key stage below, c.standing thread = (key, stage) :: below ∧
      c'.standing thread = (stage.next?.map (key, ·)).toList ++ below ∧
      ∀ other, other ≠ thread → c'.standing other = c.standing other := by
  obtain ⟨front, l, rest, r, hleases, hfront, hl, hr, rfl⟩ := exists_next?_of_advanceIn? h
  have hself : ∀ t, standing ⟨t, front⟩ thread = [] := fun t => standing_of_forall_ne hfront
  have hmoved : ∀ t other, standing ⟨t, r.2.toList⟩ other =
      if other = thread then (l.stage.next?.map (l.key, ·)).toList else [] := by
    intro t other
    rw [Lease.snd_of_next? hr]
    cases l.stage.next? with
    | none => exact (ite_self _).symm
    | some stage =>
      by_cases hother : other = thread
      · rw [if_pos hother]
        exact standing_cons_self (hl.trans hother.symm)
      · rw [if_neg hother]
        exact standing_cons_of_ne fun h => hother (h.symm.trans hl)
  have hbefore : ∀ other, c.standing other = standing ⟨c.table, front ++ l :: rest⟩ other :=
    fun other => by rw [← hleases]
  refine ⟨l.key, l.stage, standing ⟨c.table, rest⟩ thread, ?_, ?_, fun other hother => ?_⟩
  · rw [hbefore, standing_append, hself, standing_cons_self hl]
    rfl
  · rw [standing_append, hself, standing_append, hmoved, if_pos rfl]
    rfl
  · have hne : l.thread ≠ other := fun h => hother (h.symm.trans hl)
    rw [hbefore, standing_append, standing_append, standing_append, hmoved, if_neg hother,
      standing_cons_of_ne hne]
    rfl

/-! ### Exclusion -/

namespace IsSound

variable {thread' : Nat}

/-- Threads that stand inside under one key are one thread. -/
theorem eq_of_inside (hc : c.IsSound) (h : (key, .inside) ∈ c.standing thread)
    (h' : (key, .inside) ∈ c.standing thread') : thread = thread' := by
  obtain ⟨l, hl, rfl, hkey, hstage⟩ := mem_standing.1 h
  obtain ⟨m, hm, rfl, hkey', hstage'⟩ := mem_standing.1 h'
  exact hc.thread_eq hl hm hstage hstage' (hkey.trans hkey'.symm)

/-- **Who has to wait waits for somebody inside.** -/
theorem exists_inside_of_advance?_eq_none (hc : c.IsSound) (ht : c.table.IsRegular) {stage : Stage}
    {below : List (κ × Stage)} (hstanding : c.standing thread = (key, stage) :: below)
    (h : c.advance? thread = none) :
    stage = .waiting ∧ ∃ other, other ≠ thread ∧ (key, .inside) ∈ c.standing other := by
  obtain ⟨front, l, rest, hleases, hfront, rfl, rfl, rfl⟩ := exists_first_of_standing hstanding
  have hl : l ∈ c.leases := hleases ▸ mem_middle.2 (Or.inl rfl)
  unfold advance? at h
  rw [hleases, advanceIn?_of_first hfront rfl] at h
  obtain ⟨hstage, hheld⟩ := Lease.waiting_of_next?_eq_none (Option.map_eq_none_iff.1 h)
  refine ⟨hstage, ?_⟩
  obtain ⟨k, hk⟩ := hc.lock l hl
  have hlive : l.stage ≠ .retired := by simp [hstage]
  obtain ⟨owner, howner, hne⟩ : ∃ owner, k.owner = some owner ∧ owner ≠ l.thread := by
    by_contra hcon
    push Not at hcon
    have hfree : k.owner = none ∨ k.owner = some l.thread := by
      cases ho : k.owner with
      | none => exact Or.inl rfl
      | some owner => exact Or.inr (congrArg some (hcon owner ho))
    have htaken := LockTable.acquire?_eq_some_iff.2 ⟨⟨k, hk, hfree⟩, rfl⟩
    rw [htaken] at hheld
    cases hheld
  -- The lock has been taken, and whoever has taken it is inside with a lease on it.
  have hdepth : 0 < insideOn c.leases l.lock := by
    rw [← hc.depth l.lock k hk]
    exact ht l.lock k hk (by simp [howner])
  obtain ⟨m, hm, hinside⟩ := List.countP_pos_iff.1 hdepth
  obtain ⟨hlock, hmstage⟩ : m.lock = l.lock ∧ m.stage = .inside := by simpa using hinside
  have hkey : m.key = l.key := by
    have hmfound := hc.found m hm (by simp [hmstage])
    rw [hlock] at hmfound
    exact hc.injective m.key l.key l.lock hmfound (hc.found l hl hlive)
  have hmowner := hc.owner m hm hmstage k (hlock ▸ hk)
  refine ⟨m.thread, ?_, mem_standing.2 ⟨m, hm, rfl, hkey, hmstage⟩⟩
  rw [howner] at hmowner
  exact fun heq => hne ((Option.some.inj hmowner).trans heq)

end IsSound

/-- **Every move preserves that no lock is held for nothing.** -/
theorem Moves.isRegular (h : c.Moves c') (hc : c.table.IsRegular) : c'.table.IsRegular := by
  rcases h with ⟨thread, key⟩ | ⟨-, -, ht⟩ | ⟨-, -⟩ | ⟨-, -⟩ | ⟨-, -⟩
  · exact hc.lease key
  · obtain ⟨-, rfl⟩ := LockTable.acquire?_eq_some_iff.1 ht
    exact hc.modify _ fun k _ _ => Nat.succ_pos k.depth
  · exact hc.release _
  · exact hc.retire _ _
  · exact hc.modify _ fun _ hk => hk

end Crowd

end SnapStore
