import SnapStore.Proofs.Lock.Exclusion

/-!
# Keys that stay in the table

A key is to leave the table with the last lease that needs it. Whether it does is decided by the
number of references at the moment when a lease is retired, and that lease drops its reference
only later. If two leases on one lock are both retired before the first of them drops its
reference, each of them counts the other: neither takes the key out of the table, and when both
are gone nobody is left to do it (`SnapStore.Crowd.Strands`).

Such a key is found by the next thread that wants it, which uses the old lock and may take the key
out of the table after all. So the keys that are left at a moment depend on the way in which the
crowd has come there, and `SnapStore.Crowd.History` keeps account of them beside it. The account is
exact: what is in the table is what some lease needs and what was left
(`SnapStore.Crowd.History.accounts`).
-/

namespace SnapStore.Crowd

/-- Whether one of these leases needs the lock of a key. -/
def IsNeeded {κ : Type} (ls : List (Lease κ)) (key : κ) : Prop :=
  ∃ l ∈ ls, l.key = key ∧ l.stage ≠ .retired

/-- **In this step a key is left behind**: the last lease that needs it is retired, while another
lease on the same lock, retired before, has its reference still. -/
def Strands {κ : Type} (c c' : Crowd κ) (key : κ) : Prop :=
  ¬IsNeeded c'.leases key ∧ ∃ l ∈ c.leases, l.key = key ∧ l.stage ≠ .retired ∧
    2 ≤ leasesOn c'.leases l.lock

/-- The keys that are left behind after a step: those that it leaves, and of those that were left
before it the ones that nobody needs now. -/
def leftAfter {κ : Type} (c c' : Crowd κ) (left : κ → Prop) (key : κ) : Prop :=
  Strands c c' key ∨ left key ∧ ¬IsNeeded c'.leases key

variable {κ : Type} [DecidableEq κ]

/-- What can come about, with the keys that were left behind and that nobody has needed since. -/
inductive History : Crowd κ → (κ → Prop) → Prop
  | start : History .empty fun _ => False
  | step {c c' : Crowd κ} {left : κ → Prop} (h : History c left) (hstep : c.Step c') :
    History c' (leftAfter c c' left)

variable {c c' : Crowd κ} {left : κ → Prop} {key : κ} {front rest : List (Lease κ)} {l : Lease κ}

theorem Reachable.exists_history (h : c.Reachable) : ∃ left, History c left := by
  induction h with
  | refl => exact ⟨_, .start⟩
  | tail _ hstep ih =>
    obtain ⟨left, hleft⟩ := ih
    exact ⟨_, hleft.step hstep⟩

theorem History.reachable (h : History c left) : c.Reachable := by
  induction h with
  | start => exact .refl
  | step _ hstep ih => exact ih.tail hstep

/-! ### Who needs a key after a step -/

omit [DecidableEq κ] in
theorem isNeeded_cons (l : Lease κ) (ls : List (Lease κ)) :
    IsNeeded (l :: ls) key ↔ l.key = key ∧ l.stage ≠ .retired ∨ IsNeeded ls key := by
  simp [IsNeeded]

omit [DecidableEq κ] in
/-- It makes no difference where among the others a lease stands, -/
theorem isNeeded_middle (front rest : List (Lease κ)) (l : Lease κ) :
    IsNeeded (front ++ l :: rest) key ↔
      l.key = key ∧ l.stage ≠ .retired ∨ IsNeeded (front ++ rest) key := by
  rw [← isNeeded_cons]
  exact exists_congr fun m => and_congr_left' List.perm_middle.mem_iff

omit [DecidableEq κ] in
/-- or how far it has come, as long as it is retired in both stages or in none. -/
theorem isNeeded_stage (front rest : List (Lease κ)) {stage : Stage}
    (h : l.key = key → (stage ≠ .retired ↔ l.stage ≠ .retired)) :
    IsNeeded (front ++ { l with stage := stage } :: rest) key ↔
      IsNeeded (front ++ l :: rest) key := by
  rw [isNeeded_middle, isNeeded_middle]
  exact or_congr_left (and_congr_right h)

/-! ### The account is exact -/

/-- A key is in the table if somebody needs it or if it was left behind, and not both. -/
structure Accounts (c : Crowd κ) (left : κ → Prop) (key : κ) : Prop where
  /-- What is in the table. -/
  found : (c.table.find? key).isSome ↔ IsNeeded c.leases key ∨ left key
  /-- Nobody needs what was left behind. -/
  idle : left key → ¬IsNeeded c.leases key

namespace Accounts

/-- A step that neither takes the key in or out of the table nor changes whether it is needed. -/
theorem of_iff (h : Accounts c left key) (hfind : c'.table.find? key = c.table.find? key)
    (hneeded : IsNeeded c'.leases key ↔ IsNeeded c.leases key) :
    Accounts c' (leftAfter c c' left) key := by
  have hleft : leftAfter c c' left key ↔ left key := by
    constructor
    · rintro (⟨hidle, l, hl, hkey, hstage, -⟩ | ⟨hleft, -⟩)
      · exact absurd (hneeded.2 ⟨l, hl, hkey, hstage⟩) hidle
      · exact hleft
    · intro hleft
      exact Or.inr ⟨hleft, fun hneeded' => h.idle hleft (hneeded.1 hneeded')⟩
  constructor
  · rw [hfind, h.found, hneeded, hleft]
  · intro hleft' hneeded'
    exact h.idle (hleft.1 hleft') (hneeded.1 hneeded')

/-- A key that is needed after the step, and is in the table. -/
theorem of_isNeeded (hneeded : IsNeeded c'.leases key) (hfind : (c'.table.find? key).isSome) :
    Accounts c' (leftAfter c c' left) key where
  found := iff_of_true hfind (Or.inl hneeded)
  idle := by
    rintro (⟨hidle, -⟩ | ⟨-, hidle⟩)
    · exact hidle
    · exact hidle

/-- A key leaves the table or stays there when a lease on its lock is retired: it stays if the lock
has other references, and if they are those of retired leases, then nobody needs it any more. -/
theorem retire (hc : c.IsSound) (hleases : c.leases = front ++ l :: rest)
    (hstage : l.stage = .leaving) (h : Accounts c left l.key)
    (hc' : c' = ⟨c.table.retire l.key l.lock, front ++ { l with stage := .retired } :: rest⟩) :
    Accounts c' (leftAfter c c' left) l.key := by
  have hl : l ∈ c.leases := hleases ▸ mem_middle.2 (Or.inl rfl)
  have hlive : l.stage ≠ .retired := by simp [hstage]
  have hfound := hc.found l hl hlive
  obtain ⟨k, hk, hcount⟩ := hc.exists_lock hl hlive
  by_cases href : k.references = 2
  · have hnone : c'.table.find? l.key = none := by
      rw [hc', LockTable.find?_retire_of_eq_two hk href, if_pos rfl]
    have hidle : ¬IsNeeded c'.leases l.key := by
      rintro ⟨m, hm, hkey, hstage'⟩
      have hm' := (hc' ▸ hc.retire hleases hstage : c'.IsSound).found m hm hstage'
      rw [hkey, hnone] at hm'
      cases hm'
    have hstays : ¬leftAfter c c' left l.key := by
      rintro (⟨-, m, hm, hkey, hstage', htwo⟩ | ⟨hleft, -⟩)
      · -- All leases that need the key are on its lock, and there is only one.
        rw [hc.lock_eq hm hl hstage' hlive hkey, hc', leasesOn_stage, ← hleases] at htwo
        omega
      · exact h.idle hleft ⟨l, hl, rfl, hlive⟩
    refine ⟨iff_of_false (by simp [hnone]) ?_, fun hleft => absurd hleft hstays⟩
    exact not_or.2 ⟨hidle, hstays⟩
  · have hsome : (c'.table.find? l.key).isSome := by
      rw [hc', LockTable.retire_of_ne_two hk href, hfound]
      rfl
    by_cases hneeded : IsNeeded c'.leases l.key
    · exact .of_isNeeded hneeded hsome
    · have hpos := leasesOn_pos hl
      have hstrands : Strands c c' l.key := by
        refine ⟨hneeded, l, hl, rfl, hlive, ?_⟩
        rw [hc', leasesOn_stage, ← hleases]
        omega
      exact ⟨iff_of_true hsome (Or.inr (Or.inl hstrands)), fun _ => hneeded⟩

/-- **Every move keeps the account.** -/
theorem moves (hc : c.IsSound) (h : ∀ key, Accounts c left key) (hmoves : c.Moves c') (key : κ) :
    Accounts c' (leftAfter c c' left) key := by
  rcases hmoves with ⟨thread, key'⟩ | @⟨front, rest, l, t, hleases, hstage, ht⟩ |
    @⟨front, rest, l, hleases, hstage⟩ | @⟨front, rest, l, hleases, hstage⟩ |
    @⟨front, rest, l, hleases, hstage⟩
  · by_cases hkey : key' = key
    · refine .of_isNeeded ((isNeeded_cons _ _).2 (Or.inl ⟨hkey, by simp⟩)) ?_
      rw [hkey, LockTable.find?_lease, if_pos rfl]
      rfl
    · refine (h key).of_iff ?_ ?_
      · rw [LockTable.find?_lease, if_neg (Ne.symm hkey)]
      · rw [isNeeded_cons]
        exact or_iff_right fun hnew => hkey hnew.1
  · obtain ⟨-, rfl⟩ := LockTable.acquire?_eq_some_iff.1 ht
    refine (h key).of_iff rfl ?_
    rw [hleases]
    exact isNeeded_stage front rest fun _ => by simp [hstage]
  · refine (h key).of_iff rfl ?_
    rw [hleases]
    exact isNeeded_stage front rest fun _ => by simp [hstage]
  · by_cases hkey : l.key = key
    · subst hkey
      exact (h l.key).retire hc hleases hstage rfl
    · refine (h key).of_iff (LockTable.find?_retire_of_ne _ _ (Ne.symm hkey)) ?_
      rw [hleases]
      exact isNeeded_stage front rest fun heq => absurd heq hkey
  · refine (h key).of_iff rfl ?_
    rw [hleases, isNeeded_middle]
    exact (or_iff_right fun hnew => hnew.2 hstage).symm

end Accounts

theorem History.accounts (h : History c left) (key : κ) : Accounts c left key := by
  induction h generalizing key with
  | start => exact ⟨by simp [empty, LockTable.empty, LockTable.find?, IsNeeded], False.elim⟩
  | step h hstep ih => exact Accounts.moves h.reachable.isSound ih (moves_of_step? hstep) key

/-! ### What is left when everybody has gone -/

/-- **What the table holds at any time**: the keys that somebody needs, and those that were left
behind. In particular it is empty after all sections if and only if no key was left. -/
theorem Reachable.leftover (h : c.Reachable) :
    (∃ left, History c left) ∧ ∀ left, History c left →
      (∀ key, (c.table.keys.lookup key).isSome ↔ IsNeeded c.leases key ∨ left key) ∧
      (c.leases = [] → (c.table.inFlight = 0 ↔ ∀ key, ¬left key)) := by
  refine ⟨h.exists_history, fun left hleft => ⟨fun key => (hleft.accounts key).found, ?_⟩⟩
  intro hgone
  rw [LockTable.inFlight_eq_zero]
  refine forall_congr' fun key => ?_
  have hidle : ¬IsNeeded c.leases key := by simp [hgone, IsNeeded]
  rw [← Option.not_isSome_iff_eq_none, (hleft.accounts key).found, or_iff_right hidle]

/-- Two threads leave the section of a key, and look at the references one directly after the
other. Everybody is gone then, and the key is still there. -/
theorem Reachable.leftover_of_both_retired :
    ∃ c : Crowd Nat, c.Reachable ∧ c.leases = [] ∧ c.table.inFlight = 1 ∧
      ∃ left, History c left ∧ ∃ key, left key := by
  have hrun : (empty : Crowd Nat).run? [.enter 1 7, .enter 2 7, .advance 1, .advance 1, .advance 2,
      .advance 2, .advance 1, .advance 2, .advance 1, .advance 2] =
      some ⟨⟨[(7, 0)], [⟨none, 0, 1⟩]⟩, []⟩ := rfl
  have h := reachable_of_run? .refl hrun
  obtain ⟨⟨left, hleft⟩, hall⟩ := Reachable.leftover h
  refine ⟨_, h, rfl, rfl, left, hleft, ?_⟩
  have hiff := (hall left hleft).2 rfl
  by_contra hnone
  exact absurd (hiff.2 (not_exists.1 hnone)) (by decide)

end SnapStore.Crowd
