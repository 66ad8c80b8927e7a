import SnapStore.Lock.Section
import SnapStore.Proofs.Lock.Alone

/-!
# Sections that leave no trace

`SnapStore.Section.perform` does a section on a table of locks. As long as one thread does all of
it, the locks might as well not be there: `SnapStore.Section.unlocked?` reads off a section what its
caller sees, and the trace with the number of different keys around each moment, and on a fresh
table that is what comes of it (`SnapStore.Section.start_eq_of_unlocked?`).

The steps before a section and those after it are two and three moves of a crowd of one thread
(`SnapStore.Crowd.IsAlone.exists_enter`, `SnapStore.Crowd.IsAlone.exists_leave`), which come back to
the leases that there were.
-/

namespace SnapStore

/-! ### Entering and leaving -/

namespace Crowd

namespace IsAlone

variable {κ : Type} [DecidableEq κ] {c : Crowd κ} {thread : Nat} {key : κ} {ls : List (Lease κ)}

/-- A thread that is inside of all its sections gets into another one. -/
theorem exists_enter (h : c.IsAlone thread) (hinside : ∀ l ∈ c.leases, l.stage = .inside)
    (key : κ) :
    ∃ (id : Nat) (c' : Crowd κ), c.table.enter? thread key = some (id, c'.table) ∧
      c'.IsAlone thread ∧
      c'.leases = ⟨thread, key, id, .inside⟩ :: c.leases := by
  obtain ⟨c₁, henter⟩ := Option.isSome_iff_exists.1 ((h.isSome_enter?_iff key).2 hinside)
  have h₁ := h.enter? henter
  have hleases := leases_of_enter? henter
  have htable : c₁.table = (c.table.lease key).2 := by
    unfold Crowd.enter? at henter
    split_ifs at henter
    cases henter
    rfl
  obtain ⟨c₂, hadvance⟩ := Option.isSome_iff_exists.1 (h₁.isSome_advance? (by simp [hleases]))
  have h₂ := h₁.advance? hadvance
  rw [h₁.advance?_eq hleases, Lease.next?, htable, Option.map_map] at hadvance
  obtain ⟨t, ht, rfl⟩ := Option.map_eq_some_iff.1 hadvance
  refine ⟨(c.table.lease key).1, _, ?_, h₂, rfl⟩
  simp [LockTable.enter?, ht]

/-- A thread gets out of the innermost of its sections. -/
theorem exists_leave (h : c.IsAlone thread) {id : Nat}
    (hleases : c.leases = ⟨thread, key, id, .inside⟩ :: ls) :
    ∃ c' : Crowd κ, c'.table = c.table.leave key id ∧ c'.IsAlone thread ∧ c'.leases = ls := by
  have h₁ : IsAlone ⟨c.table.release id, ⟨thread, key, id, .leaving⟩ :: ls⟩ thread :=
    h.advance? (by rw [h.advance?_eq hleases]; rfl)
  have h₂ : IsAlone ⟨(c.table.release id).retire key id,
      ⟨thread, key, id, .retired⟩ :: ls⟩ thread :=
    h₁.advance? (by rw [h₁.advance?_eq rfl]; rfl)
  have h₃ : IsAlone ⟨c.table.leave key id, ls⟩ thread :=
    h₂.advance? (by rw [h₂.advance?_eq rfl]; rfl)
  exact ⟨_, rfl, h₃, rfl⟩

end IsAlone

end Crowd

namespace Section

variable {α : Type}

/-! ### Without locks -/

/-- What the caller of a section sees of the way it ends. -/
def Return.ofEnding (key : String) (inner : List (Return α)) : Ending α → Return α
  | .panic => .panicked key
  | .failure e => .failed e inner
  | .value a => .value a inner

/-- What a section writes when it is about to return, if so many keys are in flight. -/
def marksOfEnding (key : String) (inFlight : Nat) : Ending α → List Mark
  | .panic => []
  | _ => [⟨.leave, key, inFlight⟩]

mutual

/-- What comes of a section inside of others, and the trace that it writes, if this thread does
it. -/
def unlocked? (around : List String) : Section α → Option (Return α × List Mark)
  | .run key inner ending =>
    (unlockedAll? (key :: around) inner).map fun r =>
      (.ofEnding key r.1 ending,
        ⟨.enter, key, (key :: around).toFinset.card⟩ :: r.2 ++
          marksOfEnding key (key :: around).toFinset.card ending ++
            [⟨.after, key, around.toFinset.card⟩])
  | .spawn _ => none
  | .contend _ _ => none

/-- The same for sections that are done one after the other. -/
def unlockedAll? (around : List String) : List (Section α) → Option (List (Return α) × List Mark)
  | [] => some ([], [])
  | s :: rest =>
    (unlocked? around s).bind fun r =>
      (unlockedAll? around rest).map fun rs => (r.1 :: rs.1, r.2 ++ rs.2)

end

/-! ### With locks -/

theorem openKeys_of_inside {c : Crowd String} (h : ∀ l ∈ c.leases, l.stage = .inside) :
    c.openKeys = c.leases.map (·.key) := by
  have hall : c.leases.filter (·.stage ≠ .retired) = c.leases :=
    List.filter_eq_self.2 fun l hl => by simp [h l hl]
  rw [Crowd.openKeys, hall]

mutual

/-- **A section does what it would do without locks**, and leaves the thread where it was. -/
theorem perform_of_unlocked? (s : Section α) {c : Crowd String} (hc : c.IsAlone thisThread)
    (hinside : ∀ l ∈ c.leases, l.stage = .inside) {r : Return α × List Mark}
    (h : unlocked? (c.leases.map (·.key)) s = some r) (earlier : List Mark) :
    ∃ c' : Crowd String,
      perform ⟨c.table, earlier⟩ s = (r.1, ⟨c'.table, r.2.reverse ++ earlier⟩) ∧
        c'.IsAlone thisThread ∧ c'.leases = c.leases := by
  match s with
  | .run key inner ending =>
    obtain ⟨rs, hrs, rfl⟩ := Option.map_eq_some_iff.1 h
    obtain ⟨id, c₁, henter, hc₁, hleases₁⟩ := hc.exists_enter hinside key
    have hinside₁ : ∀ l ∈ c₁.leases, l.stage = .inside := by simpa [hleases₁] using hinside
    have hkeys₁ : c₁.leases.map (·.key) = key :: c.leases.map (·.key) := by simp [hleases₁]
    obtain ⟨c₂, hperform, hc₂, hleases₂⟩ := performAll_of_unlockedAll? inner hc₁ hinside₁
      (hkeys₁ ▸ hrs) (⟨.enter, key, c₁.table.inFlight⟩ :: earlier)
    obtain ⟨c₃, htable, hc₃, hleases₃⟩ := hc₂.exists_leave (hleases₂.trans hleases₁)
    -- What is counted at the three moments are the keys of the leases.
    have hcount : ∀ {d : Crowd String}, d.IsAlone thisThread → ∀ {ls}, d.leases = ls →
        (∀ l ∈ ls, l.stage = .inside) → d.table.inFlight = (ls.map (·.key)).toFinset.card := by
      rintro d hd _ rfl hd'
      rw [hd.inFlight_eq, openKeys_of_inside hd']
    have hcount₁ := hcount hc₁ rfl hinside₁
    have hcount₂ := hcount hc₂ hleases₂ hinside₁
    have hcount₃ := hcount hc₃ hleases₃ hinside
    rw [hkeys₁] at hcount₁
    rw [hkeys₁, ← hcount₁] at hcount₂
    refine ⟨c₃, ?_, hc₃, hleases₃⟩
    rw [← hcount₁, ← hcount₃]
    cases ending <;>
      simp [perform, henter, Log.mark, hperform, htable, hcount₂, Return.ofEnding, marksOfEnding]

theorem performAll_of_unlockedAll? (sections : List (Section α)) {c : Crowd String}
    (hc : c.IsAlone thisThread) (hinside : ∀ l ∈ c.leases, l.stage = .inside)
    {r : List (Return α) × List Mark}
    (h : unlockedAll? (c.leases.map (·.key)) sections = some r) (earlier : List Mark) :
    ∃ c' : Crowd String,
      performAll ⟨c.table, earlier⟩ sections = (r.1, ⟨c'.table, r.2.reverse ++ earlier⟩) ∧
        c'.IsAlone thisThread ∧ c'.leases = c.leases := by
  match sections with
  | [] =>
    cases h
    exact ⟨c, rfl, hc, rfl⟩
  | s :: rest =>
    obtain ⟨first, hfirst, h⟩ := Option.bind_eq_some_iff.1 h
    obtain ⟨others, hothers, rfl⟩ := Option.map_eq_some_iff.1 h
    obtain ⟨c₁, hperform, hc₁, hleases₁⟩ := perform_of_unlocked? s hc hinside hfirst earlier
    rw [← hleases₁] at hinside hothers
    obtain ⟨c₂, hperformAll, hc₂, hleases₂⟩ :=
      performAll_of_unlockedAll? rest hc₁ hinside hothers (first.2.reverse ++ earlier)
    exact ⟨c₂, by simp [performAll, hperform, hperformAll], hc₂, hleases₂.trans hleases₁⟩

end

/-- **Sections on one thread return and trace what they would without locks**, and leave no key in
flight. -/
theorem start_eq_of_unlocked? {sections : List (Section α)} {r : List (Return α) × List Mark}
    (h : unlockedAll? [] sections = some r) : start sections = (r.1, r.2, 0) := by
  obtain ⟨c, hperform, hc, hleases⟩ := performAll_of_unlockedAll? sections
    (Crowd.isAlone_empty thisThread) (by simp [Crowd.empty]) h []
  have hcount := hc.inFlight_eq
  have hperform' : performAll ⟨.empty, []⟩ sections = (r.1, ⟨c.table, r.2.reverse ++ []⟩) :=
    hperform
  simp [start, hperform', hcount, Crowd.openKeys, hleases, Crowd.empty]

end Section

end SnapStore
