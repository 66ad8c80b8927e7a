import Mathlib.Data.Finset.Card
import SnapStore.Proofs.Lock.Leftover
import SnapStore.Proofs.Lock.Standing

/-!
# A thread alone

Nobody waits and nothing is left behind as long as only one thread takes the steps of sections.
All leases of such a crowd (`SnapStore.Crowd.IsAlone`) are that thread's, and it is inside of all
sections but the innermost. So

* it is never kept from going on (`SnapStore.Crowd.IsAlone.isSome_advance?`), as the only lock that
  it could wait for is its own;
* a key leaves the table with the last lease that needs it: whichever lease is retired, all other
  leases on the same lock are still needed (`SnapStore.Crowd.IsAlone.not_strands`);
* therefore the table holds exactly the keys of the leases that have not been dropped, each of them
  once (`SnapStore.Crowd.IsAlone.inFlight_eq`).
-/

namespace SnapStore

/-! ### Keys stand in the table once -/

namespace LockTable

variable {κ : Type} {t : LockTable κ}

/-- No key stands in the table twice. -/
def HasDistinctKeys (t : LockTable κ) : Prop := (t.keys.map (·.1)).Nodup

variable [DecidableEq κ]

theorem isSome_find?_iff {key : κ} : (t.find? key).isSome ↔ key ∈ t.keys.map (·.1) := by
  rw [← not_iff_not, Option.not_isSome_iff_eq_none, find?, List.lookup_eq_none_iff, List.mem_map]
  constructor
  · rintro h ⟨e, he, rfl⟩
    simpa using h e he
  · intro h e he
    have hne : key ≠ e.1 := fun heq => h ⟨e, he, heq.symm⟩
    simpa using hne

theorem HasDistinctKeys.lease (h : t.HasDistinctKeys) (key : κ) :
    (t.lease key).2.HasDistinctKeys := by
  rcases hfind : t.find? key with _ | id
  · rw [lease_of_find?_eq_none hfind]
    refine List.nodup_cons.2 ⟨?_, h⟩
    simp [← isSome_find?_iff, hfind]
  · rw [lease_of_find? hfind]
    exact h

theorem HasDistinctKeys.retire (h : t.HasDistinctKeys) (key : κ) (id : Nat) :
    (t.retire key id).HasDistinctKeys := by
  unfold LockTable.retire
  split_ifs
  · exact h.sublist (List.filter_sublist.map _)
  · exact h

/-- The number of keys in flight, if it is known which they are. -/
theorem HasDistinctKeys.inFlight_eq (h : t.HasDistinctKeys) {keys : List κ}
    (hkeys : ∀ key, (t.find? key).isSome ↔ key ∈ keys) : t.inFlight = keys.toFinset.card := by
  have hset : (t.keys.map (·.1)).toFinset = keys.toFinset := by
    ext key
    rw [List.mem_toFinset, List.mem_toFinset, ← isSome_find?_iff, hkeys]
  rw [← hset, List.toFinset_card_of_nodup h, List.length_map, inFlight]

end LockTable

namespace Crowd

variable {κ : Type}

/-- The keys of the leases that have not been dropped, the latest first. -/
def openKeys (c : Crowd κ) : List κ := (c.leases.filter (·.stage ≠ .retired)).map (·.key)

theorem mem_openKeys_iff {c : Crowd κ} {key : κ} : key ∈ c.openKeys ↔ IsNeeded c.leases key := by
  simp [openKeys, IsNeeded, and_assoc, and_comm]

variable [DecidableEq κ]

theorem Moves.hasDistinctKeys {c c' : Crowd κ} (h : c.Moves c') (hc : c.table.HasDistinctKeys) :
    c'.table.HasDistinctKeys := by
  rcases h with ⟨thread, key⟩ | ⟨-, -, ht⟩ | ⟨-, -⟩ | ⟨-, -⟩ | ⟨-, -⟩
  · exact hc.lease key
  · obtain ⟨-, rfl⟩ := LockTable.acquire?_eq_some_iff.1 ht
    exact hc
  · exact hc
  · exact hc.retire _ _
  · exact hc

/-! ### Crowds of one thread -/

/-- **What is true at all times if one thread takes all the steps.** -/
structure IsAlone (c : Crowd κ) (thread : Nat) : Prop where
  /-- No key was left behind. -/
  history : History c fun _ => False
  /-- All leases are the thread's. -/
  thread_eq : ∀ l ∈ c.leases, l.thread = thread
  /-- It is inside of all sections but the innermost. -/
  inside : ∀ l ∈ c.leases.tail, l.stage = .inside
  /-- No lock is held for nothing. -/
  isRegular : c.table.IsRegular
  /-- No key stands in the table twice. -/
  hasDistinctKeys : c.table.HasDistinctKeys

theorem isAlone_empty (thread : Nat) : (empty : Crowd κ).IsAlone thread where
  history := .start
  thread_eq := by simp [empty]
  inside := by simp [empty]
  isRegular := by simp [LockTable.IsRegular, LockTable.lock?, empty, LockTable.empty]
  hasDistinctKeys := List.nodup_nil

namespace IsAlone

variable {c c' : Crowd κ} {thread : Nat} {key : κ} {l : Lease κ} {ls : List (Lease κ)}

/-- The thread goes on in the section that it has begun last. -/
theorem advance?_eq (h : c.IsAlone thread) (hleases : c.leases = l :: ls) :
    c.advance? thread = (l.next? c.table).map fun r => ⟨r.1, r.2.toList ++ ls⟩ := by
  have hl : l.thread = thread := h.thread_eq l (by simp [hleases])
  rw [advance?, hleases]
  exact advanceIn?_of_first (List.forall_mem_nil _) hl

/-- It can begin a section if it is inside of all that it is in. -/
theorem isReady_iff (h : c.IsAlone thread) :
    c.isReady thread = true ↔ ∀ l ∈ c.leases, l.stage = .inside := by
  rcases hleases : c.leases with _ | ⟨l, ls⟩
  · simp [isReady, hleases]
  · have hl : l.thread = thread := h.thread_eq l (by simp [hleases])
    have hinside : ∀ m ∈ ls, m.stage = .inside := fun m hm => h.inside m (by simp [hleases, hm])
    simp only [isReady, hleases, List.find?_cons, hl, decide_true, Option.all_some,
      decide_eq_true_eq, List.forall_mem_cons]
    exact (and_iff_left hinside).symm

theorem isSome_enter?_iff (h : c.IsAlone thread) (key : κ) :
    (c.enter? thread key).isSome ↔ ∀ l ∈ c.leases, l.stage = .inside := by
  rw [← h.isReady_iff, Crowd.enter?]
  split_ifs <;> simp [*]

/-- **Nothing keeps the thread from going on.** -/
theorem isSome_advance? (h : c.IsAlone thread) (hleases : c.leases ≠ []) :
    (c.advance? thread).isSome := by
  obtain ⟨l, ls, hleases⟩ := List.exists_cons_of_ne_nil hleases
  have hstanding : c.standing thread = (l.key, l.stage) :: standing ⟨c.table, ls⟩ thread := by
    rw [← standing_cons_self (h.thread_eq l (by simp [hleases])), ← hleases]
  by_contra hnone
  rw [Option.not_isSome_iff_eq_none] at hnone
  obtain ⟨-, other, hne, hother⟩ :=
    h.history.reachable.isSound.exists_inside_of_advance?_eq_none h.isRegular hstanding hnone
  obtain ⟨m, hm, rfl, -⟩ := mem_standing.1 hother
  exact hne (h.thread_eq m hm)

/-- A section that the thread is not inside of is the innermost. -/
theorem front_eq_nil (h : c.IsAlone thread) {front : List (Lease κ)}
    (hleases : c.leases = front ++ l :: ls) (hstage : l.stage ≠ .inside) : front = [] := by
  rcases front with _ | ⟨m, front⟩
  · rfl
  · exact absurd (h.inside l (by simp [hleases])) hstage

/-- **No key is left behind**: when a lease is retired, the other leases on its lock are those of
sections that the thread is inside of. -/
theorem not_strands (h : c.IsAlone thread) (hmoves : c.Moves c') : ¬Strands c c' key := by
  rintro ⟨hidle, l, hl, rfl, hlive, htwo⟩
  have hneeded : IsNeeded c.leases l.key := ⟨l, hl, rfl, hlive⟩
  rcases hmoves with ⟨thread, key⟩ | @⟨front, rest, m, t, hleases, hstage, -⟩ |
    @⟨front, rest, m, hleases, hstage⟩ | @⟨front, rest, m, hleases, hstage⟩ |
    @⟨front, rest, m, hleases, hstage⟩
  · exact hidle ((isNeeded_cons _ _).2 (Or.inr hneeded))
  · rw [isNeeded_stage front rest fun _ => by simp [hstage], ← hleases] at hidle
    exact hidle hneeded
  · rw [isNeeded_stage front rest fun _ => by simp [hstage], ← hleases] at hidle
    exact hidle hneeded
  · -- Only the innermost section can be on its way out, so the other lease is further out.
    obtain rfl := h.front_eq_nil hleases (by simp [hstage])
    rw [List.nil_append, leasesOn_cons] at htwo
    obtain ⟨n, hn, hlock⟩ : ∃ n ∈ rest, n.lock = l.lock := by
      by_contra hnone
      push Not at hnone
      rw [leasesOn_eq_zero hnone] at htwo
      split_ifs at htwo <;> omega
    have hinside : n.stage = .inside := h.inside n (by simpa [hleases] using hn)
    have hc := h.history.reachable.isSound
    have hfound := hc.found n (by simp [hleases, hn]) (by simp [hinside])
    rw [hlock] at hfound
    have hkey : n.key = l.key := hc.injective n.key l.key l.lock hfound (hc.found l hl hlive)
    exact hidle ⟨n, by simp [hn], hkey, by simp [hinside]⟩
  · rw [hleases, isNeeded_middle] at hneeded
    exact hidle (hneeded.resolve_left fun hm => hm.2 hstage)

/-- What is left to show of a step is how the leases are nested after it. -/
theorem of_step (h : c.IsAlone thread) (hstep : c.Step c')
    (hthread : ∀ l ∈ c'.leases, l.thread = thread)
    (hinside : ∀ l ∈ c'.leases.tail, l.stage = .inside) : c'.IsAlone thread := by
  have hmoves := moves_of_step? hstep
  have hleft : leftAfter c c' (fun _ => False) = fun _ => False := by
    funext key
    simpa [leftAfter] using h.not_strands hmoves
  exact ⟨hleft ▸ h.history.step hstep, hthread, hinside, hmoves.isRegular h.isRegular,
    hmoves.hasDistinctKeys h.hasDistinctKeys⟩

/-- What a section begins with. -/
theorem leases_of_enter? (henter : c.enter? thread key = some c') :
    c'.leases = ⟨thread, key, (c.table.lease key).1, .waiting⟩ :: c.leases := by
  unfold enter? at henter
  split_ifs at henter
  cases henter
  rfl

theorem enter? (h : c.IsAlone thread) (henter : c.enter? thread key = some c') :
    c'.IsAlone thread := by
  have hinside := (h.isSome_enter?_iff key).1 (Option.isSome_of_mem henter)
  have hleases := leases_of_enter? henter
  refine h.of_step ⟨.enter thread key, henter⟩ ?_ ?_
  · simpa [hleases] using h.thread_eq
  · simpa [hleases] using hinside

/-- Going on brings the innermost section to its next stage, or ends it. -/
theorem exists_leases_of_advance? (h : c.IsAlone thread) (hadvance : c.advance? thread = some c') :
    ∃ l ls, c.leases = l :: ls ∧
      c'.leases = (l.stage.next?.map fun stage => { l with stage := stage }).toList ++ ls := by
  rcases hleases : c.leases with _ | ⟨l, ls⟩
  · simp [Crowd.advance?, hleases, advanceIn?] at hadvance
  · rw [h.advance?_eq hleases, Option.map_eq_some_iff] at hadvance
    obtain ⟨r, hr, rfl⟩ := hadvance
    exact ⟨l, ls, rfl, by rw [Lease.snd_of_next? hr]⟩

theorem advance? (h : c.IsAlone thread) (hadvance : c.advance? thread = some c') :
    c'.IsAlone thread := by
  obtain ⟨l, ls, hleases, hleases'⟩ := h.exists_leases_of_advance? hadvance
  have hl : l.thread = thread := h.thread_eq l (by simp [hleases])
  have hthread : ∀ m ∈ ls, m.thread = thread := fun m hm => h.thread_eq m (by simp [hleases, hm])
  have hinside : ∀ m ∈ ls, m.stage = .inside := fun m hm => h.inside m (by simp [hleases, hm])
  refine h.of_step ⟨.advance thread, hadvance⟩ ?_ ?_
  · intro m hm
    rcases hnext : l.stage.next? with _ | stage
    · exact hthread m (by simpa [hleases', hnext] using hm)
    · have hm' : m = { l with stage := stage } ∨ m ∈ ls := by simpa [hleases', hnext] using hm
      rcases hm' with rfl | hm'
      · exact hl
      · exact hthread m hm'
  · intro m hm
    rcases hnext : l.stage.next? with _ | stage
    · exact hinside m (List.mem_of_mem_tail (by simpa [hleases', hnext] using hm))
    · exact hinside m (by simpa [hleases', hnext] using hm)

/-- **The table holds the keys of the open leases, each of them once.** -/
theorem inFlight_eq (h : c.IsAlone thread) : c.table.inFlight = c.openKeys.toFinset.card := by
  refine h.hasDistinctKeys.inFlight_eq fun key => ?_
  rw [mem_openKeys_iff, (h.history.accounts key).found, or_false]

end IsAlone

end Crowd

end SnapStore
