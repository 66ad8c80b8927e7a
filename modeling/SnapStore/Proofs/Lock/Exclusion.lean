import SnapStore.Proofs.Lock.Crowd
import SnapStore.Proofs.Lock.Table

/-!
# At most one thread is inside the section of a key

Locks come and go while threads wait for them, so two threads in the section of one key might hold
two different locks. That they do not rests on the number of references: a key leaves the table
only if no lease but the one that is being dropped refers to its lock, and then nobody waits for
it (`SnapStore.Crowd.IsSound.leasesOn_eq_zero_of_eq_two`).

The invariant (`SnapStore.Crowd.IsSound`) says of a crowd

* what is found: every lease that has not been retired refers to the lock that is found for its
  key, and no lock is found for two keys;
* what is counted: a lock that is found has one reference for the table and one for each lease on
  it, retired ones included;
* who holds what: a lock is taken as often as there are threads inside with a lease on it, and all
  of them are its owner.

Each of the five ways in which a crowd moves preserves it, and so every crowd that can come about
is sound (`SnapStore.Crowd.Reachable.isSound`).
-/

namespace SnapStore.Crowd

variable {κ : Type}

/-! ### Counting leases -/

/-- The number of leases on a lock. -/
def leasesOn (ls : List (Lease κ)) (id : Nat) : Nat := ls.countP (·.lock = id)

/-- The number of sections that are being done under a lock. -/
def insideOn (ls : List (Lease κ)) (id : Nat) : Nat :=
  ls.countP fun l => l.lock = id ∧ l.stage = .inside

theorem leasesOn_cons (l : Lease κ) (ls : List (Lease κ)) (id : Nat) :
    leasesOn (l :: ls) id = leasesOn ls id + if l.lock = id then 1 else 0 := by
  simp [leasesOn, List.countP_cons]

theorem insideOn_cons (l : Lease κ) (ls : List (Lease κ)) (id : Nat) :
    insideOn (l :: ls) id =
      insideOn ls id + if l.lock = id ∧ l.stage = .inside then 1 else 0 := by
  simp [insideOn, List.countP_cons]

/-- It makes no difference where among the others a lease stands. -/
theorem leasesOn_middle (front rest : List (Lease κ)) (l : Lease κ) (id : Nat) :
    leasesOn (front ++ l :: rest) id =
      leasesOn (front ++ rest) id + if l.lock = id then 1 else 0 := by
  rw [← leasesOn_cons]
  exact List.perm_middle.countP_eq _

theorem insideOn_middle (front rest : List (Lease κ)) (l : Lease κ) (id : Nat) :
    insideOn (front ++ l :: rest) id =
      insideOn (front ++ rest) id + if l.lock = id ∧ l.stage = .inside then 1 else 0 := by
  rw [← insideOn_cons]
  exact List.perm_middle.countP_eq _

theorem leasesOn_pos {ls : List (Lease κ)} {l : Lease κ} (h : l ∈ ls) : 0 < leasesOn ls l.lock :=
  List.countP_pos_iff.2 ⟨l, h, by simp⟩

theorem insideOn_pos {ls : List (Lease κ)} {l : Lease κ} (h : l ∈ ls) (hl : l.stage = .inside) :
    0 < insideOn ls l.lock :=
  List.countP_pos_iff.2 ⟨l, h, by simp [hl]⟩

theorem leasesOn_eq_zero {ls : List (Lease κ)} {id : Nat} (h : ∀ l ∈ ls, l.lock ≠ id) :
    leasesOn ls id = 0 :=
  List.countP_eq_zero.2 fun l hl => by simpa using h l hl

theorem insideOn_eq_zero {ls : List (Lease κ)} {id : Nat} (h : ∀ l ∈ ls, l.lock ≠ id) :
    insideOn ls id = 0 :=
  List.countP_eq_zero.2 fun l hl => by simp [h l hl]

/-- A lease counts in every stage, -/
theorem leasesOn_stage (front rest : List (Lease κ)) (l : Lease κ) (stage : Stage) (id : Nat) :
    leasesOn (front ++ { l with stage := stage } :: rest) id =
      leasesOn (front ++ l :: rest) id := by
  rw [leasesOn_middle, leasesOn_middle]

/-- and its stage makes no difference to other locks. -/
theorem insideOn_stage_of_ne (front rest : List (Lease κ)) {l : Lease κ} (stage : Stage) {id : Nat}
    (h : id ≠ l.lock) :
    insideOn (front ++ { l with stage := stage } :: rest) id =
      insideOn (front ++ l :: rest) id := by
  rw [insideOn_middle, insideOn_middle, if_neg fun hl => h.symm hl.1, if_neg fun hl => h.symm hl.1]

/-- If no lease is on a lock, then none of them is. -/
theorem lock_ne_of_leasesOn_eq_zero {ls : List (Lease κ)} {l : Lease κ} {id : Nat}
    (h : leasesOn ls id = 0) (hl : l ∈ ls) : l.lock ≠ id := by
  rintro rfl
  have hpos := leasesOn_pos hl
  omega

theorem mem_middle {front rest : List (Lease κ)} {l m : Lease κ} :
    m ∈ front ++ l :: rest ↔ m = l ∨ m ∈ front ++ rest :=
  List.perm_middle.mem_iff.trans List.mem_cons

/-! ### The invariant -/

variable [DecidableEq κ]

/-- **What is true of a crowd at all times.** -/
structure IsSound (c : Crowd κ) : Prop where
  /-- A lease is on a lock that there is. -/
  lock : ∀ l ∈ c.leases, ∃ k, c.table.lock? l.lock = some k
  /-- What is found is a lock that there is. -/
  isLock : ∀ key id, c.table.find? key = some id → ∃ k, c.table.lock? id = some k
  /-- No lock is found for two keys. -/
  injective : ∀ key key' id,
    c.table.find? key = some id → c.table.find? key' = some id → key = key'
  /-- A lease that has not been retired is on the lock that is found for its key. -/
  found : ∀ l ∈ c.leases, l.stage ≠ .retired → c.table.find? l.key = some l.lock
  /-- The references to a lock that is found are those of the table and of the leases. -/
  references : ∀ key id k, c.table.find? key = some id → c.table.lock? id = some k →
    k.references = leasesOn c.leases id + 1
  /-- A lock is taken as often as threads are inside with it. -/
  depth : ∀ id k, c.table.lock? id = some k → k.depth = insideOn c.leases id
  /-- Whoever is inside with a lock holds it. -/
  owner : ∀ l ∈ c.leases, l.stage = .inside →
    ∀ k, c.table.lock? l.lock = some k → k.owner = some l.thread

theorem isSound_empty : (empty : Crowd κ).IsSound where
  lock _ hl := by cases hl
  isLock _ _ h := by cases h
  injective _ _ _ h := by cases h
  found _ hl := by cases hl
  references _ _ _ h := by cases h
  depth id k h := by cases h
  owner _ hl := by cases hl

namespace IsSound

variable {c : Crowd κ} {front rest : List (Lease κ)} {l : Lease κ} {id : Nat}

omit [DecidableEq κ] in
theorem mem_leases (hleases : c.leases = front ++ l :: rest) {m : Lease κ}
    (hm : m ∈ front ++ rest) : m ∈ c.leases :=
  hleases ▸ mem_middle.2 (Or.inr hm)

/-- A lease that has not been retired is on a lock with one reference more than there are leases
on it. -/
theorem exists_lock (hc : c.IsSound) (hl : l ∈ c.leases) (hstage : l.stage ≠ .retired) :
    ∃ k, c.table.lock? l.lock = some k ∧ k.references = leasesOn c.leases l.lock + 1 := by
  obtain ⟨k, hk⟩ := hc.lock l hl
  exact ⟨k, hk, hc.references l.key l.lock k (hc.found l hl hstage) hk⟩

/-- Leases under one key that have not been retired are on one lock. -/
theorem lock_eq (hc : c.IsSound) {m : Lease κ} (hl : l ∈ c.leases) (hm : m ∈ c.leases)
    (hl' : l.stage ≠ .retired) (hm' : m.stage ≠ .retired) (hkey : l.key = m.key) :
    l.lock = m.lock := by
  have hfound := hc.found l hl hl'
  rw [hkey, hc.found m hm hm'] at hfound
  exact (Option.some.inj hfound).symm

/-- **Only one lock is changed**, and of the leases only those on it: what has to be known of that
lock and those leases. -/
theorem modify (hc : c.IsSound) {f : Lock → Lock} {ls : List (Lease κ)}
    (hls : ∀ m ∈ ls, (∃ k, c.table.lock? m.lock = some k) ∧
      (m.stage ≠ .retired → c.table.find? m.key = some m.lock))
    (hcount : ∀ other, other ≠ id →
      leasesOn ls other = leasesOn c.leases other ∧ insideOn ls other = insideOn c.leases other)
    (hinside : ∀ m ∈ ls, m.stage = .inside → m.lock ≠ id → m ∈ c.leases)
    (hlock : ∀ k, c.table.lock? id = some k →
      (∀ key, c.table.find? key = some id → (f k).references = leasesOn ls id + 1) ∧
        (f k).depth = insideOn ls id ∧
          ∀ m ∈ ls, m.stage = .inside → m.lock = id → (f k).owner = some m.thread) :
    IsSound ⟨c.table.modify id f, ls⟩ where
  lock m hm := by
    obtain ⟨k, hk⟩ := (hls m hm).1
    exact LockTable.exists_lock?_modify hk id f
  isLock key other h := by
    obtain ⟨k, hk⟩ := hc.isLock key other h
    exact LockTable.exists_lock?_modify hk id f
  injective := hc.injective
  found m hm := (hls m hm).2
  references key other k' hfind hk' := by
    obtain ⟨k, hk, ⟨rfl, rfl⟩ | ⟨hne, rfl⟩⟩ := LockTable.exists_lock?_of_modify hk'
    · exact (hlock k hk).1 key hfind
    · rw [(hcount other hne).1]
      exact hc.references key other k' hfind hk
  depth other k' hk' := by
    obtain ⟨k, hk, ⟨rfl, rfl⟩ | ⟨hne, rfl⟩⟩ := LockTable.exists_lock?_of_modify hk'
    · exact (hlock k hk).2.1
    · rw [(hcount other hne).2]
      exact hc.depth other k' hk
  owner m hm hstage k' hk' := by
    obtain ⟨k, hk, ⟨heq, rfl⟩ | ⟨hne, rfl⟩⟩ := LockTable.exists_lock?_of_modify hk'
    · exact (hlock k (heq ▸ hk)).2.2 m hm hstage heq
    · exact hc.owner m (hinside m hm hstage hne) hstage k' hk

/-! ### Taking a lease -/

/-- A lease on a lock that is there already. -/
theorem lease_of_find? (hc : c.IsSound) (thread : Nat) {key : κ}
    (hid : c.table.find? key = some id) :
    IsSound ⟨c.table.modify id fun k => { k with references := k.references + 1 },
      ⟨thread, key, id, .waiting⟩ :: c.leases⟩ := by
  refine hc.modify ?_ (fun other hne => ?_) ?_ fun k hk => ⟨fun other hfind => ?_, ?_, ?_⟩
  · intro m hm
    rcases List.mem_cons.1 hm with rfl | hm
    · exact ⟨hc.isLock key id hid, fun _ => hid⟩
    · exact ⟨hc.lock m hm, hc.found m hm⟩
  · rw [leasesOn_cons, insideOn_cons, if_neg hne.symm, if_neg fun h => hne.symm h.1]
    exact ⟨rfl, rfl⟩
  · intro m hm hstage hne
    rcases List.mem_cons.1 hm with rfl | hm
    · cases hstage
    · exact hm
  · rw [leasesOn_cons, if_pos rfl]
    exact congrArg (· + 1) (hc.references other id k hfind hk)
  · rw [insideOn_cons, if_neg (by simp)]
    exact hc.depth id k hk
  · intro m hm hstage heq
    rcases List.mem_cons.1 hm with rfl | hm
    · cases hstage
    · exact hc.owner m hm hstage k (heq ▸ hk)

/-- A lease on a lock that is made for it. -/
theorem lease_of_find?_eq_none (hc : c.IsSound) (thread : Nat) {key : κ}
    (hnone : c.table.find? key = none) :
    IsSound ⟨(c.table.lease key).2,
      ⟨thread, key, (c.table.lease key).1, .waiting⟩ :: c.leases⟩ := by
  have hfresh := LockTable.lock?_fst_lease hnone
  have hself := LockTable.lock?_lease_self hnone
  have hold : ∀ {other k}, c.table.lock? other = some k →
      (c.table.lease key).2.lock? other = some k := by
    intro other k hk
    have hne : other ≠ (c.table.lease key).1 := by
      rintro rfl
      rw [hfresh] at hk
      cases hk
    rw [LockTable.lock?_lease_of_ne hnone hne, hk]
  -- Nobody has a lease on the new lock, and no other key leads to it.
  have hunused : ∀ m ∈ c.leases, m.lock ≠ (c.table.lease key).1 := by
    intro m hm heq
    obtain ⟨k, hk⟩ := hc.lock m hm
    rw [heq, hfresh] at hk
    cases hk
  have hunfound : ∀ other, c.table.find? other ≠ some (c.table.lease key).1 := by
    intro other hfind
    obtain ⟨k, hk⟩ := hc.isLock other _ hfind
    rw [hfresh] at hk
    cases hk
  have hfind : ∀ {other id}, (c.table.lease key).2.find? other = some id →
      other = key ∧ id = (c.table.lease key).1 ∨ other ≠ key ∧ c.table.find? other = some id := by
    intro other id h
    rw [LockTable.find?_lease] at h
    by_cases hother : other = key
    · rw [if_pos hother] at h
      exact Or.inl ⟨hother, (Option.some.inj h).symm⟩
    · rw [if_neg hother] at h
      exact Or.inr ⟨hother, h⟩
  exact {
    lock := fun m hm => by
      rcases List.mem_cons.1 hm with rfl | hm
      · exact ⟨_, hself⟩
      · obtain ⟨k, hk⟩ := hc.lock m hm
        exact ⟨k, hold hk⟩
    isLock := fun other id h => by
      rcases hfind h with ⟨rfl, rfl⟩ | ⟨-, h⟩
      · exact ⟨_, hself⟩
      · obtain ⟨k, hk⟩ := hc.isLock other id h
        exact ⟨k, hold hk⟩
    injective := fun other other' id h h' => by
      rcases hfind h with ⟨rfl, rfl⟩ | ⟨-, hfound⟩
      · rcases hfind h' with ⟨rfl, -⟩ | ⟨-, hfound'⟩
        · rfl
        · exact absurd hfound' (hunfound other')
      · rcases hfind h' with ⟨rfl, rfl⟩ | ⟨-, hfound'⟩
        · exact absurd hfound (hunfound other)
        · exact hc.injective other other' id hfound hfound'
    found := fun m hm hstage => by
      rcases List.mem_cons.1 hm with rfl | hm
      · exact (c.table.find?_lease key key).trans (if_pos rfl)
      · have hm' := hc.found m hm hstage
        have hne : m.key ≠ key := by
          intro heq
          rw [heq, hnone] at hm'
          cases hm'
        rw [LockTable.find?_lease, if_neg hne, hm']
    references := fun other id k h hk => by
      rcases hfind h with ⟨rfl, rfl⟩ | ⟨-, h⟩
      · rw [hself] at hk
        cases hk
        rw [leasesOn_cons, if_pos rfl, leasesOn_eq_zero hunused]
        rfl
      · obtain ⟨k', hk'⟩ := hc.isLock other id h
        rw [hold hk'] at hk
        cases hk
        have hne : (c.table.lease key).1 ≠ id := fun heq => hunfound other (heq ▸ h)
        rw [leasesOn_cons, if_neg hne]
        exact hc.references other id k h hk'
    depth := fun id k hk => by
      rw [insideOn_cons, if_neg (by simp)]
      by_cases hid : id = (c.table.lease key).1
      · rw [hid, hself] at hk
        cases hk
        rw [hid, insideOn_eq_zero hunused]
        rfl
      · rw [LockTable.lock?_lease_of_ne hnone hid] at hk
        exact hc.depth id k hk
    owner := fun m hm hstage k hk => by
      rcases List.mem_cons.1 hm with rfl | hm
      · cases hstage
      · rw [LockTable.lock?_lease_of_ne hnone (hunused m hm)] at hk
        exact hc.owner m hm hstage k hk }

/-! ### Going on -/

/-- What the other leases are like, and this one in its new stage. -/
theorem of_mem_middle (hc : c.IsSound) (hleases : c.leases = front ++ l :: rest) {stage : Stage}
    (hlive : l.stage ≠ .retired) {m : Lease κ}
    (hm : m ∈ front ++ { l with stage := stage } :: rest) :
    (∃ k, c.table.lock? m.lock = some k) ∧
      (m.stage ≠ .retired → c.table.find? m.key = some m.lock) := by
  have hl : l ∈ c.leases := hleases ▸ mem_middle.2 (Or.inl rfl)
  rcases mem_middle.1 hm with rfl | hm
  · exact ⟨hc.lock l hl, fun _ => hc.found l hl hlive⟩
  · have hm' := mem_leases hleases hm
    exact ⟨hc.lock m hm', hc.found m hm'⟩

/-- A thread takes a lock that is free or its own. -/
theorem acquire (hc : c.IsSound) (hleases : c.leases = front ++ l :: rest)
    (hstage : l.stage = .waiting) {t : LockTable κ}
    (ht : c.table.acquire? l.thread l.lock = some t) :
    IsSound ⟨t, front ++ { l with stage := .inside } :: rest⟩ := by
  obtain ⟨⟨k₀, hk₀, howner⟩, rfl⟩ := LockTable.acquire?_eq_some_iff.1 ht
  have hlive : l.stage ≠ .retired := by simp [hstage]
  refine hc.modify (fun m hm => hc.of_mem_middle hleases hlive hm) (fun other hne => ?_)
    (fun m hm _ hne => ?_) fun k hk => ⟨fun key hfind => ?_, ?_, fun m hm hm' heq => ?_⟩
  · rw [hleases]
    exact ⟨leasesOn_stage front rest l .inside other, insideOn_stage_of_ne front rest .inside hne⟩
  · rcases mem_middle.1 hm with rfl | hm
    · exact absurd rfl hne
    · exact mem_leases hleases hm
  · rw [leasesOn_stage, ← hleases]
    exact hc.references key l.lock k hfind hk
  · have hdepth := hc.depth l.lock k hk
    rw [hleases, insideOn_middle, if_neg (by simp [hstage])] at hdepth
    rw [insideOn_middle, if_pos ⟨rfl, rfl⟩]
    exact congrArg (· + 1) hdepth
  · rcases mem_middle.1 hm with rfl | hm
    · rfl
    · -- The lock is held by that other thread, and so it is the same one.
      rw [hk₀] at hk
      cases hk
      have hm := hc.owner m (mem_leases hleases hm) hm' k₀ (heq ▸ hk₀)
      rcases howner with hfree | hown
      · rw [hfree] at hm
        cases hm
      · exact hown.symm.trans hm

/-- A thread gives a lock back, which stays its own if it has taken it more than once. -/
theorem release (hc : c.IsSound) (hleases : c.leases = front ++ l :: rest)
    (hstage : l.stage = .inside) :
    IsSound ⟨c.table.release l.lock, front ++ { l with stage := .leaving } :: rest⟩ := by
  have hlive : l.stage ≠ .retired := by simp [hstage]
  refine hc.modify (fun m hm => hc.of_mem_middle hleases hlive hm) (fun other hne => ?_)
    (fun m hm _ hne => ?_) fun k hk => ?_
  · rw [hleases]
    exact ⟨leasesOn_stage front rest l .leaving other, insideOn_stage_of_ne front rest .leaving hne⟩
  · rcases mem_middle.1 hm with rfl | hm
    · exact absurd rfl hne
    · exact mem_leases hleases hm
  · have hdepth := hc.depth l.lock k hk
    rw [hleases, insideOn_middle, if_pos ⟨rfl, hstage⟩] at hdepth
    have hinside : insideOn (front ++ { l with stage := .leaving } :: rest) l.lock =
        insideOn (front ++ rest) l.lock := by
      rw [insideOn_middle, if_neg (by simp), Nat.add_zero]
    refine ⟨fun key hfind => ?_, ?_, fun m hm hm' heq => ?_⟩
    · rw [leasesOn_stage, ← hleases]
      exact hc.references key l.lock k hfind hk
    · rw [hinside]
      exact Nat.sub_eq_of_eq_add hdepth
    · have hpos := insideOn_pos hm hm'
      rw [heq, hinside] at hpos
      have howner : k.owner = some m.thread := by
        rcases mem_middle.1 hm with rfl | hm
        · cases hm'
        · exact hc.owner m (mem_leases hleases hm) hm' k (heq ▸ hk)
      rw [← howner]
      exact if_neg (by omega)

/-- A lease that is no longer needed, while nothing happens to its lock. -/
theorem retire_of_leaving (hc : c.IsSound) (hleases : c.leases = front ++ l :: rest)
    (hstage : l.stage = .leaving) :
    IsSound ⟨c.table, front ++ { l with stage := .retired } :: rest⟩ := by
  have hlive : l.stage ≠ .retired := by simp [hstage]
  have hinside : ∀ id, insideOn (front ++ { l with stage := .retired } :: rest) id =
      insideOn c.leases id := by
    intro id
    rw [hleases, insideOn_middle, insideOn_middle, if_neg (by simp), if_neg (by simp [hstage])]
  exact {
    lock := fun m hm => (hc.of_mem_middle hleases hlive hm).1
    isLock := hc.isLock
    injective := hc.injective
    found := fun m hm => (hc.of_mem_middle hleases hlive hm).2
    references := fun key id k hfind hk => by
      rw [leasesOn_stage, ← hleases]
      exact hc.references key id k hfind hk
    depth := fun id k hk => by
      rw [hinside]
      exact hc.depth id k hk
    owner := fun m hm hm' => by
      rcases mem_middle.1 hm with rfl | hm
      · cases hm'
      · exact hc.owner m (mem_leases hleases hm) hm' }

/-- A key leaves the table that no lease needs. -/
theorem forget (hc : c.IsSound) {key : κ} (h : ∀ m ∈ c.leases, m.stage ≠ .retired → m.key ≠ key) :
    IsSound ⟨{ c.table with keys := c.table.keys.filter fun e => !(e.1 == key) }, c.leases⟩ := by
  have hfind : ∀ {other id}, (c.table.keys.filter fun e => !(e.1 == key)).lookup other = some id →
      c.table.find? other = some id := by
    intro other id hid
    by_cases hother : other = key
    · rw [hother, LockTable.lookup_filter_self] at hid
      cases hid
    · rwa [LockTable.lookup_filter_of_ne _ hother] at hid
  exact {
    lock := hc.lock
    isLock := fun other id hid => hc.isLock other id (hfind hid)
    injective := fun other other' id hid hid' =>
      hc.injective other other' id (hfind hid) (hfind hid')
    found := fun m hm hstage =>
      (LockTable.lookup_filter_of_ne _ (h m hm hstage)).trans (hc.found m hm hstage)
    references := fun other id k hid => hc.references other id k (hfind hid)
    depth := hc.depth
    owner := hc.owner }

/-- **With two references there is nobody else**: one of them is the table's, and the other that
of the lease which is being dropped. -/
theorem leasesOn_eq_zero_of_eq_two (hc : c.IsSound) (hleases : c.leases = front ++ l :: rest)
    (hlive : l.stage ≠ .retired) {k : Lock} (hk : c.table.lock? l.lock = some k)
    (href : k.references = 2) : leasesOn (front ++ rest) l.lock = 0 := by
  have hl : l ∈ c.leases := hleases ▸ mem_middle.2 (Or.inl rfl)
  have hcount := hc.references l.key l.lock k (hc.found l hl hlive) hk
  rw [hleases, leasesOn_middle, if_pos rfl] at hcount
  omega

/-- A thread looks whether a key can leave the table. -/
theorem retire (hc : c.IsSound) (hleases : c.leases = front ++ l :: rest)
    (hstage : l.stage = .leaving) :
    IsSound ⟨c.table.retire l.key l.lock, front ++ { l with stage := .retired } :: rest⟩ := by
  have hlive : l.stage ≠ .retired := by simp [hstage]
  have hl : l ∈ c.leases := hleases ▸ mem_middle.2 (Or.inl rfl)
  have hfound := hc.found l hl hlive
  have hstay := hc.retire_of_leaving hleases hstage
  obtain ⟨k, hk⟩ := hc.lock l hl
  by_cases href : k.references = 2
  · have hnobody := hc.leasesOn_eq_zero_of_eq_two hleases hlive hk href
    -- The other leases under the key would be on the same lock.
    have hunneeded : ∀ m ∈ front ++ { l with stage := .retired } :: rest,
        m.stage ≠ .retired → m.key ≠ l.key := by
      intro m hm hm' hkey
      rcases mem_middle.1 hm with rfl | hm
      · exact hm' rfl
      · have hlock := hc.lock_eq (mem_leases hleases hm) hl hm' hlive hkey
        exact lock_ne_of_leasesOn_eq_zero hnobody hm hlock
    have hforget := hstay.forget hunneeded
    rw [LockTable.retire_of_eq_two hk href]
    refine hforget.modify (fun m hm => ⟨hforget.lock m hm, hforget.found m hm⟩)
      (fun _ _ => ⟨rfl, rfl⟩) (fun _ hm _ _ => hm) fun k' hk' => ⟨fun key hfind => ?_,
        hforget.depth _ k' hk', fun m hm hm' heq => hforget.owner m hm hm' k' (heq ▸ hk')⟩
    -- No key leads to the lock any more.
    have hfind : (c.table.keys.filter fun e => !(e.1 == l.key)).lookup key = some l.lock := hfind
    by_cases hkey : key = l.key
    · rw [hkey, LockTable.lookup_filter_self] at hfind
      cases hfind
    · rw [LockTable.lookup_filter_of_ne _ hkey] at hfind
      exact absurd (hc.injective key l.key l.lock hfind hfound) hkey
  · rw [LockTable.retire_of_ne_two hk href]
    exact hstay

/-- A thread drops its reference. -/
theorem discard (hc : c.IsSound) (hleases : c.leases = front ++ l :: rest)
    (hstage : l.stage = .retired) :
    IsSound ⟨c.table.discard l.lock, front ++ rest⟩ := by
  have hmem : ∀ {m}, m ∈ front ++ rest → m ∈ c.leases := mem_leases hleases
  refine hc.modify (fun m hm => ⟨hc.lock m (hmem hm), hc.found m (hmem hm)⟩) (fun other hne => ?_)
    (fun m hm _ _ => hmem hm) fun k hk => ⟨fun key hfind => ?_, ?_, fun m hm hm' heq => ?_⟩
  · rw [hleases, leasesOn_middle, insideOn_middle, if_neg (Ne.symm hne),
      if_neg fun h => hne.symm h.1]
    exact ⟨rfl, rfl⟩
  · have href := hc.references key l.lock k hfind hk
    rw [hleases, leasesOn_middle, if_pos rfl] at href
    exact Nat.sub_eq_of_eq_add href
  · have hdepth := hc.depth l.lock k hk
    rw [hleases, insideOn_middle, if_neg (by simp [hstage])] at hdepth
    exact hdepth
  · exact hc.owner m (hmem hm) hm' k (heq ▸ hk)

/-- **Every move preserves the invariant.** -/
theorem moves (hc : c.IsSound) {c' : Crowd κ} (h : c.Moves c') : c'.IsSound := by
  rcases h with ⟨thread, key⟩ | ⟨hleases, hstage, ht⟩ | ⟨hleases, hstage⟩ | ⟨hleases, hstage⟩ |
    ⟨hleases, hstage⟩
  · rcases hfind : c.table.find? key with _ | id
    · exact hc.lease_of_find?_eq_none thread hfind
    · rw [LockTable.lease_of_find? hfind]
      exact hc.lease_of_find? thread hfind
  · exact hc.acquire hleases hstage ht
  · exact hc.release hleases hstage
  · exact hc.retire hleases hstage
  · exact hc.discard hleases hstage

/-- Threads that are inside under one key are one thread: each of them holds the lock that is
found for the key. -/
theorem thread_eq (hc : c.IsSound) {m : Lease κ} (hl : l ∈ c.leases) (hm : m ∈ c.leases)
    (hl' : l.stage = .inside) (hm' : m.stage = .inside) (hkey : l.key = m.key) :
    l.thread = m.thread := by
  have hlock := hc.lock_eq hl hm (by simp [hl']) (by simp [hm']) hkey
  obtain ⟨k, hk⟩ := hc.lock l hl
  have hlowner := hc.owner l hl hl' k hk
  have hmowner := hc.owner m hm hm' k (hlock ▸ hk)
  exact Option.some.inj (hlowner.symm.trans hmowner)

end IsSound

theorem Reachable.isSound {c : Crowd κ} (h : c.Reachable) : c.IsSound := by
  induction h with
  | refl => exact isSound_empty
  | tail _ hstep ih => exact ih.moves (moves_of_step? hstep)

/-! ### Exclusion -/

/-- **At most one thread is inside under a key**, however the steps of the threads are interleaved,
and every lease that has not been retired is on the lock that the table has for its key. -/
theorem Reachable.exclusive {c : Crowd κ} (h : c.Reachable) :
    (∀ l ∈ c.leases, ∀ m ∈ c.leases, l.stage = .inside → m.stage = .inside → l.key = m.key →
      l.thread = m.thread) ∧
    ∀ l ∈ c.leases, l.stage ≠ .retired → c.table.keys.lookup l.key = some l.lock :=
  ⟨fun _ hl _ hm hl' hm' hkey => h.isSound.thread_eq hl hm hl' hm' hkey, h.isSound.found⟩

/-- The second thread is inside with a new lock, while the first one still has its lease on the old
lock of the key. -/
theorem Reachable.exclusive_of_renewed :
    ∃ c : Crowd Nat, c.Reachable ∧ c.leases = [⟨2, 7, 1, .inside⟩, ⟨1, 7, 0, .retired⟩] ∧
      (∀ l ∈ c.leases, ∀ m ∈ c.leases, l.stage = .inside → m.stage = .inside → l.key = m.key →
        l.thread = m.thread) ∧
      ∀ l ∈ c.leases, l.stage ≠ .retired → c.table.keys.lookup l.key = some l.lock := by
  have hrun : (empty : Crowd Nat).run? [.enter 1 7, .advance 1, .advance 1, .advance 1,
      .enter 2 7, .advance 2] =
      some ⟨⟨[(7, 1)], [⟨none, 0, 1⟩, ⟨some 2, 1, 2⟩]⟩,
        [⟨2, 7, 1, .inside⟩, ⟨1, 7, 0, .retired⟩]⟩ := rfl
  have h := reachable_of_run? .refl hrun
  exact ⟨_, h, rfl, Reachable.exclusive h⟩

end SnapStore.Crowd
