import SnapStore.Proofs.Server.Basic
import SnapStore.Proofs.Server.Keys
import SnapStore.Proofs.Store.Mirror

/-!
# What the steps of a server do

What a step can do is said once, by the five cases of `SnapStore.Server.Moves`. Of these, the one
that matters is that a thread takes a step, and of that two things have to be known: what it makes
of the cache and of the record (`SnapStore.Server.reply?_cases`), and on what the thread rests
afterwards (`SnapStore.Server.mem_basis_after`).

What has to be known of every server that can come about is that nothing is from later than now,
and that every thread keeps to its key (`SnapStore.Server.IsOrderly`).
-/

namespace SnapStore

/-! ### The cache -/

/-- What is found after a value was stored is the value or was there before. -/
theorem Shelf.isSome_find?_store {α : Type} {r : Retention} {s : Shelf α} {key key' : String}
    {a : α} (h : ((s.store r key a).find? key').isSome) : key' = key ∨ (s.find? key').isSome := by
  by_cases hkey : key' = key
  · exact Or.inl hkey
  refine Or.inr ?_
  have hbring : (s.bring key a).find? key' = s.find? key' := find?_bring_of_ne hkey s a
  cases r with
  | none => exact h
  | all => exact hbring ▸ h
  | recent capacity =>
    change (((s.bring key a).items.take capacity).lookup key').isSome at h
    rcases lookup_take (s.bring key a).items capacity key' with hnone | hsome
    · rw [hnone] at h
      cases h
    · rw [hsome] at h
      exact hbring ▸ h

namespace Cache

variable {c : Cache} {kind kind' : Production} {key key' : String}

theorem found?_lookUp (c : Cache) (kind : Production) (key : String) (kind' : Production)
    (key' : String) : (c.lookUp kind key).2.found? kind' key' = c.found? kind' key' := by
  cases kind <;> cases kind' <;> first | rfl | exact Shelf.find?_use _ _ _ _

theorem fst_lookUp (c : Cache) (kind : Production) (key : String) :
    (c.lookUp kind key).1 = c.found? kind key := by
  cases kind <;> rfl

/-- What is kept of other kinds is not touched when something is stored. -/
theorem found?_put_of_ne (hkind : kind' ≠ kind) (c : Cache) (key : String) (value : kind.Value)
    (key' : String) : (c.put kind key value).found? kind' key' = c.found? kind' key' := by
  cases kind <;> cases kind' <;> first | exact absurd rfl hkind | rfl | skip
  all_goals
    change (c.putTree value).found? _ key' = _
    unfold putTree
    cases value.base <;> rfl

/-- What is kept after a value was stored is the value or was kept before. -/
theorem isSome_found?_put {value : kind.Value}
    (h : ((c.put kind key value).found? kind' key').isSome) :
    kind' = kind ∧ kind.landing key value = some key' ∨ (c.found? kind' key').isSome := by
  by_cases hkind : kind' = kind
  · subst hkind
    cases kind' with
    | entry =>
      rcases Shelf.isSome_find?_store h with hkey | hfound
      · exact Or.inl ⟨rfl, congrArg some hkey.symm⟩
      · exact Or.inr hfound
    | tree =>
      change ((c.putTree value).trees.find? key').isSome at h
      unfold putTree at h
      rcases hbase : value.base with _ | base
      · rw [hbase] at h
        exact Or.inr h
      · rw [hbase] at h
        rcases Shelf.isSome_find?_store h with hkey | hfound
        · exact Or.inl ⟨rfl, hbase.trans (congrArg some hkey.symm)⟩
        · exact Or.inr hfound
    | aggregate =>
      rcases Shelf.isSome_find?_store h with hkey | hfound
      · exact Or.inl ⟨rfl, congrArg some hkey.symm⟩
      · exact Or.inr hfound
  · exact Or.inr (found?_put_of_ne hkind c key value key' ▸ h)

theorem found?_forget_self (c : Cache) (key : String) (kind : Production) :
    (c.forget key kind).found? kind key = none := by
  cases kind <;> exact Shelf.find?_erase_self _ _

/-- What is kept after something was forgotten was kept before. -/
theorem isSome_found?_forget (h : ((c.forget key kind).found? kind' key').isSome) :
    (c.found? kind' key').isSome := by
  by_cases hkey : key' = key
  · subst hkey
    cases kind <;> cases kind' <;> first | exact h | skip
    all_goals
      rw [found?_forget_self] at h
      cases h
  · have hother : (c.forget key kind).found? kind' key' = c.found? kind' key' := by
      cases kind <;> cases kind' <;> first | rfl | exact Shelf.find?_erase_of_ne hkey _
    exact hother ▸ h

end Cache

/-! ### The accounts of a thread -/

namespace Thread

variable {t : Nat}

theorem mem_flatten_noted {times : List Nat} {levels : List (List Nat)} :
    t ∈ (noted times levels).flatten ↔ t ∈ times ∨ t ∈ levels.flatten := by
  cases levels <;> simp [noted]

theorem flatten_closed (levels : List (List Nat)) : (closed levels).flatten = levels.flatten := by
  rcases levels with _ | ⟨inner, _ | ⟨outer, levels⟩⟩ <;> simp [closed]

/-- What was found in the innermost section was found. -/
theorem mem_basis_of_mem_headD {th : Thread} (h : t ∈ th.levels.headD []) : t ∈ th.basis := by
  unfold basis
  rcases hlevels : th.levels with _ | ⟨level, levels⟩
  · rw [hlevels] at h
    cases h
  · rw [hlevels] at h
    exact List.mem_append_left _ h

end Thread

/-! ### Steps -/

namespace Server

variable {s s' : Server} {th : Thread}

/-- Something happens. -/
def Step (s s' : Server) : Prop := ∃ m, s.step? m = some s'

/-- Things happen one after the other. -/
abbrev Runs : Server → Server → Prop := Relation.ReflTransGen Step

/-- **What can come about**, however the steps of the threads are interleaved. -/
def Reachable (s : Server) : Prop := ∃ st r w, Runs (start st r w) s

/-- The server after moves that are made one after the other, if they can be made. -/
def run? (s : Server) (moves : List Move) : Option Server := moves.foldlM step? s

theorem runs_of_run? {moves : List Move} (h : s.run? moves = some s') : Runs s s' :=
  reflTransGen_of_foldlM h

/-- The thread after a reply. -/
def after (s : Server) (th : Thread) (q : Ask) (r : q.Reply)
    (next : Task (Except Failure th.kind.Value)) : Thread :=
  { th with levels := th.levelsAfter s q r, task := next }

/-- **The ways in which a server moves.** -/
inductive Moves (s : Server) : Server → Prop
  /-- A thread begins a request. -/
  | start (number : Nat) (kind : Production) {p : Path} {key : String}
    (hkey : p.canonical s.world.workingDirectory = .ok key) :
    Moves s { s with clock := s.clock + 1
                     threads := ⟨number, kind, key, s.clock, [[s.clock]],
                       (Task.atKey s.strategy p key kind).run⟩ :: s.threads }
  /-- A thread takes a step. -/
  | advance {i : Nat} {th : Thread} {q : Ask} {next : q.Reply → Task (Except Failure th.kind.Value)}
    {r : q.Reply} {s' : Server} (hth : s.threads[i]? = some th) (htask : th.task = .ask q next)
    (hreply : s.reply? th q = some (r, s')) :
    Moves s { s' with clock := s.clock + 1, threads := s.threads.set i (s.after th q r (next r)) }
  /-- A thread goes away. -/
  | finish (i : Nat) : Moves s { s with clock := s.clock + 1, threads := s.threads.eraseIdx i }
  /-- The world changes. -/
  | change (w : World) : Moves s { s with clock := s.clock + 1, world := w }
  /-- A key is forgotten. -/
  | forget (key : String) (kind : Production) : Moves s (s.forget key kind)

theorem afterLook_request (st : Strategy) {w : World} {p : Path} {key : String}
    (hkey : p.canonical w.workingDirectory = .ok key) (kind : Production) :
    (kind.request st p).run.afterLook w = (Task.atKey st p key kind).run := by
  rw [Task.request_eq]
  change ((do
    let key ← (liftM (p.canonical w.workingDirectory) : ExceptT Failure Task String)
    Task.host.intern key
    return key) >>= fun key => Task.atKey st p key kind).run = _
  rw [hkey]
  rfl

/-- A request that begins has found its key, and its thread has no other one under way. -/
theorem exists_of_begin? {number : Nat} {kind : Production} {p : Path}
    (h : s.begin? number kind p = some s') :
    ∃ key, p.canonical s.world.workingDirectory = .ok key ∧ (∀ th ∈ s.threads, th.number ≠ number) ∧
      s' = { s with clock := s.clock + 1
                    threads := ⟨number, kind, key, s.clock, [[s.clock]],
                      (Task.atKey s.strategy p key kind).run⟩ :: s.threads } := by
  unfold begin? at h
  rcases hkey : p.canonical s.world.workingDirectory with e | key
  · rw [hkey] at h
    cases h
  · rw [hkey] at h
    dsimp only at h
    split_ifs at h with hnew
    cases h
    refine ⟨key, rfl, by simpa using hnew, ?_⟩
    rw [afterLook_request s.strategy hkey]

/-- A thread that takes a step has got a reply, and goes on with it. -/
theorem exists_of_advance? {i : Nat} (h : s.advance? i = some s') :
    ∃ (th : Thread) (q : Ask) (next : q.Reply → Task (Except Failure th.kind.Value)) (r : q.Reply)
      (s₁ : Server), s.threads[i]? = some th ∧ th.task = .ask q next ∧
        s.reply? th q = some (r, s₁) ∧
          s' = { s₁ with clock := s.clock + 1
                         threads := s.threads.set i (s.after th q r (next r)) } := by
  unfold advance? at h
  rcases hth : s.threads[i]? with _ | th
  · rw [hth] at h
    cases h
  · rw [hth] at h
    dsimp only at h
    rcases htask : th.task with r | ⟨q, next⟩
    · rw [htask] at h
      cases h
    · rw [htask] at h
      obtain ⟨⟨r, s₁⟩, hreply, rfl⟩ := Option.map_eq_some_iff.1 h
      exact ⟨th, q, next, r, s₁, rfl, htask, hreply, rfl⟩

/-- A thread that goes away has its answer. -/
theorem exists_of_finish? {i : Nat} (h : s.finish? i = some s') :
    ∃ (th : Thread) (r : Except Failure th.kind.Value), s.threads[i]? = some th ∧
      th.task = .done r ∧
      s' = { s with clock := s.clock + 1, threads := s.threads.eraseIdx i } := by
  unfold finish? at h
  rcases hth : s.threads[i]? with _ | th
  · rw [hth] at h
    cases h
  · rw [hth] at h
    dsimp only at h
    rcases htask : th.task with r | ⟨q, next⟩
    · rw [htask] at h
      cases h
      exact ⟨th, r, rfl, htask, rfl⟩
    · rw [htask] at h
      cases h

theorem moves_of_step? (h : s.Step s') : s.Moves s' := by
  obtain ⟨m, h⟩ := h
  cases m with
  | start number kind p =>
    obtain ⟨key, hkey, -, rfl⟩ := exists_of_begin? h
    exact .start number kind hkey
  | advance i =>
    obtain ⟨th, q, next, r, s₁, hth, htask, hreply, rfl⟩ := exists_of_advance? h
    exact .advance hth htask hreply
  | finish i =>
    obtain ⟨th, r, -, -, rfl⟩ := exists_of_finish? h
    exact .finish i
  | change w =>
    cases h
    exact .change w
  | forget key kind =>
    cases h
    exact .forget key kind

/-- Every step has a time. -/
theorem clock_eq_of_moves (h : s.Moves s') : s'.clock = s.clock + 1 := by
  cases h <;> rfl

theorem clock_le_of_runs (h : Runs s s') : s.clock ≤ s'.clock := by
  induction h with
  | refl => exact Nat.le_refl _
  | tail _ hstep ih =>
    have hclock := clock_eq_of_moves (moves_of_step? hstep)
    omega

/-! ### Replies -/

/-- **What a step of a thread makes of the cache and of the record.** It stores something, or it
leaves the record as it is and what is kept. -/
theorem reply?_cases {q : Ask} {r : q.Reply} (h : s.reply? th q = some (r, s')) :
    (∃ kind key value, q = .store kind key value ∧ s'.cache = s.cache.put kind key value ∧
      s'.filings = (s.filing? th kind key value).toList ++ s.filings) ∨
    (∀ kind key, s'.cache.found? kind key = s.cache.found? kind key) ∧
      s'.filings = s.filings := by
  cases q with
  | look =>
    cases h
    exact Or.inr ⟨fun _ _ => rfl, rfl⟩
  | find kind key =>
    cases h
    exact Or.inr ⟨s.cache.found?_lookUp kind key, rfl⟩
  | store kind key value =>
    cases h
    exact Or.inl ⟨kind, key, value, rfl, rfl, rfl⟩
  | enter kind key =>
    obtain ⟨c, -, hc⟩ := Option.map_eq_some_iff.1 h
    cases hc
    exact Or.inr ⟨fun _ _ => rfl, rfl⟩
  | goOn kind stage =>
    obtain ⟨c, -, hc⟩ := Option.map_eq_some_iff.1 h
    cases hc
    exact Or.inr ⟨fun _ _ => rfl, rfl⟩

/-- **On what a thread rests after a step**: on what it rested on before, on a look at the world
now, or on what that rests on which it has found. -/
theorem mem_basis_after {q : Ask} {r : q.Reply} (h : s.reply? th q = some (r, s'))
    (next : Task (Except Failure th.kind.Value)) {t : Nat} (ht : t ∈ (s.after th q r next).basis) :
    t ∈ th.basis ∨ t = s.clock ∨ ∃ kind key, q = .find kind key ∧
      (s.cache.found? kind key).isSome ∧ t ∈ s.basisOf kind key := by
  cases q with
  | look =>
    rcases Thread.mem_flatten_noted.1 ht with ht | ht
    · exact Or.inr (Or.inl (List.mem_singleton.1 ht))
    · exact Or.inl ht
  | find kind key =>
    have hr : r = s.cache.found? kind key := by
      cases h
      exact s.cache.fst_lookUp kind key
    cases r with
    | none => exact Or.inl ht
    | some a =>
      rcases Thread.mem_flatten_noted.1 ht with ht | ht
      · exact Or.inr (Or.inr ⟨kind, key, rfl, hr ▸ rfl, ht⟩)
      · exact Or.inl ht
  | store kind key value => exact Or.inl ht
  | enter kind key => exact Or.inl ht
  | goOn kind stage =>
    refine Or.inl ?_
    cases stage with
    | inside =>
      have hclosed : t ∈ (Thread.closed th.levels).flatten := ht
      rwa [Thread.flatten_closed] at hclosed
    | waiting => exact ht
    | leaving => exact ht
    | retired => exact ht

/-! ### Every server -/

/-- **What is true of a server at all times.** -/
structure IsOrderly (s : Server) : Prop where
  /-- Threads have begun their requests before. -/
  threads : ∀ th ∈ s.threads, th.started < s.clock
  /-- So have those that stored something. -/
  filings : ∀ f ∈ s.filings, f.started < s.clock
  /-- Threads have to do with no other key than theirs. -/
  keeps : ∀ th ∈ s.threads, th.task.Obeys (Ask.KeepsTo th.key) fun _ => True

theorem isOrderly_start (st : Strategy) (r : Retention) (w : World) :
    (start st r w).IsOrderly where
  threads _ h := by cases h
  filings _ h := by cases h
  keeps _ h := by cases h

/-- A record of what a thread stores is one of its request, made now. -/
theorem of_mem_filing? {kind : Production} {key : String} {value : kind.Value} {f : Filing}
    (h : f ∈ s.filing? th kind key value) :
    f.time = s.clock ∧ f.started = th.started ∧ f.kind = kind ∧
      kind.landing key value = some f.key ∧ f.basis = th.levels.headD [] := by
  obtain ⟨key', hkey', rfl⟩ := Option.map_eq_some_iff.1 h
  exact ⟨rfl, rfl, rfl, hkey', rfl⟩

/-- What is in the record after a step of a thread was there before, or is of that thread's
making. -/
theorem mem_filings_of_reply? {q : Ask} {r : q.Reply} (h : s.reply? th q = some (r, s'))
    {f : Filing} (hf : f ∈ s'.filings) :
    f ∈ s.filings ∨ ∃ kind key value, q = .store kind key value ∧
      f ∈ s.filing? th kind key value := by
  rcases reply?_cases h with ⟨kind, key, value, hq, -, hfilings⟩ | ⟨-, hfilings⟩
  · rw [hfilings] at hf
    rcases List.mem_append.1 hf with hf | hf
    · exact Or.inr ⟨kind, key, value, hq, Option.mem_toList.1 hf⟩
    · exact Or.inl hf
  · exact Or.inl (hfilings ▸ hf)

/-- Nothing is ever taken out of the record. -/
theorem filings_subset_of_reply? {q : Ask} {r : q.Reply} (h : s.reply? th q = some (r, s')) :
    s.filings ⊆ s'.filings := by
  rcases reply?_cases h with ⟨kind, key, value, -, -, hfilings⟩ | ⟨-, hfilings⟩
  · rw [hfilings]
    exact List.subset_append_right _ _
  · rw [hfilings]
    exact List.Subset.refl _

namespace IsOrderly

/-- Only the time has gone on, and no thread has come to it. -/
theorem of_subset (hs : s.IsOrderly) (hclock : s'.clock = s.clock + 1)
    (hfilings : s'.filings = s.filings) (hthreads : ∀ th ∈ s'.threads, th ∈ s.threads) :
    s'.IsOrderly := by
  refine ⟨fun th hth => ?_, fun f hf => ?_, fun th hth => hs.keeps th (hthreads th hth)⟩
  · have hstarted := hs.threads th (hthreads th hth)
    omega
  · have hstarted := hs.filings f (hfilings ▸ hf)
    omega

/-- A thread begins a request. -/
theorem start (hs : s.IsOrderly) (number : Nat) (kind : Production) {p : Path} {key : String}
    (hkey : p.canonical s.world.workingDirectory = .ok key) :
    IsOrderly { s with clock := s.clock + 1
                       threads := ⟨number, kind, key, s.clock, [[s.clock]],
                         (Task.atKey s.strategy p key kind).run⟩ :: s.threads } := by
  refine ⟨fun th hth => ?_, fun f hf => Nat.lt_succ_of_lt (hs.filings f hf), fun th hth => ?_⟩
  · rcases List.mem_cons.1 hth with rfl | hth
    · exact Nat.lt_succ_self s.clock
    · exact Nat.lt_succ_of_lt (hs.threads th hth)
  · rcases List.mem_cons.1 hth with rfl | hth
    · have hkeeps := Task.keeps_atKey s.strategy p (Path.canonical_ofString hkey) kind
      exact Task.Obeys.mono hkeeps (fun _ h => h) fun _ _ => trivial
    · exact hs.keeps th hth

/-- A thread takes a step. -/
theorem advance (hs : s.IsOrderly) {i : Nat} {q : Ask}
    {next : q.Reply → Task (Except Failure th.kind.Value)} {r : q.Reply}
    (hth : s.threads[i]? = some th) (htask : th.task = .ask q next)
    (hreply : s.reply? th q = some (r, s')) :
    IsOrderly { s' with clock := s.clock + 1
                        threads := s.threads.set i (s.after th q r (next r)) } := by
  have hmem : th ∈ s.threads := List.mem_of_getElem? hth
  refine ⟨fun th' hth' => ?_, fun f hf => ?_, fun th' hth' => ?_⟩
  · rcases List.mem_or_eq_of_mem_set hth' with hth' | rfl
    · exact Nat.lt_succ_of_lt (hs.threads th' hth')
    · exact Nat.lt_succ_of_lt (hs.threads th hmem)
  · rcases mem_filings_of_reply? hreply hf with hf | ⟨kind, key, value, -, hf⟩
    · exact Nat.lt_succ_of_lt (hs.filings f hf)
    · rw [(of_mem_filing? hf).2.1]
      exact Nat.lt_succ_of_lt (hs.threads th hmem)
  · rcases List.mem_or_eq_of_mem_set hth' with hth' | rfl
    · exact hs.keeps th' hth'
    · have hkeeps := hs.keeps th hmem
      rw [htask] at hkeeps
      exact hkeeps.2 r

theorem moves (hs : s.IsOrderly) (h : s.Moves s') : s'.IsOrderly := by
  rcases h with ⟨number, kind, hkey⟩ | ⟨hth, htask, hreply⟩ | i | w | ⟨key, kind⟩
  · exact hs.start number kind hkey
  · exact hs.advance hth htask hreply
  · exact hs.of_subset rfl rfl fun th hth => List.mem_of_mem_eraseIdx hth
  · exact hs.of_subset rfl rfl fun _ hth => hth
  · exact hs.of_subset rfl rfl fun _ hth => hth

theorem runs (hs : s.IsOrderly) (h : Runs s s') : s'.IsOrderly := by
  induction h with
  | refl => exact hs
  | tail _ hstep ih => exact ih.moves (moves_of_step? hstep)

end IsOrderly

theorem Reachable.isOrderly (h : s.Reachable) : s.IsOrderly := by
  obtain ⟨st, r, w, hruns⟩ := h
  exact (isOrderly_start st r w).runs hruns

end Server

end SnapStore
