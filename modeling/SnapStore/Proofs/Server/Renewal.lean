import SnapStore.Proofs.Server.Steps
import SnapStore.World.Change

/-!
# What is answered after a key was forgotten

To forget a key is to say that what is kept under it no longer holds. Whoever asks for it from then
on should be answered by what the world has been looked at for since. This is almost so. What a
request has computed is stored when the computation is over, and nobody looks whether the key was
forgotten meanwhile; so a request that is under way while the key is forgotten brings back what it
saw before (`SnapStore.Filing.Straddles`), and then it is found.

That is the only way. If an answer to a later request rests on a look at the world from before, then
this look was for something that such a request has stored.

The invariant has two parts. On each shelf, once the key was forgotten there, what is found under
the key was stored since then (`SnapStore.Server.IsRenewedOn`). When that is so on all shelves,
whatever was stored under the key since, and whatever later requests have found, rests on older
looks only with that excuse (`SnapStore.Server.IsRenewed`).
-/

namespace SnapStore

/-- **Something was stored under a key by a request that was under way** when the key was forgotten,
which took from the one time to the other. -/
def Filing.Straddles (key : String) (began ended : Nat) (f : Filing) : Prop :=
  f.key = key ∧ began ≤ f.time ∧ f.started < ended

namespace Server

variable {s s' : Server} {th : Thread} {key : String} {kind : Production} {began ended t : Nat}

/-- A look at the world was for something that was stored in this way. -/
def Excuses (s : Server) (key : String) (began ended t : Nat) : Prop :=
  ∃ f ∈ s.filings, f.Straddles key began ended ∧ t ∈ f.basis

/-- A key is forgotten on all shelves, one after the other, while other things happen. -/
def Invalidates (key : String) (s s' : Server) : Prop :=
  ∃ a b c, Runs s a ∧ Runs (a.forget key .entry) b ∧ Runs (b.forget key .tree) c ∧
    Runs (c.forget key .aggregate) s'

/-! ### One shelf -/

/-- What is found on a shelf under a key was stored since some time. -/
structure IsRenewedOn (key : String) (began : Nat) (kind : Production) (s : Server) : Prop where
  /-- The time has come. -/
  clock : began ≤ s.clock
  /-- What is found was stored since. -/
  latest : (s.cache.found? kind key).isSome → ∃ f, s.latest? kind key = some f ∧ began ≤ f.time

/-- What is stored under a key last is the latest that is kept there. -/
theorem latest?_of_store {kind' : Production} {key' : String} {value : kind'.Value}
    (h : s'.filings = (s.filing? th kind' key' value).toList ++ s.filings) :
    s'.latest? kind key = if kind' = kind ∧ kind'.landing key' value = some key then
      s.filing? th kind' key' value else s.latest? kind key := by
  rw [latest?, h, filing?]
  rcases kind'.landing key' value with _ | landed
  · rw [if_neg (by simp)]
    rfl
  · change List.find? _ (_ :: s.filings) = _
    by_cases hlands : kind' = kind ∧ landed = key
    · rw [List.find?_cons_of_pos (by simpa using hlands), if_pos (by simpa using hlands)]
      rfl
    · rw [List.find?_cons_of_neg (by simpa using hlands), if_neg (by simpa using hlands)]
      rfl

namespace IsRenewedOn

/-- A shelf on which a key has just been forgotten. -/
theorem of_forget (h : began ≤ s.clock) : (s.forget key kind).IsRenewedOn key began kind where
  clock := Nat.le_succ_of_le h
  latest hfound := by
    change ((s.cache.forget key kind).found? kind key).isSome at hfound
    rw [Cache.found?_forget_self] at hfound
    cases hfound

theorem advance (hs : s.IsRenewedOn key began kind) {q : Ask} {r : q.Reply}
    (hreply : s.reply? th q = some (r, s')) (threads : List Thread) :
    IsRenewedOn key began kind { s' with clock := s.clock + 1, threads := threads } := by
  refine ⟨Nat.le_succ_of_le hs.clock, fun hfound => ?_⟩
  change ∃ f, s'.latest? kind key = some f ∧ began ≤ f.time
  rcases reply?_cases hreply with ⟨kind', key', value, -, hcache, hfilings⟩ | ⟨hcache, hfilings⟩
  · have hput : ((s.cache.put kind' key' value).found? kind key).isSome := hcache ▸ hfound
    rw [latest?_of_store hfilings]
    by_cases hlands : kind' = kind ∧ kind'.landing key' value = some key
    · rw [if_pos hlands, filing?, hlands.2]
      exact ⟨_, rfl, hs.clock⟩
    · rw [if_neg hlands]
      rcases Cache.isSome_found?_put hput with ⟨rfl, hlanding⟩ | hbefore
      · exact absurd ⟨rfl, hlanding⟩ hlands
      · exact hs.latest hbefore
  · have hbefore : (s.cache.found? kind key).isSome := hcache kind key ▸ hfound
    rw [latest?, hfilings]
    exact hs.latest hbefore

theorem moves (hs : s.IsRenewedOn key began kind) (h : s.Moves s') :
    s'.IsRenewedOn key began kind := by
  rcases h with ⟨number, kind', hkey⟩ | ⟨hth, htask, hreply⟩ | i | w | ⟨key', kind'⟩
  · exact ⟨Nat.le_succ_of_le hs.clock, hs.latest⟩
  · exact hs.advance hreply _
  · exact ⟨Nat.le_succ_of_le hs.clock, hs.latest⟩
  · exact ⟨Nat.le_succ_of_le hs.clock, hs.latest⟩
  · exact ⟨Nat.le_succ_of_le hs.clock, fun hfound => hs.latest (Cache.isSome_found?_forget hfound)⟩

theorem runs (hs : s.IsRenewedOn key began kind) (h : Runs s s') :
    s'.IsRenewedOn key began kind := by
  induction h with
  | refl => exact hs
  | tail _ hstep ih => exact ih.moves (moves_of_step? hstep)

end IsRenewedOn

/-! ### All shelves -/

/-- **What is true of a key from when it was forgotten.** -/
structure IsRenewed (key : String) (began ended : Nat) (s : Server) : Prop where
  /-- What is found was stored since. -/
  on : ∀ kind, s.IsRenewedOn key began kind
  /-- What was stored since rests on older looks only with an excuse. -/
  filings : ∀ f ∈ s.filings, f.key = key → began ≤ f.time →
    ∀ t ∈ f.basis, t < began → s.Excuses key began ended t
  /-- So do requests from later. -/
  threads : ∀ th ∈ s.threads, th.key = key → ended ≤ th.started →
    ∀ t ∈ th.basis, t < began → s.Excuses key began ended t

theorem Excuses.mono (h : s.Excuses key began ended t) (hfilings : s.filings ⊆ s'.filings) :
    s'.Excuses key began ended t := by
  obtain ⟨f, hf, hstraddles, ht⟩ := h
  exact ⟨f, hfilings hf, hstraddles, ht⟩

namespace IsRenewed

/-- When the key has been forgotten on all shelves, requests from later are still to come, and what
was stored since has its excuse. -/
theorem of_on (hs : s.IsOrderly) (h : ∀ kind, s.IsRenewedOn key began kind) :
    s.IsRenewed key began s.clock where
  on := h
  filings f hf hkey htime _ ht _ := ⟨f, hf, ⟨hkey, htime, hs.filings f hf⟩, ht⟩
  threads th hth _ hstarted := absurd (hs.threads th hth) (Nat.not_lt.2 hstarted)

/-- What is found under the key rests on older looks only with an excuse. -/
theorem excuses_of_mem_basisOf (hs : s.IsRenewed key began ended)
    (hfound : (s.cache.found? kind key).isSome) (ht : t ∈ s.basisOf kind key) (hlt : t < began) :
    s.Excuses key began ended t := by
  obtain ⟨f, hlatest, htime⟩ := (hs.on kind).latest hfound
  have hbasis : s.basisOf kind key = f.basis := by rw [basisOf, hlatest]; rfl
  have hkey : f.kind = kind ∧ f.key = key := by simpa using List.find?_some hlatest
  exact hs.filings f (List.mem_of_find?_eq_some hlatest) hkey.2 htime t (hbasis ▸ ht) hlt

theorem advance (hs : s.IsRenewed key began ended) (horderly : s.IsOrderly) {i : Nat} {q : Ask}
    {next : q.Reply → Task (Except Failure th.kind.Value)} {r : q.Reply}
    (hth : s.threads[i]? = some th) (htask : th.task = .ask q next)
    (hreply : s.reply? th q = some (r, s')) :
    IsRenewed key began ended { s' with clock := s.clock + 1
                                        threads := s.threads.set i (s.after th q r (next r)) } := by
  have hmem : th ∈ s.threads := List.mem_of_getElem? hth
  have hsubset := filings_subset_of_reply? hreply
  have hkeeps : q.KeepsTo th.key := by
    have hkeeps := horderly.keeps th hmem
    rw [htask] at hkeeps
    exact hkeeps.1
  have hclock := (hs.on .entry).clock
  refine ⟨fun kind => (hs.on kind).advance hreply _, fun f hf hkey htime t ht hlt => ?_,
    fun th' hth' hkey hstarted t ht hlt => ?_⟩
  · rcases mem_filings_of_reply? hreply hf with hf | ⟨kind, key', value, rfl, hfiling⟩
    · exact (hs.filings f hf hkey htime t ht hlt).mono hsubset
    · obtain ⟨-, hstarted, -, hlanding, hbasis⟩ := of_mem_filing? hfiling
      rcases Nat.lt_or_ge f.started ended with hearly | hlate
      · exact ⟨f, hf, ⟨hkey, htime, hearly⟩, ht⟩
      · -- The request is from later, and what it stores it has found as a request from later.
        have hthkey : th.key = key := by
          have hlands : kind.landing key' value = some th.key := hkeeps
          rw [hlanding, hkey] at hlands
          exact (Option.some.inj hlands).symm
        have hbasis' : t ∈ th.basis := by
          rw [hbasis] at ht
          exact Thread.mem_basis_of_mem_headD ht
        exact (hs.threads th hmem hthkey (hstarted ▸ hlate) t hbasis' hlt).mono hsubset
  · rcases List.mem_or_eq_of_mem_set hth' with hth' | rfl
    · exact (hs.threads th' hth' hkey hstarted t ht hlt).mono hsubset
    · rcases mem_basis_after hreply (next r) ht with ht | rfl | ⟨kind, key', rfl, hfound, ht⟩
      · exact (hs.threads th hmem hkey hstarted t ht hlt).mono hsubset
      · omega
      · have hkey' : key' = key := hkeeps.trans hkey
        rw [hkey'] at hfound ht
        exact (hs.excuses_of_mem_basisOf hfound ht hlt).mono hsubset

/-- **Every step preserves the invariant.** -/
theorem moves (hs : s.IsRenewed key began ended) (horderly : s.IsOrderly) (h : s.Moves s') :
    s'.IsRenewed key began ended := by
  have hon : ∀ kind, s'.IsRenewedOn key began kind := fun kind => (hs.on kind).moves h
  rcases h with ⟨number, kind, hkey⟩ | ⟨hth, htask, hreply⟩ | i | w | ⟨key', kind⟩
  · refine ⟨hon, hs.filings, fun th hth hthkey hstarted t ht hlt => ?_⟩
    rcases List.mem_cons.1 hth with rfl | hth
    · have hnow : t = s.clock := by simpa [Thread.basis] using ht
      have hclock := (hs.on kind).clock
      omega
    · exact hs.threads th hth hthkey hstarted t ht hlt
  · exact hs.advance horderly hth htask hreply
  · exact ⟨hon, hs.filings, fun th hth => hs.threads th (List.mem_of_mem_eraseIdx hth)⟩
  · exact ⟨hon, hs.filings, hs.threads⟩
  · exact ⟨hon, hs.filings, hs.threads⟩

theorem runs (hs : s.IsRenewed key began ended) (horderly : s.IsOrderly) (h : Runs s s') :
    s'.IsRenewed key began ended := by
  induction h with
  | refl => exact hs
  | tail hruns hstep ih => exact ih.moves (horderly.runs hruns) (moves_of_step? hstep)

end IsRenewed

/-! ### After a key was forgotten -/

theorem step_forget (s : Server) (key : String) (kind : Production) : s.Step (s.forget key kind) :=
  ⟨.forget key kind, rfl⟩

theorem Invalidates.runs {s₀ s₁ : Server} (h : Invalidates key s₀ s₁) : Runs s₀ s₁ := by
  obtain ⟨a, b, c, ha, hb, hc, hs₁⟩ := h
  exact ha.trans ((hb.head (step_forget a key _)).trans
    ((hc.head (step_forget b key _)).trans (hs₁.head (step_forget c key _))))

/-- If nothing happens meanwhile, this is what it is to forget a path. -/
theorem invalidates_at_once (s : Server) (key : String) :
    Invalidates key s (((s.forget key .entry).forget key .tree).forget key .aggregate) ∧
      (((s.forget key .entry).forget key .tree).forget key .aggregate).cache =
        s.cache.invalidate key :=
  ⟨⟨s, _, _, .refl, .refl, .refl, .refl⟩, rfl⟩

/-- When a key has been forgotten on all shelves, it is renewed. -/
theorem Invalidates.isRenewed {s₀ s₁ : Server} (h : Invalidates key s₀ s₁) (hs : s₀.IsOrderly) :
    s₁.IsRenewed key s₀.clock s₁.clock := by
  have horderly := hs.runs h.runs
  obtain ⟨a, b, c, ha, hb, hc, hs₁⟩ := h
  have hb' : Runs a b := hb.head (step_forget a key .entry)
  have hc' : Runs b c := hc.head (step_forget b key .tree)
  have hs₁' : Runs c s₁ := hs₁.head (step_forget c key .aggregate)
  have ha' : s₀.clock ≤ a.clock := clock_le_of_runs ha
  have hb'' : s₀.clock ≤ b.clock := Nat.le_trans ha' (clock_le_of_runs hb')
  have hc'' : s₀.clock ≤ c.clock := Nat.le_trans hb'' (clock_le_of_runs hc')
  have hentry : s₁.IsRenewedOn key s₀.clock .entry :=
    (IsRenewedOn.of_forget ha').runs (hb.trans (hc'.trans hs₁'))
  have htree : s₁.IsRenewedOn key s₀.clock .tree :=
    (IsRenewedOn.of_forget hb'').runs (hc.trans hs₁')
  have haggregate : s₁.IsRenewedOn key s₀.clock .aggregate :=
    (IsRenewedOn.of_forget hc'').runs hs₁
  refine .of_on horderly fun kind => ?_
  cases kind with
  | entry => exact hentry
  | tree => exact htree
  | aggregate => exact haggregate

/-- **What is answered after a key was forgotten.** Let a key be forgotten in any state that can
come about, on one shelf after the other and whatever happens meanwhile, and let anything happen
after that. If a request for the key that has begun since rests on a look at the world from before,
then that look was for something that was stored under the key by a request that was under way: it
was stored after the forgetting had begun, and the request had begun before it was over. -/
theorem Reachable.renewed {s₀ s₁ s₂ : Server} (h : s₀.Reachable) (hforgets : Invalidates key s₀ s₁)
    (hruns : Runs s₁ s₂) (hth : th ∈ s₂.threads) (hkey : th.key = key)
    (hstarted : s₁.clock ≤ th.started) :
    ∀ t ∈ th.basis, t < s₀.clock → ∃ f ∈ s₂.filings, f.key = key ∧ s₀.clock ≤ f.time ∧
      f.started < s₁.clock ∧ t ∈ f.basis := by
  intro t ht hlt
  have hrenewed := hforgets.isRenewed h.isOrderly
  have hrenewed' := hrenewed.runs (h.isOrderly.runs hforgets.runs) hruns
  obtain ⟨f, hf, ⟨hfkey, htime, hearly⟩, hbasis⟩ := hrenewed'.threads th hth hkey hstarted t ht hlt
  exact ⟨f, hf, hfkey, htime, hearly, hbasis⟩

/-! ### A key that comes back -/

/-- **A request is overtaken.** The first thread looks for a file and there is none. Before it
stores this, a directory is made in its place and the key is forgotten. The second thread asks only
afterwards, and is told that there is nothing. -/
theorem exists_overtaken : ∃ s₀ s₁ s₂ : Server,
    s₀.Reachable ∧ Invalidates "/f" s₀ s₁ ∧ Runs s₁ s₂ ∧ s₀.clock = 7 ∧ s₁.clock = 10 ∧
      (s₀.world.stat (.ofString "/f")).toOption.map Status.kind = some .directory ∧
      s₂.threads[0]? =
        some ⟨2, .entry, "/f", 14, [[5, 14]], .done (.ok (.missing "/f" "f"))⟩ := by
  obtain ⟨s₀, hs₀, hclock, hstat, s₂, hs₂, hanswer⟩ : ∃ s₀ : Server,
      (start .default .all .empty).run? [.start 1 .entry (.ofString "/f"), .advance 0, .advance 0,
        .advance 0, .advance 0, .advance 0,
        .change (World.empty.apply (.makeDirectory (.ofString "/f"))).world] = some s₀ ∧
      s₀.clock = 7 ∧
      (s₀.world.stat (.ofString "/f")).toOption.map Status.kind = some .directory ∧
      ∃ s₂ : Server, (((s₀.forget "/f" .entry).forget "/f" .tree).forget "/f" .aggregate).run?
        [.advance 0, .advance 0, .advance 0, .advance 0, .start 2 .entry (.ofString "/f"),
          .advance 0] = some s₂ ∧
        s₂.threads[0]? =
          some ⟨2, .entry, "/f", 14, [[5, 14]], .done (.ok (.missing "/f" "f"))⟩ :=
    ⟨_, rfl, rfl, rfl, _, rfl, rfl⟩
  refine ⟨s₀, _, s₂, ⟨_, _, _, runs_of_run? hs₀⟩, (invalidates_at_once s₀ "/f").1,
    runs_of_run? hs₂, hclock, ?_, hstat, hanswer⟩
  exact congrArg (· + 3) hclock

/-- So it is not true that answers to later requests rest on later looks alone. -/
theorem not_forall_answer_renewed : ¬∀ (s₀ s₁ s₂ : Server) (key : String) (th : Thread),
    s₀.Reachable → Invalidates key s₀ s₁ → Runs s₁ s₂ → th ∈ s₂.threads → th.key = key →
      s₁.clock ≤ th.started → ∀ a, th.task = .done (.ok a) → ∀ t ∈ th.basis, s₀.clock ≤ t := by
  intro h
  obtain ⟨s₀, s₁, s₂, hs₀, hforgets, hruns, hclock, hclock', -, hanswer⟩ := exists_overtaken
  have hmem := List.mem_of_getElem? hanswer
  have hstarted : s₁.clock ≤ 14 := by omega
  have hle := h s₀ s₁ s₂ "/f" _ hs₀ hforgets hruns hmem rfl hstarted _ rfl 5 (by decide)
  omega

/-- The excuse is what the first thread has stored. -/
theorem Reachable.renewed_of_overtaken : ∃ s₀ s₁ s₂ : Server, ∃ th ∈ s₂.threads,
    s₀.Reachable ∧ Invalidates "/f" s₀ s₁ ∧ Runs s₁ s₂ ∧ th.key = "/f" ∧ s₁.clock ≤ th.started ∧
      ∃ t ∈ th.basis, t < s₀.clock ∧ ∃ f ∈ s₂.filings, f.key = "/f" ∧ s₀.clock ≤ f.time ∧
        f.started < s₁.clock ∧ t ∈ f.basis := by
  obtain ⟨s₀, s₁, s₂, hs₀, hforgets, hruns, hclock, hclock', -, hanswer⟩ := exists_overtaken
  have hmem := List.mem_of_getElem? hanswer
  have hstarted : s₁.clock ≤ 14 := by omega
  have hlt : 5 < s₀.clock := by omega
  have hrenewed := Reachable.renewed hs₀ hforgets hruns hmem rfl hstarted
  exact ⟨s₀, s₁, s₂, _, hmem, hs₀, hforgets, hruns, rfl, hstarted, 5, by decide, hlt,
    hrenewed 5 (by decide) hlt⟩

end Server

end SnapStore
