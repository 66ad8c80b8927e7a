import SnapStore.Proofs.Server.Course
import SnapStore.Proofs.Server.Phase

/-!
# Calls and locks

The locks are kept by the server, and what a call has done is known from the events. The two agree
(`SnapStore.Server.IsSeated`): for each kind of things, a thread stands in the section of its key as
far as the phase of its call says, or in none at all; and nobody else stands anywhere.

So what is true of locks is true of calls. Of the calls with one key, only one at a time is inside
of the section (`SnapStore.Server.IsSeated.eq_of_inside`), and a call that cannot go on waits for it
(`SnapStore.Server.IsSeated.exists_inside_of_reply?_eq_none`).
-/

namespace SnapStore

/-- Where the thread of a call stands that is in some phase. -/
def Phase.seat (phase : Phase) (key : String) : List (String × Stage) :=
  (phase.stage?.map (key, ·)).toList

/-- The phase of the call that a thread has under way. -/
def Thread.phase (kind : Production) (events : List Event) (th : Thread) : Phase :=
  .ofDeeds kind (deedsOf th.started events)

namespace Server

variable {st : Strategy} {s s' : Server} {events : List Event} {th : Thread} {kind : Production}

/-! ### What a thread has still to do -/

namespace IsRecorded

/-- A thread has the rest of a protocol to follow. -/
theorem follows (hs : s.IsRecorded st events) (hth : th ∈ s.threads) (kind : Production) :
    th.task.Follows (Phase.rule kind) (fun phase _ => phase = .outside) (th.phase kind events) := by
  obtain ⟨p, cwd, hkey, -, hleads⟩ := hs.underWay th hth
  exact (Task.follows_atKey (Path.canonical_ofString hkey) th.kind).of_leads hleads

/-- What a thread asks next is what it may ask. -/
theorem allows (hs : s.IsRecorded st events) (hth : th ∈ s.threads) {q : Ask}
    {next : q.Reply → Task (Except Failure th.kind.Value)} (htask : th.task = .ask q next)
    (kind : Production) : (th.phase kind events).Allows kind q := by
  have hfollows := hs.follows hth kind
  rw [htask] at hfollows
  exact hfollows.1

/-- A call that is over is outside. -/
theorem outside (hs : s.IsRecorded st events) (hth : th ∈ s.threads)
    {r : Except Failure th.kind.Value} (htask : th.task = .done r) (kind : Production) :
    th.phase kind events = .outside := by
  have hfollows := hs.follows hth kind
  rw [htask] at hfollows
  exact hfollows

end IsRecorded

theorem IsOrderly.keepsTo (hs : s.IsOrderly) (hth : th ∈ s.threads) {q : Ask}
    {next : q.Reply → Task (Except Failure th.kind.Value)} (htask : th.task = .ask q next) :
    q.KeepsTo th.key := by
  have hkeeps := hs.keeps th hth
  rw [htask] at hkeeps
  exact hkeeps.1

/-! ### What a reply makes of the locks -/

theorem crowds_withCrowd_self (s : Server) (kind : Production) (c : Crowd String) :
    (s.withCrowd kind c).crowds kind = c := Function.update_self ..

theorem crowds_withCrowd_of_ne (s : Server) {kind kind' : Production} (h : kind ≠ kind')
    (c : Crowd String) : (s.withCrowd kind' c).crowds kind = s.crowds kind :=
  Function.update_of_ne h ..

/-- **What a step of a thread makes of the locks for a kind.** It begins a section, or it goes on in
one, or it does nothing about them. -/
theorem crowds_of_reply? {q : Ask} {r : q.Reply} (h : s.reply? th q = some (r, s'))
    (kind : Production) :
    (∃ key, q = .enter kind key ∧ (s.crowds kind).enter? th.number key = some (s'.crowds kind)) ∨
    (∃ stage, q = .goOn kind stage ∧ (s.crowds kind).advance? th.number = some (s'.crowds kind)) ∨
    (∀ key, q ≠ .enter kind key) ∧ (∀ stage, q ≠ .goOn kind stage) ∧
      s'.crowds kind = s.crowds kind := by
  cases q with
  | look =>
    cases h
    exact Or.inr (Or.inr ⟨nofun, nofun, rfl⟩)
  | find kind' key =>
    cases h
    exact Or.inr (Or.inr ⟨nofun, nofun, rfl⟩)
  | store kind' key a =>
    cases h
    exact Or.inr (Or.inr ⟨nofun, nofun, rfl⟩)
  | enter kind' key =>
    obtain ⟨c, hc, heq⟩ := Option.map_eq_some_iff.1 h
    cases heq
    by_cases hkind : kind' = kind
    · subst hkind
      exact Or.inl ⟨key, rfl, (crowds_withCrowd_self ..).symm ▸ hc⟩
    · refine Or.inr (Or.inr ⟨?_, nofun, crowds_withCrowd_of_ne s (Ne.symm hkind) c⟩)
      rintro _ ⟨⟩
      exact hkind rfl
  | goOn kind' stage =>
    obtain ⟨c, hc, heq⟩ := Option.map_eq_some_iff.1 h
    cases heq
    by_cases hkind : kind' = kind
    · subst hkind
      exact Or.inr (Or.inl ⟨stage, rfl, (crowds_withCrowd_self ..).symm ▸ hc⟩)
    · refine Or.inr (Or.inr ⟨nofun, ?_, crowds_withCrowd_of_ne s (Ne.symm hkind) c⟩)
      rintro _ ⟨⟩
      exact hkind rfl

/-- The other threads stand where they stood. -/
theorem standing_of_ne {q : Ask} {r : q.Reply} (h : s.reply? th q = some (r, s')) {other : Nat}
    (hne : other ≠ th.number) (kind : Production) :
    (s'.crowds kind).standing other = (s.crowds kind).standing other := by
  rcases crowds_of_reply? h kind with ⟨key, -, hc⟩ | ⟨stage, -, hc⟩ | ⟨-, -, hc⟩
  · rw [Crowd.standing_enter? hc, if_neg hne]
  · obtain ⟨-, -, -, -, -, hothers⟩ := Crowd.exists_standing_of_advance? hc
    exact hothers other hne
  · rw [hc]

/-- **A thread stands where its phase says** if it stood there before. -/
theorem standing_of_reply? {q : Ask} {r : q.Reply} (h : s.reply? th q = some (r, s'))
    {phase : Phase} (hstanding : (s.crowds kind).standing th.number = phase.seat th.key)
    (hallows : phase.Allows kind q) (hkeeps : q.KeepsTo th.key) :
    (s'.crowds kind).standing th.number = (phase.after kind q r).seat th.key := by
  rcases crowds_of_reply? h kind with ⟨key, rfl, hc⟩ | ⟨stage, rfl, hc⟩ | ⟨henter, hgoOn, hc⟩
  · rw [Crowd.standing_enter? hc, if_pos rfl, hstanding, hallows rfl, Phase.after, if_pos rfl,
      show key = th.key from hkeeps]
    rfl
  · obtain ⟨key, stage', below, hbefore, hafter, -⟩ := Crowd.exists_standing_of_advance? hc
    have hstage : phase.stage? = some stage := hallows rfl
    -- The thread stands in one section only, for things of this kind.
    have hseat : (s.crowds kind).standing th.number = [(th.key, stage)] := by
      rw [hstanding, Phase.seat, hstage]
      rfl
    rw [hseat] at hbefore
    cases hbefore
    rw [hafter, Phase.after, if_pos rfl, Phase.seat, Phase.stage?_next, hstage]
    exact List.append_nil _
  · rw [hc, hstanding, Phase.seat, Phase.seat, Phase.stage?_after henter hgoOn hallows]

/-- The phase of a call after a step. -/
theorem phase_after (s : Server) (kind : Production) (events : List Event) (th : Thread) (q : Ask)
    (r : q.Reply) (next : Task (Except Failure th.kind.Value)) :
    (s.after th q r next).phase kind (events ++ [.did th.started ⟨q, r⟩]) =
      (th.phase kind events).after kind q r := by
  change Phase.ofDeeds kind (deedsOf th.started _) = _
  rw [deedsOf_did_self, Phase.ofDeeds_concat]
  rfl

/-! ### The invariant -/

/-- **Threads stand where their calls are.** -/
structure IsSeated (events : List Event) (s : Server) : Prop where
  /-- At most one thread is inside under a key. -/
  sound : ∀ kind, (s.crowds kind).IsSound
  /-- No lock is held for nothing. -/
  regular : ∀ kind, (s.crowds kind).table.IsRegular
  /-- A thread stands where the phase of its call says. -/
  standing : ∀ th ∈ s.threads, ∀ kind,
    (s.crowds kind).standing th.number = (th.phase kind events).seat th.key
  /-- Nobody else stands anywhere. -/
  nobody : ∀ number, (∀ th ∈ s.threads, th.number ≠ number) → ∀ kind,
    (s.crowds kind).standing number = []

theorem isSeated_start (st : Strategy) (r : Retention) (w : World) :
    IsSeated [] (start st r w) where
  sound _ := Crowd.isSound_empty
  regular _ _ _ h := by cases h
  standing _ h := by cases h
  nobody _ _ _ := rfl

namespace IsSeated

variable {i : Nat}

theorem mem_standing_iff (hs : s.IsSeated events) (hth : th ∈ s.threads) {key : String}
    {stage : Stage} : (key, stage) ∈ (s.crowds kind).standing th.number ↔
      key = th.key ∧ (th.phase kind events).stage? = some stage := by
  rw [hs.standing th hth kind, Phase.seat, Option.mem_toList, Option.map_eq_some_iff]
  constructor
  · rintro ⟨_, hstage, heq⟩
    cases heq
    exact ⟨rfl, hstage⟩
  · rintro ⟨rfl, hstage⟩
    exact ⟨stage, hstage, rfl⟩

/-- **Two calls inside under one key are one call.** -/
theorem eq_of_inside (hs : s.IsSeated events) (kind : Production) {th' : Thread}
    (hth : th ∈ s.threads) (hth' : th' ∈ s.threads) (hkey : th.key = th'.key)
    (hinside : (th.phase kind events).stage? = some .inside)
    (hinside' : (th'.phase kind events).stage? = some .inside) : th.number = th'.number :=
  (hs.sound kind).eq_of_inside ((hs.mem_standing_iff hth).2 ⟨rfl, hinside⟩)
    ((hs.mem_standing_iff hth').2 ⟨hkey, hinside'⟩)

/-- A thread that begins a request stands nowhere. -/
theorem start (hs : s.IsSeated events) (hrecorded : s.IsRecorded st events) {number : Nat}
    (kind : Production) {p : Path} {key : String} (hnew : ∀ th ∈ s.threads, th.number ≠ number) :
    IsSeated (events ++ [.began s.clock kind p key])
      { s with clock := s.clock + 1
               threads := ⟨number, kind, key, s.clock, [[s.clock]],
                 (Task.atKey s.strategy p key kind).run⟩ :: s.threads } := by
  have hsame : ∀ call, deedsOf call (events ++ [.began s.clock kind p key]) =
      deedsOf call events := fun call => by
    rw [deedsOf_append]
    exact List.append_nil _
  refine ⟨hs.sound, hs.regular, fun th hth kind' => ?_, fun n hn kind' => ?_⟩
  · rw [Thread.phase, hsame]
    rcases List.mem_cons.1 hth with rfl | hth
    · rw [deedsOf_eq_nil fun e he => Nat.ne_of_lt (hrecorded.past e he)]
      exact hs.nobody number hnew kind'
    · exact hs.standing th hth kind'
  · exact hs.nobody n (fun th hth => hn th (List.mem_cons_of_mem _ hth)) kind'

/-- A thread takes a step. -/
theorem advance (hs : s.IsSeated events) (hrecorded : s.IsRecorded st events)
    (horderly : s.IsOrderly) {q : Ask} {next : q.Reply → Task (Except Failure th.kind.Value)}
    {r : q.Reply} (hth : s.threads[i]? = some th) (htask : th.task = .ask q next)
    (hreply : s.reply? th q = some (r, s')) :
    IsSeated (events ++ [.did th.started ⟨q, r⟩])
      { s' with clock := s.clock + 1, threads := s.threads.set i (s.after th q r (next r)) } := by
  have hmem : th ∈ s.threads := List.mem_of_getElem? hth
  have hmoves : ∀ kind,
      (s.crowds kind).Moves (s'.crowds kind) ∨ s'.crowds kind = s.crowds kind := by
    intro kind
    rcases crowds_of_reply? hreply kind with ⟨key, -, hc⟩ | ⟨stage, -, hc⟩ | ⟨-, -, hc⟩
    · exact Or.inl (Crowd.moves_of_step? ⟨.enter th.number key, hc⟩)
    · exact Or.inl (Crowd.moves_of_step? ⟨.advance th.number, hc⟩)
    · exact Or.inr hc
  refine ⟨fun kind => ?_, fun kind => ?_, fun th' hth' kind => ?_, fun n hn kind => ?_⟩
  · rcases hmoves kind with h | h
    · exact (hs.sound kind).moves h
    · exact h ▸ hs.sound kind
  · rcases hmoves kind with h | h
    · exact h.isRegular (hs.regular kind)
    · exact h ▸ hs.regular kind
  · rcases hrecorded.of_mem_set hth hth' with rfl | ⟨hth', hnumber, hstarted⟩
    · rw [phase_after]
      exact standing_of_reply? hreply (hs.standing th hmem kind) (hrecorded.allows hmem htask kind)
        (horderly.keepsTo hmem htask)
    · rw [Thread.phase, deedsOf_did_of_ne hstarted.symm]
      exact (standing_of_ne hreply hnumber kind).trans (hs.standing th' hth' kind)
  · have hbefore : ∀ th' ∈ s.threads, th'.number ≠ n := by
      intro th' hth' heq
      have hnumbers : (s.threads.set i (s.after th q r (next r))).map Thread.number =
          s.threads.map Thread.number := map_set_of_eq hth rfl
      have hmapped : n ∈ (s.threads.set i (s.after th q r (next r))).map Thread.number := by
        rw [hnumbers]
        exact heq ▸ List.mem_map_of_mem hth'
      obtain ⟨th'', hth'', hn''⟩ := List.mem_map.1 hmapped
      exact hn th'' hth'' hn''
    rw [standing_of_ne hreply (hbefore th hmem).symm kind]
    exact hs.nobody n hbefore kind

/-- A thread that goes away stands nowhere. -/
theorem finish (hs : s.IsSeated events) (hrecorded : s.IsRecorded st events)
    {r : Except Failure th.kind.Value} (hth : s.threads[i]? = some th) (htask : th.task = .done r) :
    IsSeated (events ++ [.answered th.started th.kind th.key r])
      { s with clock := s.clock + 1, threads := s.threads.eraseIdx i } := by
  have hmem : th ∈ s.threads := List.mem_of_getElem? hth
  refine ⟨hs.sound, hs.regular, fun th' hth' kind => ?_, fun n hn kind => ?_⟩
  · have hsame : th'.phase kind (events ++ [.answered th.started th.kind th.key r]) =
        th'.phase kind events := by
      rw [Thread.phase, deedsOf_append]
      exact congrArg (Phase.ofDeeds kind) (List.append_nil _)
    rw [hsame]
    exact hs.standing th' (List.mem_of_mem_eraseIdx hth') kind
  · by_cases hnumber : th.number = n
    · change (s.crowds kind).standing n = []
      rw [← hnumber, hs.standing th hmem kind, hrecorded.outside hmem htask kind]
      rfl
    · refine hs.nobody n (fun th' hth' heq => ?_) kind
      rcases eq_or_mem_eraseIdx hth hth' with rfl | hleft
      · exact hnumber heq
      · exact hn th' hleft heq

/-- **Every step preserves the invariant.** -/
theorem shows (hs : s.IsSeated events) (hrecorded : s.IsRecorded st events)
    (horderly : s.IsOrderly) {more : List Event} (h : s.Shows more s') :
    s'.IsSeated (events ++ more) := by
  rcases h with ⟨kind, hkey, hnew⟩ | ⟨hth, htask, hreply⟩ | ⟨hth, htask⟩ | w
  · exact hs.start hrecorded kind hnew
  · exact hs.advance hrecorded horderly hth htask hreply
  · exact hs.finish hrecorded hth htask
  · rw [List.append_nil]
    exact ⟨hs.sound, hs.regular, hs.standing, hs.nobody⟩

/-! ### Who has to wait -/

/-- **A call that cannot go on waits for one that is inside** under the same key. -/
theorem exists_inside_of_reply?_eq_none (hs : s.IsSeated events)
    (hrecorded : s.IsRecorded st events) (hth : th ∈ s.threads) {q : Ask}
    {next : q.Reply → Task (Except Failure th.kind.Value)} (htask : th.task = .ask q next)
    (h : s.reply? th q = none) :
    ∃ kind, q = .goOn kind .waiting ∧ ∃ other ∈ s.threads, other.number ≠ th.number ∧
      other.key = th.key ∧ (other.phase kind events).stage? = some .inside := by
  have hallows := hrecorded.allows hth htask
  cases q with
  | look => cases h
  | find => cases h
  | store => cases h
  | enter kind key =>
    -- A thread that stands nowhere can begin a section.
    have hseat := hs.standing th hth kind
    rw [hallows kind rfl] at hseat
    have henter := Option.map_eq_none_iff.1 h
    rw [Crowd.enter?, if_pos (Crowd.isReady_of_standing_eq_nil hseat)] at henter
    cases henter
  | goOn kind stage =>
    have hstage : (th.phase kind events).stage? = some stage := hallows kind rfl
    have hseat : (s.crowds kind).standing th.number = [(th.key, stage)] := by
      rw [hs.standing th hth kind, Phase.seat, hstage]
      rfl
    obtain ⟨rfl, number, hne, hinside⟩ := (hs.sound kind).exists_inside_of_advance?_eq_none
      (hs.regular kind) hseat (Option.map_eq_none_iff.1 h)
    refine ⟨kind, rfl, ?_⟩
    by_contra hcon
    push Not at hcon
    have hnobody : (s.crowds kind).standing number = [] := by
      refine hs.nobody number (fun other hother hnumber => ?_) kind
      subst hnumber
      obtain ⟨hkey, hinside'⟩ := (hs.mem_standing_iff hother).1 hinside
      exact hcon other hother hne hkey.symm hinside'
    rw [hnobody] at hinside
    cases hinside

end IsSeated

/-- **Threads stand where their calls are**, at all times. -/
theorem Course.isSeated {r : Retention} {w : World} (h : (Server.start st r w).Course events s) :
    s.IsSeated events := by
  induction h with
  | start => exact isSeated_start st r w
  | move m h hkeep hs ih =>
    have horderly := (isOrderly_start st r w).runs h.runs
    exact ih.shows h.isRecorded horderly (shows_of_step? hkeep hs)

end Server

end SnapStore
