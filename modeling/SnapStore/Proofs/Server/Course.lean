import Mathlib.Data.List.Nodup
import SnapStore.Proofs.Server.Deeds
import SnapStore.Proofs.Server.Steps

/-!
# Runs without forgetting

What is asked of a server and what is answered shows in its steps: a call begins, it asks for
something and goes on with the reply, it is answered (`SnapStore.Event`). A run during which nothing
is forgotten is known by its events (`SnapStore.Server.Course`). The world may change at any time,
and the steps of the threads come in any order.

The events tell of every call what it has done (`SnapStore.deedsOf`), and that is all there is to
know of it: what a thread has still to do is what its call comes to by these deeds, and an answer is
what the call has come to (`SnapStore.Server.IsRecorded`).
-/

namespace SnapStore

/-- Something that shows. A call has the number of the time when it began. -/
inductive Event
  /-- A call begins, and has found its key. -/
  | began (call : Nat) (kind : Production) (p : Path) (key : String)
  /-- It has asked for something and got a reply. -/
  | did (call : Nat) (deed : Deed)
  /-- It is answered. -/
  | answered (call : Nat) (kind : Production) (key : String) (answer : Except Failure kind.Value)

namespace Event

/-- The call that an event is about. -/
def call : Event → Nat
  | .began call _ _ _ => call
  | .did call _ => call
  | .answered call _ _ _ => call

/-- What a call does in an event. -/
def deed? (call : Nat) : Event → Option Deed
  | .did call' deed => if call' = call then some deed else none
  | _ => none

end Event

/-- **What a call has done**, in order. -/
def deedsOf (call : Nat) (events : List Event) : List Deed := events.filterMap (Event.deed? call)

section Deeds

variable {call : Nat} {events : List Event}

theorem deedsOf_append (call : Nat) (events : List Event) (e : Event) :
    deedsOf call (events ++ [e]) = deedsOf call events ++ (e.deed? call).toList := by
  rw [deedsOf, List.filterMap_append]
  cases h : e.deed? call <;> simp [h, deedsOf]

theorem deedsOf_did_self (deed : Deed) :
    deedsOf call (events ++ [.did call deed]) = deedsOf call events ++ [deed] := by
  rw [deedsOf_append, Event.deed?, if_pos rfl]
  rfl

theorem deedsOf_did_of_ne {call' : Nat} (h : call' ≠ call) (deed : Deed) :
    deedsOf call (events ++ [.did call' deed]) = deedsOf call events := by
  rw [deedsOf_append, Event.deed?, if_neg h]
  exact List.append_nil _

/-- A call that has not begun has done nothing. -/
theorem deedsOf_eq_nil (h : ∀ e ∈ events, e.call ≠ call) : deedsOf call events = [] := by
  refine List.filterMap_eq_nil_iff.2 fun e he => ?_
  cases e with
  | began => rfl
  | did call' deed => exact if_neg (h _ he)
  | answered => rfl

theorem mem_deedsOf {deed : Deed} : deed ∈ deedsOf call events ↔ .did call deed ∈ events := by
  refine List.mem_filterMap.trans ⟨?_, fun h => ⟨_, h, if_pos rfl⟩⟩
  rintro ⟨e, he, hdeed⟩
  cases e with
  | began => cases hdeed
  | did call' deed' =>
    rw [Event.deed?] at hdeed
    split_ifs at hdeed with hcall
    cases hdeed
    exact hcall ▸ he
  | answered => cases hdeed

end Deeds

namespace Server

variable {s s' : Server} {events : List Event}

/-- What shows when something happens. -/
def eventsOf (s : Server) : Move → List Event
  | .start _ kind p =>
    match p.canonical s.world.workingDirectory with
    | .error _ => []
    | .ok key => [.began s.clock kind p key]
  | .advance i =>
    match s.threads[i]? with
    | none => []
    | some th =>
      match th.task with
      | .done _ => []
      | .ask q _ => (s.reply? th q).toList.map fun reply => .did th.started ⟨q, reply.1⟩
  | .finish i =>
    match s.threads[i]? with
    | none => []
    | some th =>
      match th.task with
      | .done answer => [.answered th.started th.kind th.key answer]
      | .ask _ _ => []
  | .change _ => []
  | .forget _ _ => []

/-- **A run during which nothing is forgotten**, and what shows in it. -/
inductive Course (s₀ : Server) : List Event → Server → Prop
  /-- Nothing has happened. -/
  | start : Course s₀ [] s₀
  /-- Something happens, and it is not that something is forgotten. -/
  | move {events : List Event} {s s' : Server} (m : Move) (h : Course s₀ events s)
    (hkeep : ∀ key kind, m ≠ .forget key kind) (hs : s.step? m = some s') :
    Course s₀ (events ++ s.eventsOf m) s'

theorem Course.runs {s₀ : Server} (h : s₀.Course events s) : Runs s₀ s := by
  induction h with
  | start => exact .refl
  | move m _ _ hs ih => exact ih.tail ⟨m, hs⟩

/-- What shows in a series of moves. -/
def eventsAlong (s : Server) : List Move → List Event
  | [] => []
  | m :: moves => s.eventsOf m ++ ((s.step? m).map (·.eventsAlong moves)).getD []

/-- A run goes on by a series of moves. -/
theorem Course.along {s₀ : Server} {moves : List Move} (h : s₀.Course events s)
    (hkeep : ∀ m ∈ moves, ∀ key kind, m ≠ .forget key kind) (hs : s.run? moves = some s') :
    s₀.Course (events ++ s.eventsAlong moves) s' := by
  induction moves generalizing s events with
  | nil =>
    cases hs
    exact (List.append_nil events).symm ▸ h
  | cons m moves ih =>
    obtain ⟨s₁, hstep, hrest⟩ := Option.bind_eq_some_iff.1 hs
    have hmoved := h.move m (hkeep m (List.mem_cons_self ..)) hstep
    have halong := ih hmoved (fun m' hm' => hkeep m' (List.mem_cons_of_mem m hm')) hrest
    rw [List.append_assoc] at halong
    rw [eventsAlong, hstep]
    exact halong

/-- **What shows when a server moves.** -/
inductive Shows (s : Server) : List Event → Server → Prop
  /-- A thread begins a request. -/
  | start {number : Nat} (kind : Production) {p : Path} {key : String}
    (hkey : p.canonical s.world.workingDirectory = .ok key)
    (hnew : ∀ th ∈ s.threads, th.number ≠ number) :
    Shows s [.began s.clock kind p key]
      { s with clock := s.clock + 1
               threads := ⟨number, kind, key, s.clock, [[s.clock]],
                 (Task.atKey s.strategy p key kind).run⟩ :: s.threads }
  /-- A thread takes a step. -/
  | advance {i : Nat} {th : Thread} {q : Ask} {next : q.Reply → Task (Except Failure th.kind.Value)}
    {r : q.Reply} {s' : Server} (hth : s.threads[i]? = some th) (htask : th.task = .ask q next)
    (hreply : s.reply? th q = some (r, s')) :
    Shows s [.did th.started ⟨q, r⟩]
      { s' with clock := s.clock + 1, threads := s.threads.set i (s.after th q r (next r)) }
  /-- A thread goes away. -/
  | finish {i : Nat} {th : Thread} {r : Except Failure th.kind.Value}
    (hth : s.threads[i]? = some th) (htask : th.task = .done r) :
    Shows s [.answered th.started th.kind th.key r]
      { s with clock := s.clock + 1, threads := s.threads.eraseIdx i }
  /-- The world changes. -/
  | change (w : World) : Shows s [] { s with clock := s.clock + 1, world := w }

theorem shows_of_step? {m : Move} (hkeep : ∀ key kind, m ≠ .forget key kind)
    (h : s.step? m = some s') : s.Shows (s.eventsOf m) s' := by
  cases m with
  | start number kind p =>
    obtain ⟨key, hkey, hnew, rfl⟩ := exists_of_begin? h
    rw [eventsOf, hkey]
    exact .start kind hkey hnew
  | advance i =>
    obtain ⟨th, q, next, r, s₁, hth, htask, hreply, rfl⟩ := exists_of_advance? h
    rw [eventsOf, hth]
    dsimp only
    rw [htask]
    dsimp only
    rw [hreply]
    exact .advance hth htask hreply
  | finish i =>
    obtain ⟨th, r, hth, htask, rfl⟩ := exists_of_finish? h
    rw [eventsOf, hth]
    dsimp only
    rw [htask]
    exact .finish hth htask
  | change w =>
    cases h
    exact .change w
  | forget key kind => exact absurd rfl (hkeep key kind)

/-! ### Threads are told apart -/

section Lists

variable {α β : Type} {f : α → β} {l : List α} {i : Nat} {a a' b : α}

/-- Members that are told apart by a function stand at one place each. -/
theorem ne_of_getElem?_ne (hnodup : (l.map f).Nodup) (ha : l[i]? = some a) {j : Nat}
    (hb : l[j]? = some b) (hne : j ≠ i) : f b ≠ f a := by
  intro heq
  obtain ⟨hi, rfl⟩ := List.getElem?_eq_some_iff.1 ha
  obtain ⟨hj, rfl⟩ := List.getElem?_eq_some_iff.1 hb
  have hi' : i < (l.map f).length := by simpa using hi
  have hj' : j < (l.map f).length := by simpa using hj
  have hmap : (l.map f)[j] = (l.map f)[i] := by simpa using heq
  exact hne (hnodup.getElem_inj_iff.1 hmap)

/-- If one member is changed, the others stand elsewhere. -/
theorem exists_of_mem_set (hb : b ∈ l.set i a') : b = a' ∨ ∃ j, j ≠ i ∧ l[j]? = some b := by
  obtain ⟨j, hj⟩ := List.mem_iff_getElem?.1 hb
  rw [List.getElem?_set] at hj
  split_ifs at hj with hij hlt
  · exact Or.inl (Option.some.inj hj).symm
  · exact Or.inr ⟨j, Ne.symm hij, hj⟩

/-- If one member is taken away, the others are left. -/
theorem eq_or_mem_eraseIdx (ha : l[i]? = some a) (hb : b ∈ l) : b = a ∨ b ∈ l.eraseIdx i := by
  obtain ⟨j, hj⟩ := List.mem_iff_getElem?.1 hb
  by_cases hij : j = i
  · rw [hij, ha] at hj
    exact Or.inl (Option.some.inj hj).symm
  · exact Or.inr (List.mem_eraseIdx_iff_getElem?.2 ⟨j, hij, hj⟩)

/-- A change that does not show. -/
theorem map_set_of_eq (ha : l[i]? = some a) (h : f a' = f a) : (l.set i a').map f = l.map f := by
  obtain ⟨hi, rfl⟩ := List.getElem?_eq_some_iff.1 ha
  have hi' : i < (l.map f).length := by simpa using hi
  have hget : (l.map f)[i] = f l[i] := List.getElem_map f
  rw [List.map_set, h, ← hget, List.set_getElem_self]

/-- They are told apart afterwards, if the change does not show. -/
theorem nodup_map_set (hnodup : (l.map f).Nodup) (ha : l[i]? = some a) (h : f a' = f a) :
    ((l.set i a').map f).Nodup := by
  rwa [map_set_of_eq ha h]

end Lists

/-! ### What there is to know of a call -/

/-- A call has found its key, and has come to a task by what it has done. -/
def Comes (st : Strategy) (events : List Event) (call : Nat) (kind : Production) (key : String)
    (t : Task (Except Failure kind.Value)) : Prop :=
  ∃ p cwd, p.canonical cwd = .ok key ∧ .began call kind p key ∈ events ∧
    (Task.atKey st p key kind).run.Leads (deedsOf call events) t

/-- **What the events tell of the calls.** -/
structure IsRecorded (st : Strategy) (events : List Event) (s : Server) : Prop where
  /-- The strategy is the one that there was from the start. -/
  strategy : s.strategy = st
  /-- Every thread has one call under way. -/
  numbers : (s.threads.map Thread.number).Nodup
  /-- No two calls began at one time. -/
  calls : (s.threads.map Thread.started).Nodup
  /-- All that shows is of calls that have begun. -/
  past : ∀ e ∈ events, e.call < s.clock
  /-- A call that is answered is no longer under way. -/
  gone : ∀ call kind key r, .answered call kind key r ∈ events → ∀ th ∈ s.threads, th.started ≠ call
  /-- All that shows is of calls that are under way or answered. -/
  known : ∀ e ∈ events, e.call ∈ s.threads.map Thread.started ∨
    ∃ kind key r, .answered e.call kind key r ∈ events
  /-- What a thread has still to do. -/
  underWay : ∀ th ∈ s.threads, Comes st events th.started th.kind th.key th.task
  /-- What a call is answered. -/
  answered : ∀ call kind key r, .answered call kind key r ∈ events →
    Comes st events call kind key (.done r)

variable {st : Strategy}

/-- What a call has come to stays so as long as it does nothing. -/
theorem Comes.append {call : Nat} {kind : Production} {key : String}
    {t : Task (Except Failure kind.Value)} (h : Comes st events call kind key t) {e : Event}
    (he : e.deed? call = none) : Comes st (events ++ [e]) call kind key t := by
  obtain ⟨p, cwd, hkey, hbegan, hleads⟩ := h
  refine ⟨p, cwd, hkey, List.mem_append_left _ hbegan, ?_⟩
  rwa [deedsOf_append, he, Option.toList_none, List.append_nil]

theorem isRecorded_start (st : Strategy) (r : Retention) (w : World) :
    IsRecorded st [] (start st r w) where
  strategy := rfl
  numbers := List.nodup_nil
  calls := List.nodup_nil
  past _ h := by cases h
  gone _ _ _ _ h := by cases h
  known _ h := by cases h
  underWay _ h := by cases h
  answered _ _ _ _ h := by cases h

/-- Nobody is answered when something else happens. -/
theorem answered_of_append {e : Event} (he : ∀ call kind key r, e ≠ .answered call kind key r)
    {call : Nat} {kind : Production} {key : String} {r : Except Failure kind.Value}
    (h : .answered call kind key r ∈ events ++ [e]) : .answered call kind key r ∈ events := by
  rcases List.mem_append.1 h with h | h
  · exact h
  · exact absurd (List.mem_singleton.1 h).symm (he call kind key r)

namespace IsRecorded

variable {th th' : Thread} {i : Nat}

/-- A thread at another place is another one, with another call. -/
theorem ne_of_getElem?_ne (hs : s.IsRecorded st events) (hth : s.threads[i]? = some th) {j : Nat}
    (hth' : s.threads[j]? = some th') (hne : j ≠ i) :
    th'.number ≠ th.number ∧ th'.started ≠ th.started :=
  ⟨Server.ne_of_getElem?_ne hs.numbers hth hth' hne, Server.ne_of_getElem?_ne hs.calls hth hth' hne⟩

/-- When a thread has taken a step, the others are others. -/
theorem of_mem_set (hs : s.IsRecorded st events) (hth : s.threads[i]? = some th) {a : Thread}
    (h : th' ∈ s.threads.set i a) :
    th' = a ∨ th' ∈ s.threads ∧ th'.number ≠ th.number ∧ th'.started ≠ th.started := by
  rcases exists_of_mem_set h with rfl | ⟨j, hne, hj⟩
  · exact Or.inl rfl
  · exact Or.inr ⟨List.mem_of_getElem? hj, hs.ne_of_getElem?_ne hth hj hne⟩

/-- When a thread has gone, the others are others. -/
theorem of_mem_eraseIdx (hs : s.IsRecorded st events) (hth : s.threads[i]? = some th)
    (h : th' ∈ s.threads.eraseIdx i) :
    th' ∈ s.threads ∧ th'.number ≠ th.number ∧ th'.started ≠ th.started := by
  obtain ⟨j, hne, hj⟩ := List.mem_eraseIdx_iff_getElem?.1 h
  exact ⟨List.mem_of_getElem? hj, hs.ne_of_getElem?_ne hth hj hne⟩

/-- The next event is of a call that has begun, or begins. -/
theorem past_append (hs : s.IsRecorded st events) {e : Event} (he : e.call ≤ s.clock) :
    ∀ e' ∈ events ++ [e], e'.call < s.clock + 1 := by
  intro e' he'
  rcases List.mem_append.1 he' with he' | he'
  · exact Nat.lt_succ_of_lt (hs.past e' he')
  · rw [List.mem_singleton.1 he']
    exact Nat.lt_succ_of_le he

/-- The next event is of a call that is under way. -/
theorem known_append (hs : s.IsRecorded st events) {e : Event} {threads : List Thread}
    (hthreads : s.threads.map Thread.started ⊆ threads.map Thread.started)
    (he : e.call ∈ threads.map Thread.started) :
    ∀ e' ∈ events ++ [e], e'.call ∈ threads.map Thread.started ∨
      ∃ kind key r, .answered e'.call kind key r ∈ events ++ [e] := by
  intro e' he'
  rcases List.mem_append.1 he' with he' | he'
  · rcases hs.known e' he' with hcall | ⟨kind, key, r, hr⟩
    · exact Or.inl (hthreads hcall)
    · exact Or.inr ⟨kind, key, r, List.mem_append_left _ hr⟩
  · rw [List.mem_singleton.1 he']
    exact Or.inl he

/-- Whatever is done is done on the way of a call that has found its key. -/
theorem exists_comes (hs : s.IsRecorded st events) {e : Event} (he : e ∈ events) :
    ∃ kind key t, Comes st events e.call kind key t := by
  rcases hs.known e he with hcall | ⟨kind, key, r, hr⟩
  · obtain ⟨th, hth, hstarted⟩ := List.mem_map.1 hcall
    exact ⟨_, _, _, hstarted ▸ hs.underWay th hth⟩
  · exact ⟨kind, key, _, hs.answered _ kind key r hr⟩

/-- A call begins, which has done nothing. -/
theorem start (hs : s.IsRecorded st events) (horderly : s.IsOrderly) {number : Nat}
    (kind : Production) {p : Path} {key : String}
    (hkey : p.canonical s.world.workingDirectory = .ok key)
    (hnew : ∀ th ∈ s.threads, th.number ≠ number) :
    IsRecorded st (events ++ [.began s.clock kind p key])
      { s with clock := s.clock + 1
               threads := ⟨number, kind, key, s.clock, [[s.clock]],
                 (Task.atKey s.strategy p key kind).run⟩ :: s.threads } := by
  have hanswered : ∀ {call kind' key' r},
      Event.answered call kind' key' r ∈ events ++ [.began s.clock kind p key] →
        .answered call kind' key' r ∈ events := answered_of_append fun _ _ _ _ h => by cases h
  have hfresh : deedsOf s.clock (events ++ [.began s.clock kind p key]) = [] := by
    rw [deedsOf_append, deedsOf_eq_nil fun e he => Nat.ne_of_lt (hs.past e he)]
    rfl
  exact {
    strategy := hs.strategy
    numbers := by
      refine List.nodup_cons.2 ⟨fun hmem => ?_, hs.numbers⟩
      obtain ⟨th, hth, hnumber⟩ := List.mem_map.1 hmem
      exact hnew th hth hnumber
    calls := by
      refine List.nodup_cons.2 ⟨fun hmem => ?_, hs.calls⟩
      obtain ⟨th, hth, hstarted⟩ := List.mem_map.1 hmem
      exact Nat.ne_of_lt (horderly.threads th hth) hstarted
    past := hs.past_append (Nat.le_refl _)
    gone := fun call kind' key' r h th hth => by
      rcases List.mem_cons.1 hth with rfl | hth
      · exact Nat.ne_of_gt (hs.past _ (hanswered h))
      · exact hs.gone call kind' key' r (hanswered h) th hth
    known := hs.known_append (List.subset_cons_self _ _) (List.mem_cons_self ..)
    underWay := fun th hth => by
      rcases List.mem_cons.1 hth with rfl | hth
      · refine ⟨p, _, hkey, List.mem_append_right _ (List.mem_singleton_self _), ?_⟩
        rw [hfresh, hs.strategy]
        exact .refl _
      · exact (hs.underWay th hth).append rfl
    answered := fun call kind' key' r h =>
      (hs.answered call kind' key' r (hanswered h)).append rfl }

theorem strategy_of_reply? {q : Ask} {r : q.Reply} (h : s.reply? th q = some (r, s')) :
    s'.strategy = s.strategy := by
  cases q with
  | look => cases h; rfl
  | find => cases h; rfl
  | store => cases h; rfl
  | enter => obtain ⟨_, -, hc⟩ := Option.map_eq_some_iff.1 h; cases hc; rfl
  | goOn => obtain ⟨_, -, hc⟩ := Option.map_eq_some_iff.1 h; cases hc; rfl

/-- A call does something, and the others do not. -/
theorem advance (hs : s.IsRecorded st events) (horderly : s.IsOrderly) {q : Ask}
    {next : q.Reply → Task (Except Failure th.kind.Value)} {r : q.Reply}
    (hth : s.threads[i]? = some th) (htask : th.task = .ask q next)
    (hreply : s.reply? th q = some (r, s')) :
    IsRecorded st (events ++ [.did th.started ⟨q, r⟩])
      { s' with clock := s.clock + 1, threads := s.threads.set i (s.after th q r (next r)) } := by
  have hmem : th ∈ s.threads := List.mem_of_getElem? hth
  have hanswered : ∀ {call kind' key' r'},
      Event.answered call kind' key' r' ∈ events ++ [.did th.started ⟨q, r⟩] →
        .answered call kind' key' r' ∈ events := answered_of_append fun _ _ _ _ h => by cases h
  have hcalls : (s.threads.set i (s.after th q r (next r))).map Thread.started =
      s.threads.map Thread.started := map_set_of_eq hth rfl
  exact {
    strategy := (strategy_of_reply? hreply).trans hs.strategy
    numbers := nodup_map_set hs.numbers hth rfl
    calls := nodup_map_set hs.calls hth rfl
    past := hs.past_append (Nat.le_of_lt (horderly.threads th hmem))
    gone := fun call kind' key' r' h th' hth' => by
      rcases hs.of_mem_set hth hth' with rfl | ⟨hth', -, -⟩
      · exact hs.gone call kind' key' r' (hanswered h) th hmem
      · exact hs.gone call kind' key' r' (hanswered h) th' hth'
    known :=
      hs.known_append (hcalls ▸ List.Subset.refl _) (hcalls ▸ List.mem_map_of_mem hmem)
    underWay := fun th' hth' => by
      rcases hs.of_mem_set hth hth' with rfl | ⟨hth', -, hne⟩
      · obtain ⟨p, cwd, hkey, hbegan, hleads⟩ := hs.underWay th hmem
        refine ⟨p, cwd, hkey, List.mem_append_left _ hbegan, ?_⟩
        change Task.Leads _ (deedsOf th.started _) _
        rw [deedsOf_did_self]
        rw [htask] at hleads
        exact hleads.tail r
      · exact (hs.underWay th' hth').append (if_neg hne.symm)
    answered := fun call kind' key' r' h => by
      have hne := hs.gone call kind' key' r' (hanswered h) th hmem
      exact (hs.answered call kind' key' r' (hanswered h)).append (if_neg hne) }

/-- A call is answered, and is under way no longer. -/
theorem finish (hs : s.IsRecorded st events) (horderly : s.IsOrderly)
    {r : Except Failure th.kind.Value} (hth : s.threads[i]? = some th) (htask : th.task = .done r) :
    IsRecorded st (events ++ [.answered th.started th.kind th.key r])
      { s with clock := s.clock + 1, threads := s.threads.eraseIdx i } := by
  have hmem : th ∈ s.threads := List.mem_of_getElem? hth
  have hlast : ∀ {call}, call = th.started → ∃ kind key r', .answered call kind key r' ∈
      events ++ [.answered th.started th.kind th.key r] := by
    rintro call rfl
    exact ⟨th.kind, th.key, r, List.mem_append_right _ (List.mem_singleton_self _)⟩
  exact {
    strategy := hs.strategy
    numbers := hs.numbers.sublist ((List.eraseIdx_sublist ..).map _)
    calls := hs.calls.sublist ((List.eraseIdx_sublist ..).map _)
    past := hs.past_append (Nat.le_of_lt (horderly.threads th hmem))
    gone := fun call kind' key' r' h th' hth' => by
      obtain ⟨hth', -, hne⟩ := hs.of_mem_eraseIdx hth hth'
      rcases List.mem_append.1 h with h | h
      · exact hs.gone call kind' key' r' h th' hth'
      · cases List.mem_singleton.1 h
        exact hne
    known := fun e he => by
      rcases List.mem_append.1 he with he | he
      · rcases hs.known e he with hcall | ⟨kind, key, r', hr'⟩
        · obtain ⟨th', hth', hstarted⟩ := List.mem_map.1 hcall
          rcases eq_or_mem_eraseIdx hth hth' with rfl | hleft
          · exact Or.inr (hlast hstarted.symm)
          · exact Or.inl (List.mem_map.2 ⟨th', hleft, hstarted⟩)
        · exact Or.inr ⟨kind, key, r', List.mem_append_left _ hr'⟩
      · exact Or.inr (hlast (congrArg Event.call (List.mem_singleton.1 he)))
    underWay := fun th' hth' =>
      (hs.underWay th' (List.mem_of_mem_eraseIdx hth')).append rfl
    answered := fun call kind' key' r' h => by
      rcases List.mem_append.1 h with h | h
      · exact (hs.answered call kind' key' r' h).append rfl
      · cases List.mem_singleton.1 h
        have hcomes := hs.underWay th hmem
        rw [htask] at hcomes
        exact hcomes.append rfl }

theorem shows (hs : s.IsRecorded st events) (horderly : s.IsOrderly) {more : List Event}
    (h : s.Shows more s') : s'.IsRecorded st (events ++ more) := by
  rcases h with ⟨kind, hkey, hnew⟩ | ⟨hth, htask, hreply⟩ | ⟨hth, htask⟩ | w
  · exact hs.start horderly kind hkey hnew
  · exact hs.advance horderly hth htask hreply
  · exact hs.finish horderly hth htask
  · rw [List.append_nil]
    exact { hs with past := fun e he => Nat.lt_succ_of_lt (hs.past e he) }

end IsRecorded

/-- **Runs are recorded.** -/
theorem Course.isRecorded {r : Retention} {w : World} (h : (Server.start st r w).Course events s) :
    s.IsRecorded st events := by
  induction h with
  | start => exact isRecorded_start st r w
  | move m h hkeep hs ih =>
    have horderly := (isOrderly_start st r w).runs h.runs
    exact ih.shows horderly (shows_of_step? hkeep hs)

end Server

end SnapStore
