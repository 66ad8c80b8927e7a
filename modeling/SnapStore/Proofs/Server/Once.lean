import SnapStore.Proofs.Server.Attempts
import SnapStore.Proofs.Server.Earned
import SnapStore.Proofs.Server.Seats

/-!
# Nothing is computed twice

Let a server keep everything it is given, and let nothing be forgotten. Then under every key at most
one value of each kind is ever stored, however many threads there are and however their steps are
interleaved, and whoever is answered with a value is answered with that one.

A call computes only after it has looked in vain while it had the lock. As long as it computes, what
it looked for is not there (`SnapStore.Server.IsKept`): nobody else could have stored it, since only
a call that computes stores anything and of the calls with one key only one at a time is inside. So
whatever is stored is the first that is stored there. The value stays, and it is what everybody
finds from then on.

A failure is no value. It is the answer to the call whose computation has failed and to no other,
and nothing of it is kept; those who waited for the lock look in vain as well, and compute.
-/

namespace SnapStore

/-! ### What a cache that keeps everything gives back -/

namespace Cache

variable {c : Cache}

/-- A value is found where it lands, and what is found elsewhere does not change. -/
theorem found?_put (hretention : c.retention = .all) (kind : Production) (key : String)
    (value : kind.Value) (other : String) : (c.put kind key value).found? kind other =
      if kind.landing key value = some other then some value else c.found? kind other := by
  have hif : ∀ {α : Type} (landed : String) (a b : α),
      (if other = landed then a else b) = if some landed = some other then a else b := by
    intro α landed a b
    simp only [Option.some.injEq, eq_comm]
  cases kind with
  | entry =>
    change (c.entries.store c.retention _ _).find? other = _
    rw [hretention, Shelf.find?_store_all]
    exact hif ..
  | tree =>
    change (c.putTree value).trees.find? other = if value.base = some other then _ else _
    rw [putTree]
    rcases value.base with _ | base
    · rfl
    · change (c.trees.store c.retention base value).find? other = _
      rw [hretention, Shelf.find?_store_all]
      exact hif ..
  | aggregate =>
    change (c.aggregates.store c.retention _ _).find? other = _
    rw [hretention, Shelf.find?_store_all]
    exact hif ..

theorem retention_lookUp (c : Cache) (kind : Production) (key : String) :
    (c.lookUp kind key).2.retention = c.retention := by
  cases kind <;> rfl

theorem retention_put (c : Cache) (kind : Production) (key : String) (value : kind.Value) :
    (c.put kind key value).retention = c.retention := by
  cases kind with
  | entry => rfl
  | aggregate => rfl
  | tree =>
    change (c.putTree value).retention = _
    rw [putTree]
    cases value.base <;> rfl

end Cache

/-! ### What is stored in a run -/

/-- What is stored under a key in an event. -/
def Event.stored? (kind : Production) (key : String) : Event → Option kind.Value
  | .did _ ⟨.store kind' key' a, _⟩ =>
    if h : kind' = kind then
      if kind'.landing key' a = some key then some (h ▸ a) else none
    else none
  | _ => none

/-- **What was stored under a key** in the course of events. -/
def storesOf (kind : Production) (key : String) (events : List Event) : List kind.Value :=
  events.filterMap (Event.stored? kind key)

/-- The call that is answered in an event with an entry or a failure, its key and its answer. -/
def Event.entry? : Event → Option (Nat × String × Except Failure Entry)
  | .answered call .entry key answer => some (call, key, answer)
  | _ => none

theorem Event.of_entry? {e? : Option Event} {call : Nat} {key : String}
    {answer : Except Failure Entry} (h : e?.bind Event.entry? = some (call, key, answer)) :
    e? = some (.answered call .entry key answer) := by
  obtain ⟨e, rfl, he⟩ := Option.bind_eq_some_iff.1 h
  rcases e with _ | _ | ⟨call', kind, key', answer'⟩
  · cases he
  · cases he
  · cases kind with
    | entry => cases he; rfl
    | tree => cases he
    | aggregate => cases he

/-- Whether the computation of a call has just ended with a value, which is to be stored next under
this key. -/
def Thread.isStoring (kind : Production) (key : String) (th : Thread) : Bool :=
  match th.task with
  | .ask (.store kind' key' a) _ => kind' = kind ∧ kind'.landing key' a = some key
  | _ => false

section Stores

variable {kind : Production} {key : String} {call : Nat}

theorem storesOf_append (kind : Production) (key : String) (events : List Event) (e : Event) :
    storesOf kind key (events ++ [e]) =
      storesOf kind key events ++ (e.stored? kind key).toList := by
  rw [storesOf, List.filterMap_append]
  cases h : e.stored? kind key <;> simp [h, storesOf]

theorem stored?_self {key' : String} {a : kind.Value} (h : kind.landing key' a = some key) :
    Event.stored? kind key (.did call ⟨.store kind key' a, ()⟩) = some a := by
  simp [Event.stored?, h]

theorem stored?_of_not {kind' : Production} {key' : String} {a : kind'.Value}
    (h : ¬(kind' = kind ∧ kind'.landing key' a = some key)) :
    Event.stored? kind key (.did call ⟨.store kind' key' a, ()⟩) = none := by
  rw [Event.stored?]
  split_ifs with hkind hlands
  · exact absurd ⟨hkind, hlands⟩ h
  · rfl
  · rfl

theorem stored?_of_ne {q : Ask} (h : ∀ kind' key' a, q ≠ .store kind' key' a) (r : q.Reply) :
    Event.stored? kind key (.did call ⟨q, r⟩) = none := by
  cases q with
  | store kind' key' a => exact absurd rfl (h kind' key' a)
  | look => rfl
  | find => rfl
  | enter => rfl
  | goOn => rfl

/-- What was done was stored. -/
theorem mem_storesOf {events : List Event} {key' : String} {a : kind.Value}
    (h : .did call ⟨.store kind key' a, ()⟩ ∈ events) (hlands : kind.landing key' a = some key) :
    a ∈ storesOf kind key events :=
  List.mem_filterMap.2 ⟨_, h, stored?_self hlands⟩

end Stores

namespace Server

variable {st : Strategy} {s s' : Server} {events : List Event} {th : Thread}

theorem retention_of_reply? {q : Ask} {r : q.Reply} (h : s.reply? th q = some (r, s')) :
    s'.cache.retention = s.cache.retention := by
  cases q with
  | look => cases h; rfl
  | find kind key => cases h; exact Cache.retention_lookUp ..
  | store kind key a => cases h; exact Cache.retention_put ..
  | enter => obtain ⟨_, -, hc⟩ := Option.map_eq_some_iff.1 h; cases hc; rfl
  | goOn => obtain ⟨_, -, hc⟩ := Option.map_eq_some_iff.1 h; cases hc; rfl

/-! ### The invariant -/

/-- **What is kept was stored once.** -/
structure IsKept (events : List Event) (s : Server) : Prop where
  /-- Everything is kept. -/
  retention : s.cache.retention = .all
  /-- What is found under a key is all that was ever stored there. -/
  stores : ∀ kind key, storesOf kind key events = (s.cache.found? kind key).toList
  /-- What a call has found is there still. -/
  found : ∀ call kind key a, .did call ⟨.find kind key, some a⟩ ∈ events →
    s.cache.found? kind key = some a
  /-- What is being computed is not there. -/
  vain : ∀ th ∈ s.threads, ∀ kind, th.phase kind events = .computing →
    s.cache.found? kind th.key = none

theorem isKept_start (st : Strategy) (w : World) : IsKept [] (start st .all w) where
  retention := rfl
  stores kind _ := by cases kind <;> rfl
  found _ _ _ _ h := by cases h
  vain _ h := by cases h

namespace IsKept

variable {i : Nat}

/-- An event in which nobody does anything. -/
theorem idle (hs : s.IsKept events) {e : Event} (hdeed : ∀ call, e.deed? call = none)
    (hcache : s'.cache = s.cache)
    (hthreads : ∀ th ∈ s'.threads, th ∈ s.threads ∨ ∀ kind, th.phase kind events = .outside) :
    s'.IsKept (events ++ [e]) := by
  have hnot : ∀ call deed, e ≠ .did call deed := by
    rintro call deed rfl
    have hnone := hdeed call
    rw [Event.deed?, if_pos rfl] at hnone
    cases hnone
  refine ⟨hcache ▸ hs.retention, fun kind key => ?_, fun call kind key a h => ?_,
    fun th hth kind hphase => ?_⟩
  · have hstored : e.stored? kind key = none := by
      cases e with
      | began => rfl
      | did call deed => exact absurd rfl (hnot call deed)
      | answered => rfl
    rw [storesOf_append, hstored, hcache, hs.stores]
    exact List.append_nil _
  · rcases List.mem_append.1 h with h | h
    · exact hcache ▸ hs.found call kind key a h
    · exact absurd (List.mem_singleton.1 h).symm (hnot _ _)
  · have hsame : th.phase kind (events ++ [e]) = th.phase kind events := by
      rw [Thread.phase, deedsOf_append, hdeed]
      exact congrArg (Phase.ofDeeds kind) (List.append_nil _)
    rw [hsame] at hphase
    rcases hthreads th hth with hth | houtside
    · exact hcache ▸ hs.vain th hth kind hphase
    · rw [houtside] at hphase
      cases hphase

/-- A thread takes a step and stores nothing. -/
theorem quiet (hs : s.IsKept events) (hrecorded : s.IsRecorded st events)
    (horderly : s.IsOrderly) {q : Ask} {next : q.Reply → Task (Except Failure th.kind.Value)}
    {r : q.Reply} (hth : s.threads[i]? = some th) (htask : th.task = .ask q next)
    (hreply : s.reply? th q = some (r, s')) (hq : ∀ kind key a, q ≠ .store kind key a) :
    IsKept (events ++ [.did th.started ⟨q, r⟩])
      { s' with clock := s.clock + 1, threads := s.threads.set i (s.after th q r (next r)) } := by
  have hmem : th ∈ s.threads := List.mem_of_getElem? hth
  have hfound : ∀ kind key, s'.cache.found? kind key = s.cache.found? kind key := by
    rcases reply?_cases hreply with ⟨kind, key, a, heq, -⟩ | ⟨hfound, -⟩
    · exact absurd heq (hq kind key a)
    · exact hfound
  -- What the thread has looked up is what is kept.
  have hlooked : ∀ {kind key found}, (⟨q, r⟩ : Deed) = ⟨.find kind key, found⟩ →
      s.cache.found? kind key = found := by
    rintro kind key found ⟨⟩
    cases hreply
    exact (s.cache.fst_lookUp kind key).symm
  refine ⟨(retention_of_reply? hreply).trans hs.retention, fun kind key => ?_,
    fun call kind key a h => ?_, fun th' hth' kind hphase => ?_⟩
  · change _ = (s'.cache.found? kind key).toList
    rw [storesOf_append, stored?_of_ne hq, hfound, hs.stores]
    exact List.append_nil _
  · refine (hfound kind key).trans ?_
    rcases List.mem_append.1 h with h | h
    · exact hs.found call kind key a h
    · exact hlooked (Event.did.inj (List.mem_singleton.1 h)).2.symm
  · refine (hfound kind th'.key).trans ?_
    rcases hrecorded.of_mem_set hth hth' with rfl | ⟨hth', -, hstarted⟩
    · rw [phase_after] at hphase
      rcases Phase.computing_of_after hphase with hphase | ⟨key, hdeed⟩
      · exact hs.vain th hmem kind hphase
      · have hkeeps : key = th.key := by
          have hkeeps := horderly.keepsTo hmem htask
          cases hdeed
          exact hkeeps
        exact hkeeps ▸ hlooked hdeed
    · rw [Thread.phase, deedsOf_did_of_ne hstarted.symm] at hphase
      exact hs.vain th' hth' kind hphase

/-- **A value is stored that was not there.** -/
theorem store (hs : s.IsKept events) (hrecorded : s.IsRecorded st events) (horderly : s.IsOrderly)
    (hseated : s.IsSeated events) {kind : Production} {key : String} {a : kind.Value}
    {next : Unit → Task (Except Failure th.kind.Value)} (hth : s.threads[i]? = some th)
    (htask : th.task = .ask (.store kind key a) next)
    (hreply : s.reply? th (.store kind key a) = some ((), s')) :
    IsKept (events ++ [.did th.started ⟨.store kind key a, ()⟩])
      { s' with clock := s.clock + 1
                threads := s.threads.set i (s.after th (.store kind key a) () (next ())) } := by
  have hmem : th ∈ s.threads := List.mem_of_getElem? hth
  have hlands : kind.landing key a = some th.key := horderly.keepsTo hmem htask
  have hcomputes : th.phase kind events = .computing := hrecorded.allows hmem htask kind rfl
  have hnone : s.cache.found? kind th.key = none := hs.vain th hmem kind hcomputes
  have hcache : s'.cache = s.cache.put kind key a := by
    cases hreply
    rfl
  have hself : s'.cache.found? kind th.key = some a := by
    rw [hcache, Cache.found?_put hs.retention, if_pos hlands]
  have hother : ∀ kind' key', ¬(kind' = kind ∧ key' = th.key) →
      s'.cache.found? kind' key' = s.cache.found? kind' key' := by
    intro kind' key' hne
    rw [hcache]
    by_cases hkind : kind' = kind
    · subst hkind
      rw [Cache.found?_put hs.retention, if_neg]
      rw [hlands]
      rintro ⟨⟩
      exact hne ⟨rfl, rfl⟩
    · exact Cache.found?_put_of_ne hkind ..
  refine ⟨(retention_of_reply? hreply).trans hs.retention, fun kind' key' => ?_,
    fun call kind' key' b h => ?_, fun th' hth' kind' hphase => ?_⟩
  · change _ = (s'.cache.found? kind' key').toList
    by_cases hhere : kind' = kind ∧ key' = th.key
    · obtain ⟨rfl, rfl⟩ := hhere
      rw [storesOf_append, stored?_self hlands, hs.stores, hnone, hself]
      rfl
    · rw [storesOf_append, stored?_of_not, hs.stores, hother kind' key' hhere]
      · exact List.append_nil _
      · rintro ⟨rfl, hlanding⟩
        exact hhere ⟨rfl, Option.some.inj (hlanding.symm.trans hlands)⟩
  · have hfound : s.cache.found? kind' key' = some b := by
      rcases List.mem_append.1 h with h | h
      · exact hs.found call kind' key' b h
      · cases List.mem_singleton.1 h
    refine (hother kind' key' ?_).trans hfound
    rintro ⟨rfl, rfl⟩
    rw [hnone] at hfound
    cases hfound
  · rcases hrecorded.of_mem_set hth hth' with rfl | ⟨hbefore, hnumber, hstarted⟩
    · rw [phase_after, Phase.after] at hphase
      split_ifs at hphase with hkind
      refine (hother kind' th.key fun hhere => hkind hhere.1.symm).trans ?_
      exact hs.vain th hmem kind' hphase
    · rw [Thread.phase, deedsOf_did_of_ne hstarted.symm] at hphase
      refine (hother kind' th'.key ?_).trans (hs.vain th' hbefore kind' hphase)
      -- The other thread would be inside as well.
      rintro ⟨rfl, hkey⟩
      refine hnumber (hseated.eq_of_inside kind' hbefore hmem hkey ?_ ?_)
      · rw [Thread.phase, hphase]
        rfl
      · rw [hcomputes]
        rfl

/-- **Every step preserves the invariant.** -/
theorem shows (hs : s.IsKept events) (hrecorded : s.IsRecorded st events) (horderly : s.IsOrderly)
    (hseated : s.IsSeated events) {more : List Event} (h : s.Shows more s') :
    s'.IsKept (events ++ more) := by
  rcases h with ⟨kind, hkey, hnew⟩ | ⟨hth, htask, hreply⟩ | ⟨hth, htask⟩ | w
  · refine hs.idle (fun _ => rfl) rfl fun th hth => ?_
    rcases List.mem_cons.1 hth with rfl | hth
    · refine Or.inr fun kind' => ?_
      rw [Thread.phase, deedsOf_eq_nil fun e he => Nat.ne_of_lt (hrecorded.past e he)]
      rfl
    · exact Or.inl hth
  · rename_i th q next r s₁
    by_cases hq : ∃ kind key a, q = .store kind key a
    · obtain ⟨kind, key, a, rfl⟩ := hq
      exact hs.store hrecorded horderly hseated hth htask hreply
    · push Not at hq
      exact hs.quiet hrecorded horderly hth htask hreply hq
  · exact hs.idle (fun _ => rfl) rfl fun th hth => Or.inl (List.mem_of_mem_eraseIdx hth)
  · rw [List.append_nil]
    exact ⟨hs.retention, hs.stores, hs.found, hs.vain⟩

end IsKept

/-- **What is kept was stored once**, at all times. -/
theorem Course.isKept {w : World} (h : (Server.start st .all w).Course events s) :
    s.IsKept events := by
  induction h with
  | start => exact isKept_start st w
  | move m h hkeep hs ih =>
    have horderly := (isOrderly_start st .all w).runs h.runs
    exact ih.shows h.isRecorded horderly h.isSeated (shows_of_step? hkeep hs)

/-! ### What calls are given -/

section Calls

variable {kind : Production} {key : String} {call : Nat}

theorem isStoring_iff : th.isStoring kind key = true ↔
    ∃ key' a next, th.task = .ask (.store kind key' a) next ∧ kind.landing key' a = some key := by
  obtain ⟨number, kind', own, started, visible, task⟩ := th
  cases task with
  | done r => exact ⟨nofun, nofun⟩
  | ask q next =>
    cases q with
    | store kind' key' a =>
      refine decide_eq_true_iff.trans ⟨?_, ?_⟩
      · rintro ⟨rfl, hlands⟩
        exact ⟨key', a, next, rfl, hlands⟩
      · rintro ⟨key', a, next, heq, hlands⟩
        cases heq
        exact ⟨rfl, hlands⟩
    | look => exact ⟨nofun, nofun⟩
    | find => exact ⟨nofun, nofun⟩
    | enter => exact ⟨nofun, nofun⟩
    | goOn => exact ⟨nofun, nofun⟩

/-- What was stored is what is kept. -/
theorem IsKept.storesOf_eq (hs : s.IsKept events) {a : kind.Value}
    (h : s.cache.found? kind key = some a) : storesOf kind key events = [a] := by
  rw [hs.stores, h]
  rfl

/-- **A call that is answered with a value** has got the one that was stored. -/
theorem IsKept.storesOf_of_answered (hs : s.IsKept events) (hrecorded : s.IsRecorded st events)
    {a : kind.Value} (h : .answered call kind key (.ok a) ∈ events) :
    storesOf kind key events = [a] := by
  obtain ⟨p, cwd, hkey, -, hleads⟩ := hrecorded.answered call kind key _ h
  have hcached := hleads
  rw [Task.atKey_eq] at hcached
  refine hs.storesOf_eq ?_
  rcases Task.mem_of_leads hcached with hmem | hmem
  · exact hs.found call kind key a (mem_deedsOf.1 hmem)
  · have hlands : kind.landing key a = some key :=
      Task.Obeys.of_leads (Task.keeps_atKey st p (Path.canonical_ofString hkey) kind) hleads _ hmem
    have hstored := mem_storesOf (mem_deedsOf.1 hmem) hlands
    rw [hs.stores] at hstored
    exact Option.mem_toList.1 hstored

/-- Whoever is about to store something computes under the key where it is stored. -/
theorem computing_of_isStoring (hrecorded : s.IsRecorded st events) (horderly : s.IsOrderly)
    (hth : th ∈ s.threads) (h : th.isStoring kind key = true) :
    th.key = key ∧ th.phase kind events = .computing := by
  obtain ⟨key', a, next, htask, hlands⟩ := isStoring_iff.1 h
  have hkeeps : kind.landing key' a = some th.key := horderly.keepsTo hth htask
  exact ⟨Option.some.inj (hkeeps.symm.trans hlands), hrecorded.allows hth htask kind rfl⟩

/-- **At most one value is stored** or about to be. -/
theorem IsKept.length_add_countP_le (hs : s.IsKept events) (hrecorded : s.IsRecorded st events)
    (horderly : s.IsOrderly) (hseated : s.IsSeated events) (kind : Production) (key : String) :
    (storesOf kind key events).length + s.threads.countP (·.isStoring kind key) ≤ 1 := by
  have hnumbers : ((s.threads.filter (·.isStoring kind key)).map Thread.number).Nodup :=
    hrecorded.numbers.sublist (List.filter_sublist.map _)
  have hmem : ∀ th ∈ s.threads.filter (·.isStoring kind key), th ∈ s.threads ∧
      th.key = key ∧ th.phase kind events = .computing := by
    intro th hth
    obtain ⟨hth, hstoring⟩ := List.mem_filter.1 hth
    exact ⟨hth, computing_of_isStoring hrecorded horderly hth hstoring⟩
  rw [List.countP_eq_length_filter, hs.stores]
  generalize s.threads.filter (·.isStoring kind key) = storing at hnumbers hmem
  rcases storing with _ | ⟨th, _ | ⟨th', rest⟩⟩
  · rw [Option.length_toList]
    split_ifs <;> decide
  · obtain ⟨hth, rfl, hcomputing⟩ := hmem th (List.mem_singleton_self th)
    rw [hs.vain th hth kind hcomputing]
    exact Nat.le_refl 1
  · -- Two of them would be inside under one key.
    obtain ⟨hth, hkey, hcomputing⟩ := hmem th (by simp)
    obtain ⟨hth', hkey', hcomputing'⟩ := hmem th' (by simp)
    have heq : th.number = th'.number := by
      refine hseated.eq_of_inside kind hth hth' (hkey.trans hkey'.symm) ?_ ?_
      · rw [hcomputing]
        rfl
      · rw [hcomputing']
        rfl
    simp [heq] at hnumbers

end Calls

/-! ### Nothing is computed twice -/

/-- A call has failed by its own computation, and has stored nothing that it was to compute. -/
def FailsAlone (st : Strategy) (kind : Production) (p : Path) (key : String) (e : Failure)
    (acts deeds : List Deed) : Prop :=
  Task.FailsBy kind key (Task.computation st p key kind) e acts deeds ∧
    ∀ key' a, ⟨.store kind key' a, ()⟩ ∉ deeds

/-- **Each thing is computed once**, as far as the events of a run show. -/
structure ComputesOnce (st : Strategy) (events : List Event) (s : Server) : Prop where
  /-- Under a key at most one computation of a kind has ended with a value. The value was stored, or
  it is the next thing that its thread stores. -/
  once : ∀ kind key,
    (storesOf kind key events).length + s.threads.countP (·.isStoring kind key) ≤ 1
  /-- Whoever is answered with a value, or finds one on the way, is given what was stored. -/
  same : ∀ call kind key a,
    .answered call kind key (.ok a) ∈ events ∨ .did call ⟨.find kind key, some a⟩ ∈ events →
      storesOf kind key events = [a]
  /-- A look gives what was stored, and nothing as long as nothing was. -/
  look : ∀ th kind key,
    ∃ s', s.reply? th (.find kind key) = some ((storesOf kind key events).head?, s')
  /-- What a call stores it has just computed, having looked in vain while it had the lock, and if
  it leaves the section without a value, its own computation has failed. -/
  earned : ∀ call before q r after, deedsOf call events = before ++ ⟨q, r⟩ :: after →
    ∃ kind p key, .began call kind p key ∈ events ∧ Earned st key before q
  /-- Whoever is answered with a failure has run the computation that failed. If this was the one of
  an aggregate, then a computation that it has run on its way has failed. -/
  failed : ∀ call kind key e, .answered call kind key (.error e) ∈ events →
    ∃ p acts, .began call kind p key ∈ events ∧
      FailsAlone st kind p key e acts (deedsOf call events) ∧
      (kind = .aggregate → ∃ kind' ≠ .aggregate, ∃ before inner own,
        acts = before ++ own ∧ FailsAlone st kind' (.ofString key) key e inner own)
  /-- Whoever has got a lock looks again, and computes if he looks in vain; and when his computation
  has ended, he stores the value before he does anything else, if there is one, and leaves. -/
  again : ∀ th ∈ s.threads, ∀ before kind acts,
    deedsOf th.started events = before ++ ⟨.goOn kind .waiting, ()⟩ :: acts →
      ∃ p, (∃ cwd, p.canonical cwd = .ok th.key) ∧ ∃ rest,
        let compute := Task.computation st p th.key kind
        (acts = [] → th.task = Task.attempt kind th.key compute >>= Task.leave kind >>= rest) ∧
        ∀ own r, compute.run.Leads own (.done r) → acts = ⟨.find kind th.key, none⟩ :: own →
          th.task = Task.conclude kind th.key r >>= Task.leave kind >>= rest
  /-- Nobody waits but for the lock of his key, while somebody else is inside. -/
  waits : ∀ th ∈ s.threads, ∀ q next, th.task = .ask q next → s.reply? th q = none →
    ∃ kind, q = .goOn kind .waiting ∧ ∃ other ∈ s.threads, other.number ≠ th.number ∧
      other.key = th.key ∧ (other.phase kind events).stage? = some .inside

/-- There is no other way for a request to fail. -/
theorem failsAlone_of_leads {p : Path} {kind : Production} {key : String} {e : Failure}
    {deeds : List Deed} (hkey : ∀ cwd, (Path.ofString key).canonical cwd = .ok key)
    (h : (Task.atKey st p key kind).run.Leads deeds (.done (.error e))) :
    ∃ acts, FailsAlone st kind p key e acts deeds := by
  rw [Task.atKey_eq] at h
  obtain ⟨acts, hfails⟩ := Task.failsBy_of_leads h
  exact ⟨acts, hfails, hfails.notMem (Task.spares_computation hkey kind)⟩

/-- **Each thing is computed once**, whatever the threads and the world do, if the server keeps
everything and nothing is forgotten. -/
theorem Course.computed_once {w : World} (h : (Server.start st .all w).Course events s) :
    s.ComputesOnce st events := by
  have hrecorded := h.isRecorded
  have hseated := h.isSeated
  have hkept := h.isKept
  have horderly := (isOrderly_start st .all w).runs h.runs
  refine ⟨hkept.length_add_countP_le hrecorded horderly hseated, ?same, ?look, ?earned, ?failed,
    ?again, ?waits⟩
  case same =>
    rintro call kind key a (h | h)
    · exact hkept.storesOf_of_answered hrecorded h
    · exact hkept.storesOf_eq (hkept.found call kind key a h)
  case look =>
    intro th kind key
    refine ⟨{ s with cache := (s.cache.lookUp kind key).2 }, ?_⟩
    rw [hkept.stores, Option.head?_toList, ← s.cache.fst_lookUp kind key]
    rfl
  case earned =>
    intro call before q r after hdeeds
    have hmem : .did call ⟨q, r⟩ ∈ events := by
      rw [← mem_deedsOf, hdeeds]
      exact List.mem_append_right _ (List.mem_cons_self ..)
    obtain ⟨kind, key, t, p, cwd, hkey, hbegan, hleads⟩ := hrecorded.exists_comes hmem
    change (Task.atKey st p key kind).run.Leads (deedsOf call events) t at hleads
    rw [hdeeds] at hleads
    have hcanonical := Path.canonical_ofString hkey
    exact ⟨kind, p, key, hbegan, Task.earned_of_leads hcanonical ⟨cwd, hkey⟩ hleads⟩
  case failed =>
    intro call kind key e h
    obtain ⟨p, cwd, hkey, hbegan, hleads⟩ := hrecorded.answered call kind key _ h
    have hcanonical := Path.canonical_ofString hkey
    obtain ⟨acts, hfails⟩ := failsAlone_of_leads hcanonical hleads
    refine ⟨p, acts, hbegan, hfails, ?_⟩
    rintro rfl
    -- The requests that an aggregate makes fail as others do.
    obtain ⟨kind', hne, before, own, hacts, hown⟩ :=
      Task.exists_of_leads_collection hcanonical hfails.1.1
    obtain ⟨inner, hinner⟩ := failsAlone_of_leads hcanonical hown
    exact ⟨kind', hne, before, inner, own, hacts, hinner⟩
  case again =>
    intro th hth before kind acts hdeeds
    obtain ⟨p, cwd, hkey, -, hleads⟩ := hrecorded.underWay th hth
    rw [hdeeds] at hleads
    obtain ⟨p', hp', rest, hsince⟩ :=
      Task.exists_leads_of_goOn (Path.canonical_ofString hkey) ⟨cwd, hkey⟩ hleads
    refine ⟨p', hp', rest, ?_, ?_⟩
    · rintro rfl
      exact hsince.eq_of_nil
    · rintro own r hown rfl
      exact Task.eq_of_leads_attempt hsince hown
  case waits =>
    intro th hth q next htask hreply
    exact hseated.exists_inside_of_reply?_eq_none hrecorded hth htask hreply

/-- Where there is a pipe, a thread fails to take the entry of it, while another one waits. By the
time that this one has got the lock the pipe is gone, and it finds out for itself that nothing is
there. A third one is told so. -/
theorem Course.computed_once_of_retry : ∃ w events s,
    (Server.start .default .all w).Course events s ∧ s.ComputesOnce .default events ∧
      events[16]? =
        some (.answered 0 .entry "/f" (.error (.error (.unrecognizedFileType "/f" "Other")))) ∧
      events[20]? = some (.answered 5 .entry "/f" (.ok (.missing "/f" "f"))) ∧
      events[23]? = some (.answered 22 .entry "/f" (.ok (.missing "/f" "f"))) ∧
      storesOf .entry "/f" events = [.missing "/f" "f"] := by
  let w := World.empty.put [[102]] (.special .epoch)
  let moves : List Move :=
    [.start 1 .entry (.ofString "/f"), .advance 0, .advance 0, .advance 0, .advance 0,
      .start 2 .entry (.ofString "/f"), .advance 0, .advance 0, .advance 1, .advance 1,
      .change .empty, .advance 0, .advance 0, .advance 0, .advance 0, .advance 1, .advance 1,
      .finish 1, .advance 0, .advance 0, .advance 0, .finish 0,
      .start 3 .entry (.ofString "/f"), .advance 0, .finish 0]
  have hruns : ((Server.start .default .all w).run? moves).isSome = true := by decide +kernel
  obtain ⟨s, hs⟩ := Option.isSome_iff_exists.1 hruns
  have hkeep : ∀ m ∈ moves, ∀ key kind, m ≠ .forget key kind := by simp [moves]
  have hcourse := Course.start.along hkeep hs
  exact ⟨w, _, s, hcourse, hcourse.computed_once, Event.of_entry? (by decide +kernel),
    Event.of_entry? (by decide +kernel), Event.of_entry? (by decide +kernel), by decide +kernel⟩

end Server

end SnapStore
