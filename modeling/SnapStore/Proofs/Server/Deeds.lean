import SnapStore.Proofs.Server.Keys

/-!
# What a call has done

A call is told from others by what it has asked for and by the replies, its deeds
(`SnapStore.Deed`). They determine what there is left to do: `SnapStore.Task.Leads` says that a task
has come to another by such deeds. What a task does that is made of two splits accordingly
(`SnapStore.Task.exists_of_leads_bind`).

A call for something that is kept can come to its end in three ways only
(`SnapStore.Task.leads_cached`). It finds what it wants at once, or when it has got the lock of the
key, or it computes it; and then it has looked twice before in vain, and a failure is that of its
own computation.
-/

namespace SnapStore

/-- Something that was asked for, and the reply. -/
structure Deed where
  /-- What was asked for. -/
  ask : Ask
  /-- What was replied. -/
  reply : ask.Reply

/-- A question that has nothing to do with what is kept of some kind. -/
def Ask.Spares (kind : Production) : Ask → Prop
  | .look => True
  | .find kind' _ => kind' ≠ kind
  | .store kind' _ _ => kind' ≠ kind
  | .enter kind' _ => kind' ≠ kind
  | .goOn kind' _ => kind' ≠ kind

namespace Deed

/-- What a call does that waits for the section of a key: it looks in vain and begins the section,
and gets the lock. -/
def waiting (kind : Production) (key : String) : List Deed :=
  [⟨.find kind key, none⟩, ⟨.enter kind key, ()⟩, ⟨.goOn kind .waiting, ()⟩]

/-- What a call does that leaves a section. -/
def leaving (kind : Production) : List Deed :=
  [⟨.goOn kind .inside, ()⟩, ⟨.goOn kind .leaving, ()⟩, ⟨.goOn kind .retired, ()⟩]

/-- What a call does before it computes something itself: having got the lock, it looks again in
vain. -/
def vain (kind : Production) (key : String) : List Deed :=
  waiting kind key ++ [⟨.find kind key, none⟩]

/-- What a call does about what it has computed: it stores a value, and does nothing about a
failure. -/
def storing (kind : Production) (key : String) : Except Failure kind.Value → List Deed
  | .ok a => [⟨.store kind key a, ()⟩]
  | .error _ => []

end Deed

namespace Task

variable {α β : Type}

/-- **A task has come to another** by these deeds. -/
inductive Leads : Task α → List Deed → Task α → Prop
  /-- Nothing has been done. -/
  | refl (t : Task α) : Leads t [] t
  /-- It has asked for something, and has gone on with the reply. -/
  | step {q : Ask} {next : q.Reply → Task α} (r : q.Reply) {deeds : List Deed} {u : Task α}
    (h : Leads (next r) deeds u) : Leads (.ask q next) (⟨q, r⟩ :: deeds) u

variable {deeds : List Deed}

/-- It takes one more step. -/
theorem Leads.tail {t : Task α} {q : Ask} {next : q.Reply → Task α}
    (h : t.Leads deeds (.ask q next)) (r : q.Reply) : t.Leads (deeds ++ [⟨q, r⟩]) (next r) := by
  generalize hu : Task.ask q next = u at h
  induction h with
  | refl =>
    subst hu
    exact .step r (.refl _)
  | step r' _ ih => exact .step r' (ih hu)

/-- A task comes to one task by the same deeds. -/
theorem Leads.eq {t u v : Task α} (h : t.Leads deeds u) (h' : t.Leads deeds v) : u = v := by
  induction h with
  | refl =>
    cases h'
    rfl
  | step r _ ih =>
    cases h' with
    | step _ h' => exact ih h'

theorem Leads.eq_of_nil {t u : Task α} (h : t.Leads [] u) : u = t := by
  cases h
  rfl

/-- What was done by then and since. -/
theorem Leads.split {t u : Task α} {before after : List Deed} (h : t.Leads (before ++ after) u) :
    ∃ v, t.Leads before v ∧ v.Leads after u := by
  induction before generalizing t with
  | nil => exact ⟨t, .refl t, h⟩
  | cons d before ih =>
    rcases h with _ | ⟨r, h⟩
    obtain ⟨v, hbefore, hafter⟩ := ih h
    exact ⟨v, .step r hbefore, hafter⟩

/-- What follows is still to come. -/
theorem Leads.bind {t u : Task α} (h : t.Leads deeds u) (f : α → Task β) :
    (t >>= f).Leads deeds (u >>= f) := by
  induction h with
  | refl => exact .refl _
  | step r _ ih => exact .step r ih

theorem eq_of_leads_done {a b : α} (h : (done a).Leads deeds (.done b)) : deeds = [] ∧ a = b := by
  cases h
  exact ⟨rfl, rfl⟩

theorem exists_of_leads_ask {q : Ask} {next : q.Reply → Task α} {b : α}
    (h : (ask q next).Leads deeds (.done b)) :
    ∃ r rest, deeds = ⟨q, r⟩ :: rest ∧ (next r).Leads rest (.done b) := by
  cases h with
  | step r h => exact ⟨r, _, rfl, h⟩

/-- **What was done for one task after another** was done for the first and then for the second. -/
theorem exists_of_leads_bind {t : Task α} {f : α → Task β} {b : β}
    (h : (t >>= f).Leads deeds (.done b)) :
    ∃ before after a, deeds = before ++ after ∧ t.Leads before (.done a) ∧
      (f a).Leads after (.done b) := by
  induction t generalizing deeds with
  | done a => exact ⟨[], deeds, a, rfl, .refl _, h⟩
  | ask q next ih =>
    obtain ⟨r, rest, rfl, hrest⟩ := exists_of_leads_ask h
    obtain ⟨before, after, a, rfl, hbefore, hafter⟩ := ih r hrest
    exact ⟨⟨q, r⟩ :: before, after, a, rfl, .step r hbefore, hafter⟩

/-- If one computation after another has failed, then one of them has. -/
theorem failed_or_exists_of_leads_bind {x : ExceptT Failure Task α} {f : α → ExceptT Failure Task β}
    {e : Failure} (h : (x >>= f).run.Leads deeds (.done (.error e))) :
    x.run.Leads deeds (.done (.error e)) ∨
      ∃ before after a, deeds = before ++ after ∧ x.run.Leads before (.done (.ok a)) ∧
        (f a).run.Leads after (.done (.error e)) := by
  obtain ⟨before, after, r, rfl, hbefore, hafter⟩ := exists_of_leads_bind h
  cases r with
  | ok a => exact Or.inr ⟨before, after, a, rfl, hbefore, hafter⟩
  | error e' =>
    obtain ⟨rfl, he⟩ := eq_of_leads_done hafter
    cases he
    exact Or.inl ((List.append_nil before).symm ▸ hbefore)

/-- Nothing was done but what is allowed. -/
theorem Obeys.of_leads {allowed : Ask → Prop} {ends : α → Prop} {t u : Task α}
    (ht : t.Obeys allowed ends) (h : t.Leads deeds u) : ∀ d ∈ deeds, allowed d.ask := by
  induction h with
  | refl => simp
  | step r _ ih => exact List.forall_mem_cons.2 ⟨ht.1, ih (ht.2 r)⟩

/-! ### What is kept -/

section Cached

variable {kind : Production} {key : String} {compute : ExceptT Failure Task kind.Value}

/-- What a call does that leaves a section. -/
def leave (kind : Production) (a : α) : Task α :=
  .ask (.goOn kind .inside) fun _ => .ask (.goOn kind .leaving) fun _ =>
    .ask (.goOn kind .retired) fun _ => .done a

theorem exclusively_eq (act : Task α) :
    exclusively kind key act = .ask (.enter kind key) fun _ =>
      .ask (.goOn kind .waiting) fun _ => act >>= leave kind := rfl

/-- What a call does with a computation of its own: a value is stored, a failure is not. -/
def conclude (kind : Production) (key : String) :
    Except Failure kind.Value → Task (Except Failure kind.Value)
  | .ok a => .ask (.store kind key a) fun _ => .done (.ok a)
  | .error e => .done (.error e)

/-- What a call does when it has got the lock: it looks again, and computes if it has to. -/
def attempt (kind : Production) (key : String) (compute : ExceptT Failure Task kind.Value) :
    Task (Except Failure kind.Value) :=
  .ask (.find kind key) fun found =>
    match found with
    | some a => .done (.ok a)
    | none => compute.run >>= conclude kind key

/-- **A call for something that is kept**, step by step. -/
theorem run_cached (compute : ExceptT Failure Task kind.Value) :
    (host.cached (keeper kind) kind key compute).run =
      .ask (.find kind key) fun found =>
        match found with
        | some a => .done (.ok a)
        | none => exclusively kind key (attempt kind key compute) := by
  refine congrArg (Task.ask (.find kind key)) (funext fun found => ?_)
  cases found with
  | some a => rfl
  | none =>
    refine congrArg (exclusively kind key) (congrArg (Task.ask (.find kind key)) ?_)
    funext found
    cases found with
    | some a => rfl
    | none =>
      refine congrArg (compute.run >>= ·) (funext fun r => ?_)
      cases r <;> rfl

theorem leads_exclusively {act : Task α} {b : α}
    (h : (exclusively kind key act).Leads deeds (.done b)) :
    ∃ acts, act.Leads acts (.done b) ∧
      deeds = ⟨.enter kind key, ()⟩ :: ⟨.goOn kind .waiting, ()⟩ ::
        (acts ++ Deed.leaving kind) := by
  rw [exclusively_eq] at h
  obtain ⟨_, rest, rfl, hwaits⟩ := exists_of_leads_ask h
  obtain ⟨_, rest, rfl, hinside⟩ := exists_of_leads_ask hwaits
  obtain ⟨acts, rest, a, rfl, hacts, hleaves⟩ := exists_of_leads_bind hinside
  obtain ⟨_, rest, rfl, hretires⟩ := exists_of_leads_ask hleaves
  obtain ⟨_, rest, rfl, hends⟩ := exists_of_leads_ask hretires
  obtain ⟨_, rest, rfl, hdone⟩ := exists_of_leads_ask hends
  obtain ⟨rfl, rfl⟩ := eq_of_leads_done hdone
  exact ⟨acts, hacts, rfl⟩

/-- **The ways in which a call can end.** -/
theorem leads_cached {r : Except Failure kind.Value}
    (h : (host.cached (keeper kind) kind key compute).run.Leads deeds (.done r)) :
    (∃ a, r = .ok a ∧ (deeds = [⟨.find kind key, some a⟩] ∨
      deeds = Deed.waiting kind key ++ ⟨.find kind key, some a⟩ :: Deed.leaving kind)) ∨
    ∃ acts, compute.run.Leads acts (.done r) ∧
      deeds = Deed.vain kind key ++ acts ++ Deed.storing kind key r ++ Deed.leaving kind := by
  rw [run_cached] at h
  obtain ⟨found, rest, rfl, hfirst⟩ := exists_of_leads_ask h
  cases found with
  | some a =>
    obtain ⟨rfl, rfl⟩ := eq_of_leads_done hfirst
    exact Or.inl ⟨a, rfl, Or.inl rfl⟩
  | none =>
    obtain ⟨acts, hacts, rfl⟩ := leads_exclusively hfirst
    obtain ⟨found, rest, rfl, hsecond⟩ := exists_of_leads_ask hacts
    cases found with
    | some a =>
      obtain ⟨rfl, rfl⟩ := eq_of_leads_done hsecond
      exact Or.inl ⟨a, rfl, Or.inr rfl⟩
    | none =>
      obtain ⟨acts, rest, r', rfl, hcompute, hconclude⟩ := exists_of_leads_bind hsecond
      refine Or.inr ⟨acts, ?_⟩
      cases r' with
      | ok a =>
        obtain ⟨_, rest, rfl, hdone⟩ := exists_of_leads_ask hconclude
        obtain ⟨rfl, rfl⟩ := eq_of_leads_done hdone
        exact ⟨hcompute, by simp [Deed.vain, Deed.waiting, Deed.storing]⟩
      | error e =>
        obtain ⟨rfl, rfl⟩ := eq_of_leads_done hconclude
        exact ⟨hcompute, by simp [Deed.vain, Deed.waiting, Deed.storing]⟩

/-- **When its computation has come to its end**, a call that has made an attempt concludes it,
leaves and goes on. -/
theorem eq_of_leads_attempt {rest : Except Failure kind.Value → Task α} {acts : List Deed}
    {r : Except Failure kind.Value} {u : Task α}
    (h : (attempt kind key compute >>= leave kind >>= rest).Leads
      (⟨.find kind key, none⟩ :: acts) u)
    (hacts : compute.run.Leads acts (.done r)) :
    u = conclude kind key r >>= leave kind >>= rest := by
  rcases h with _ | ⟨_, hcompute⟩
  exact hcompute.eq (((hacts.bind (conclude kind key)).bind (leave kind)).bind rest)

/-- **A call has failed by its own computation**, which these deeds are for: it has looked in vain,
before and after it got the lock, and when the computation had failed, it has left. -/
def FailsBy (kind : Production) (key : String) (compute : ExceptT Failure Task kind.Value)
    (e : Failure) (acts deeds : List Deed) : Prop :=
  compute.run.Leads acts (.done (.error e)) ∧
    deeds = Deed.vain kind key ++ acts ++ Deed.leaving kind

/-- There is no other way to fail. -/
theorem failsBy_of_leads {e : Failure}
    (h : (host.cached (keeper kind) kind key compute).run.Leads deeds (.done (.error e))) :
    ∃ acts, FailsBy kind key compute e acts deeds := by
  rcases leads_cached h with ⟨_, ⟨⟩, -⟩ | ⟨acts, hacts, hdeeds⟩
  refine ⟨acts, hacts, hdeeds.trans ?_⟩
  rw [Deed.storing, List.append_nil]

/-- A value was found or stored. -/
theorem mem_of_leads {a : kind.Value}
    (h : (host.cached (keeper kind) kind key compute).run.Leads deeds (.done (.ok a))) :
    ⟨.find kind key, some a⟩ ∈ deeds ∨ ⟨.store kind key a, ()⟩ ∈ deeds := by
  rcases leads_cached h with ⟨_, ⟨⟩, rfl | rfl⟩ | ⟨acts, -, rfl⟩
  · exact Or.inl (List.mem_singleton_self _)
  · exact Or.inl (List.mem_append_right _ (List.mem_cons_self ..))
  · exact Or.inr (List.mem_append_left _ (List.mem_append_right _ (List.mem_singleton_self _)))

/-- A call that has failed has stored nothing, if its computation has not. -/
theorem FailsBy.notMem {e : Failure} {acts : List Deed} (h : FailsBy kind key compute e acts deeds)
    (hspares : Keeps (Ask.Spares kind) (fun _ => True) compute) (key' : String) (a : kind.Value) :
    ⟨.store kind key' a, ()⟩ ∉ deeds := by
  obtain ⟨hacts, rfl⟩ := h
  intro hmem
  rcases List.mem_append.1 hmem with hmem | hmem
  · rcases List.mem_append.1 hmem with hmem | hmem
    · simp [Deed.vain, Deed.waiting] at hmem
    · exact Obeys.of_leads hspares hacts _ hmem rfl
  · simp [Deed.leaving] at hmem

end Cached

/-! ### Requests -/

/-- What a request computes at its key if nothing is kept there. -/
def computation (st : Strategy) (p : Path) (key : String) :
    (kind : Production) → ExceptT Failure Task kind.Value
  | .entry => host.observe key
  | .tree => host.walk (some key) ((DirectoryTree.all p).visit host.calls.lift)
  | .aggregate => host.snapshotCollection st [.path (.ofString key)]

theorem atKey_eq (st : Strategy) (p : Path) (key : String) (kind : Production) :
    atKey st p key kind = host.cached (keeper kind) kind key (computation st p key kind) := by
  cases kind <;> rfl

section Requests

variable {st : Strategy} {p : Path} {key : String}

/-- **What is computed at a key** is made of looks and of what requests for other things do at the
same key. So whatever holds of looks, and of these requests if it holds of what they compute, holds
of all that is computed, if it holds of everything that is made of such parts. -/
theorem closed_computation {P : {α : Type} → (α → Prop) → ExceptT Failure Task α → Prop}
    (hpure : ∀ {α : Type} {ends : α → Prop} {a : α}, ends a → P ends (pure a))
    (hbind : ∀ {α β : Type} {ends : α → Prop} {ends' : β → Prop} {x : ExceptT Failure Task α}
      {f : α → ExceptT Failure Task β}, P ends x → (∀ a, ends a → P ends' (f a)) →
        P ends' (x >>= f))
    (hlook : ∀ {α : Type} {ends : α → Prop} {x : ExceptT Failure Task α},
      Keeps (· = .look) ends x → P ends x)
    (hkey : ∀ cwd, (Path.ofString key).canonical cwd = .ok key)
    (hatKey : ∀ kind, kind ≠ .aggregate →
      P (fun _ => True) (computation st (.ofString key) key kind) →
        P (fun _ => True) (atKey st (.ofString key) key kind)) (p : Path) (kind : Production) :
    P (fun _ => True) (computation st p key kind) := by
  have hentry : P (fun _ => True) (host.observe key) :=
    hlook ((keeps_observe key).mono (fun _ hq => hq) fun _ _ => trivial)
  have htree : ∀ p, P (fun _ => True) (computation st p key .tree) := fun p =>
    hlook ((keeps_walk key _).mono (fun _ hq => hq) fun _ _ => trivial)
  have hrequest : ∀ kind, P (fun _ => True) (atKey st (.ofString key) key kind) →
      P (fun _ => True) (kind.request st (.ofString key)) := by
    intro kind h
    rw [request_eq]
    refine hbind (hlook (keeps_key hkey)) ?_
    rintro _ rfl
    exact h
  cases kind with
  | entry => exact hentry
  | tree => exact htree p
  | aggregate =>
    exact closed_collection (P := P (fun _ => True)) (fun _ => hpure trivial)
      (fun hx hf => hbind hx fun a _ => hf a) st _
      (hrequest .entry (hatKey .entry (by decide) hentry))
      (hrequest .tree (hatKey .tree (by decide) (htree _)))

/-- What only looks has nothing to do with what is kept. -/
theorem spares_of_look {α : Type} {kind : Production} {x : ExceptT Failure Task α} {ends : α → Prop}
    (h : Keeps (· = .look) ends x) : Keeps (Ask.Spares kind) ends x := by
  refine h.mono ?_ fun _ ha => ha
  rintro _ rfl
  exact trivial

/-- What is kept of one kind has nothing to do with other kinds, if computing has not. -/
theorem spares_cached {kind kind' : Production} (hne : kind' ≠ kind)
    {compute : ExceptT Failure Task kind'.Value} {ends : kind'.Value → Prop}
    (h : Keeps (Ask.Spares kind) ends compute) :
    Keeps (Ask.Spares kind) (fun _ => True) (host.cached (keeper kind') kind' key compute) :=
  keeps_cached_of hne hne (fun _ => hne) (fun _ _ => hne) h

/-- What is computed has nothing to do with what is kept of the same kind. -/
theorem spares_computation (hkey : ∀ cwd, (Path.ofString key).canonical cwd = .ok key)
    (kind : Production) : Keeps (Ask.Spares kind) (fun _ => True) (computation st p key kind) := by
  cases kind with
  | entry => exact (spares_of_look (keeps_observe key)).mono (fun _ hq => hq) fun _ _ => trivial
  | tree => exact (spares_of_look (keeps_walk key _)).mono (fun _ hq => hq) fun _ _ => trivial
  | aggregate =>
    refine closed_computation (P := Keeps (Ask.Spares .aggregate)) keeps_pure Keeps.bind
      spares_of_look hkey (fun kind hne h => ?_) p .aggregate
    rw [atKey_eq]
    exact spares_cached hne h

/-- A canonical path has a key, whatever the current directory is by then. -/
theorem eq_of_leads_key (hkey : ∀ cwd, (Path.ofString key).canonical cwd = .ok key)
    {deeds : List Deed} {r : Except Failure String}
    (h : (host.key (.ofString key)).run.Leads deeds (.done r)) : r = .ok key := by
  obtain ⟨w, rest, rfl, hrest⟩ := exists_of_leads_ask h
  change ((do
    let key ←
      (liftM ((Path.ofString key).canonical w.workingDirectory) : ExceptT Failure Task String)
    Task.host.intern key
    return key : ExceptT Failure Task String)).run.Leads rest (.done r) at hrest
  rw [hkey] at hrest
  exact (eq_of_leads_done hrest).2.symm

/-- **A request within a request fails at its key.** -/
theorem exists_of_leads_request (hkey : ∀ cwd, (Path.ofString key).canonical cwd = .ok key)
    (kind : Production) {deeds : List Deed} {e : Failure}
    (h : (kind.request st (.ofString key)).run.Leads deeds (.done (.error e))) :
    ∃ before after, deeds = before ++ after ∧
      (atKey st (.ofString key) key kind).run.Leads after (.done (.error e)) := by
  rw [request_eq] at h
  rcases failed_or_exists_of_leads_bind h with hfailed | ⟨before, after, _, rfl, hbefore, hafter⟩
  · cases eq_of_leads_key hkey hfailed
  · cases eq_of_leads_key hkey hbefore
    exact ⟨before, after, rfl, hafter⟩

/-- What cannot fail did not fail. -/
theorem not_failed_pure {α : Type} {a : α} {deeds : List Deed} {e : Failure} :
    ¬(pure a : ExceptT Failure Task α).run.Leads deeds (.done (.error e)) := by
  intro h
  cases (eq_of_leads_done h).2

/-- **If the computation of an aggregate fails**, it is because the request for the entry has failed
or the one for the tree, which it makes on its way. -/
theorem exists_of_leads_collection (hkey : ∀ cwd, (Path.ofString key).canonical cwd = .ok key)
    {deeds : List Deed} {e : Failure}
    (h : (computation st p key .aggregate).run.Leads deeds (.done (.error e))) :
    ∃ kind : Production, kind ≠ .aggregate ∧ ∃ before own, deeds = before ++ own ∧
      (atKey st (.ofString key) key kind).run.Leads own (.done (.error e)) := by
  have hexpand : (host.expand [.path (.ofString key)]).run.Leads deeds (.done (.error e)) := by
    rcases failed_or_exists_of_leads_bind h with h | ⟨_, _, _, -, -, h⟩
    · exact h
    · exact absurd h not_failed_pure
  have helement : (host.expandElement (.path (.ofString key))).run.Leads deeds
      (.done (.error e)) := by
    rcases failed_or_exists_of_leads_bind (x := host.keepingValue _ _) hexpand with
      h | ⟨_, _, _, -, -, h⟩
    · exact h
    · rcases failed_or_exists_of_leads_bind h with h | ⟨_, _, _, -, -, h⟩
      · exact absurd h not_failed_pure
      · exact absurd h not_failed_pure
  rcases failed_or_exists_of_leads_bind helement with hself | ⟨first, rest, entry, rfl, -, hrest⟩
  · obtain ⟨before, own, rfl, hown⟩ := exists_of_leads_request hkey .entry hself
    exact ⟨.entry, by decide, before, own, rfl, hown⟩
  · cases entry with
    | missing => exact absurd hrest not_failed_pure
    | file => exact absurd hrest not_failed_pure
    | directory =>
      rcases failed_or_exists_of_leads_bind hrest with htree | ⟨_, _, _, -, -, h⟩
      · obtain ⟨before, own, rfl, hown⟩ := exists_of_leads_request hkey .tree htree
        exact ⟨.tree, by decide, first ++ before, own, (List.append_assoc ..).symm, hown⟩
      · exact absurd h not_failed_pure

end Requests

end Task

end SnapStore
