import SnapStore.Lock.Table
import SnapStore.Proofs.Lock.Crowd
import SnapStore.Proofs.Store.Alike

/-!
# Requests step by step

When many threads use one store, what a request does comes in atomic steps, and what others do
may come between any two of them. A `SnapStore.Task` is a computation that is taken apart in this
way: it is done, or it asks for something (`SnapStore.Ask`) and goes on with the reply. So a
system call, a lookup, the storing of a value and each step of a section are one step each.

Since requests are written for every host, they need not be written again. `SnapStore.Task.host`
is the host that does nothing but ask, and `SnapStore.Production.request` gives the tasks that
the requests are on it. Who replies, and what, is the business of others.

What can be said of a task alone is which questions it asks, whatever the replies are
(`SnapStore.Task.Obeys`).
-/

namespace SnapStore

/-- What the productions of a kind give. -/
abbrev Production.Value : Production → Type
  | .entry => Entry
  | .tree => TreeSnapshot
  | .aggregate => Aggregate

/-- Where a value lands when it is stored under a key: an entry goes by its own path and a tree by
its base. -/
def Production.landing (key : String) : (kind : Production) → kind.Value → Option String
  | .entry, e => some e.path
  | .tree, t => t.base
  | .aggregate, _ => some key

/-- One step of a request, as far as others have to do with it. -/
inductive Ask
  /-- It looks at the world by a system call. -/
  | look
  /-- It looks a key up. -/
  | find (kind : Production) (key : String)
  /-- It stores a value; the key is of account only if the value does not tell it. -/
  | store (kind : Production) (key : String) (value : kind.Value)
  /-- It begins the section of a key. -/
  | enter (kind : Production) (key : String)
  /-- It goes on in the section that it is in, and has come so far. -/
  | goOn (kind : Production) (stage : Stage)

/-- What the reply to a question is. -/
abbrev Ask.Reply : Ask → Type
  | .look => World
  | .find kind _ => Option kind.Value
  | .store _ _ _ => Unit
  | .enter _ _ => Unit
  | .goOn _ _ => Unit

/-- **A computation step by step.** -/
inductive Task (α : Type)
  /-- It has come to its end. -/
  | done (a : α)
  /-- It asks for something and goes on with the reply. -/
  | ask (q : Ask) (next : q.Reply → Task α)

namespace Task

variable {α β : Type}

/-- One task after the other. -/
def bind (t : Task α) (f : α → Task β) : Task β :=
  match t with
  | .done a => f a
  | .ask q next => .ask q fun r => (next r).bind f

instance : Monad Task where
  pure := .done
  bind := bind

/-- What is left of a task that begins with a look at this world. -/
def afterLook (t : Task α) (w : World) : Task α :=
  match t with
  | .ask .look next => next w
  | t => t

/-- Asks for something. -/
def perform (q : Ask) : Task q.Reply := .ask q .done

/-- Keeps values of a kind. -/
def keeper (kind : Production) : Keeper Task kind.Value where
  find? key := perform (.find kind key)
  store key a := perform (.store kind key a)

/-- Does something in the section of a key. -/
def exclusively (kind : Production) (key : String) (act : Task α) : Task α := do
  perform (.enter kind key)
  perform (.goOn kind .waiting)
  let a ← act
  perform (.goOn kind .inside)
  perform (.goOn kind .leaving)
  perform (.goOn kind .retired)
  return a

/-- The system calls, each of which is one look at the world. -/
def calls : Calls Task := .live (perform .look)

/-- **The host that asks for everything.** -/
def host : Host Task where
  calls := calls
  stat := Host.statBy calls
  hasher := .sha256 calls
  entries := keeper .entry
  trees := keeper .tree
  aggregates := keeper .aggregate
  intern _ := return ()
  keeping _ act := act
  exclusively := exclusively

end Task

/-- A request, step by step. -/
def Production.request (st : Strategy) (p : Path) :
    (kind : Production) → ExceptT Failure Task kind.Value
  | .entry => Task.host.snapshotSelf p
  | .tree => Task.host.snapshotTree (.all p)
  | .aggregate => Task.host.snapshotAll st p

/-! ### What tasks ask for -/

namespace Task

variable {α β : Type} {allowed : Ask → Prop} {ends : α → Prop}

/-- **A task asks only what is allowed**, and ends as it should if it ends, whatever the replies
are. -/
def Obeys (allowed : Ask → Prop) (ends : α → Prop) : Task α → Prop
  | .done a => ends a
  | .ask q next => allowed q ∧ ∀ r, (next r).Obeys allowed ends

theorem Obeys.mono {t : Task α} {allowed' : Ask → Prop} {ends' : α → Prop}
    (h : t.Obeys allowed ends) (hallowed : ∀ q, allowed q → allowed' q)
    (hends : ∀ a, ends a → ends' a) : t.Obeys allowed' ends' := by
  induction t with
  | done a => exact hends a h
  | ask q next ih => exact ⟨hallowed q h.1, fun r => ih r (h.2 r)⟩

theorem Obeys.bind {t : Task α} {f : α → Task β} {ends' : β → Prop} (h : t.Obeys allowed ends)
    (hf : ∀ a, ends a → (f a).Obeys allowed ends') : (t >>= f).Obeys allowed ends' := by
  induction t with
  | done a => exact hf a h
  | ask q next ih => exact ⟨h.1, fun r => ih r (h.2 r)⟩

theorem obeys_perform {q : Ask} (hq : allowed q) : (perform q).Obeys allowed fun _ => True :=
  ⟨hq, fun _ => trivial⟩

/-- How a computation that may fail ends if it succeeds. -/
def Succeeds (ends : α → Prop) : Except Failure α → Prop
  | .ok a => ends a
  | .error _ => True

theorem succeeds_true (r : Except Failure α) : Succeeds (fun _ => True) r := by
  cases r <;> exact trivial

/-- The same for tasks that may fail. -/
def Keeps (allowed : Ask → Prop) (ends : α → Prop) (x : ExceptT Failure Task α) : Prop :=
  x.run.Obeys allowed (Succeeds ends)

theorem keeps_pure {a : α} (h : ends a) : Keeps allowed ends (pure a) := h

theorem keeps_throw (e : Failure) : Keeps allowed ends (throw e) := trivial

theorem keeps_liftError (x : Except Error α) : Keeps allowed (x = .ok ·) (liftM x) := by
  cases x with
  | ok a => exact rfl
  | error e => exact trivial

theorem keeps_lift {t : Task α} (h : t.Obeys allowed ends) : Keeps allowed ends (liftM t) :=
  h.bind fun _ ha => ha

theorem keeps_mk {t : Task (Except Failure α)} (h : t.Obeys allowed (Succeeds ends)) :
    Keeps allowed ends (ExceptT.mk t) := h

theorem Keeps.bind {x : ExceptT Failure Task α} {f : α → ExceptT Failure Task β} {ends' : β → Prop}
    (h : Keeps allowed ends x) (hf : ∀ a, ends a → Keeps allowed ends' (f a)) :
    Keeps allowed ends' (x >>= f) := by
  refine Obeys.bind h fun r hr => ?_
  cases r with
  | ok a => exact hf a hr
  | error e => exact trivial

theorem Keeps.mono {x : ExceptT Failure Task α} {allowed' : Ask → Prop} {ends' : α → Prop}
    (h : Keeps allowed ends x) (hallowed : ∀ q, allowed q → allowed' q)
    (hends : ∀ a, ends a → ends' a) : Keeps allowed' ends' x := by
  refine Obeys.mono h hallowed fun r hr => ?_
  cases r with
  | ok a => exact hends a hr
  | error e => exact trivial

/-! ### Observing and walking -/

/-- Tasks that do nothing but look, seen as a relator. -/
def looking : Relator Task Task where
  Rel x _ := x.Obeys (· = .look) fun _ => True
  pure _ := trivial
  map _ _ _ h := h.bind fun _ _ => trivial
  bind hx hf := hx.bind fun a _ => hf a

theorem obeys_of_looking {t u : Task α} (h : looking.Rel t u) :
    t.Obeys (· = .look) fun _ => True := h

theorem alikeHosts_looking : looking.AlikeHosts host host := by
  have hlook : looking.Rel (perform .look) (perform .look) := obeys_perform rfl
  have hcalls : looking.AlikeCalls calls calls := Relator.calls_live hlook
  exact ⟨hcalls, Relator.statBy hcalls, Relator.sha256 hcalls, fun _ => trivial⟩

end Task

end SnapStore
