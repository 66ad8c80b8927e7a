import SnapStore.Proofs.Path.Names
import SnapStore.Proofs.Server.Task

/-!
# Requests keep to their keys

A request that has found its key looks up, stores and locks nothing but what is under that key
(`SnapStore.Ask.KeepsTo`), whatever it is replied and however the world changes while it goes on.
For an aggregate this includes the entry and the tree that it asks for on the way, which have the
same key: a canonical path is its own canonical form.

That what is stored lands under the key has to be said of the values, since an entry is stored
under its own path and a tree under its base (`SnapStore.Production.landing`).
-/

namespace SnapStore

/-- A question that has to do with no other key. -/
def Ask.KeepsTo (key : String) : Ask → Prop
  | .look => True
  | .find _ key' => key' = key
  | .store kind key' value => kind.landing key' value = some key
  | .enter _ key' => key' = key
  | .goOn _ _ => True

namespace Task

variable {key : String}

theorem keepsTo_of_look {q : Ask} (h : q = .look) : q.KeepsTo key := by
  subst h
  exact trivial

/-! ### What is computed -/

/-- An entry is that of the key. -/
theorem keeps_observe (key : String) :
    Keeps (· = .look) (fun e : Entry => e.path = key) (host.observe key) := by
  have hstat := obeys_of_looking (alikeHosts_looking.stat (Path.ofString key))
  refine (keeps_mk (hstat.mono (fun _ h => h) fun r _ => succeeds_true r)).bind fun seen _ => ?_
  cases seen.fileType with
  | missing => exact keeps_pure rfl
  | directory => exact (keeps_liftError _).bind fun relative _ => keeps_pure rfl
  | regularFile =>
    refine (keeps_lift (alikeHosts_looking.hasher.file _ seen)).bind fun hashed _ => ?_
    rcases hashed with e | digest
    · cases e <;> first | exact keeps_pure rfl | exact keeps_throw _
    · exact (keeps_liftError _).bind fun relative _ => keeps_pure rfl
  | other => exact keeps_throw _

/-- A tree has the key for its base. -/
theorem keeps_walk (key : String) (t : DirectoryTree) :
    Keeps (· = .look) (fun t : TreeSnapshot => t.base = some key)
      (host.walk (some key) (t.visit host.calls.lift)) := by
  have hsource := Relator.visit_directoryTree (Relator.calls_lift (σ := List Entry)
    alikeHosts_looking.calls) t
  have hvisit := hsource _ _ (Relator.collector alikeHosts_looking) []
  refine (keeps_lift hvisit).bind fun r _ => ?_
  rcases r with ⟨ending, entries⟩
  cases ending with
  | ok _ => exact keeps_pure rfl
  | error e => exact keeps_throw e

/-- A canonical path is its own key, whatever the current directory is by then. -/
theorem keeps_key (hkey : ∀ cwd, (Path.ofString key).canonical cwd = .ok key) :
    Keeps (· = .look) (· = key) (host.key (.ofString key)) := by
  refine (keeps_lift (alikeHosts_looking.calls.workingDirectory)).bind fun cwd _ => ?_
  rw [hkey cwd]
  exact keeps_pure rfl

/-! ### What is kept -/

theorem obeys_exclusively {α : Type} {kind : Production} {act : Task α} {allowed : Ask → Prop}
    {ends : α → Prop} (henter : allowed (.enter kind key))
    (hgoOn : ∀ stage, allowed (.goOn kind stage)) (h : act.Obeys allowed ends) :
    (exclusively kind key act).Obeys allowed ends := by
  refine ⟨henter, fun _ => ⟨hgoOn _, fun _ => h.bind fun a ha => ?_⟩⟩
  exact ⟨hgoOn _, fun _ => ⟨hgoOn _, fun _ => ⟨hgoOn _, fun _ => ha⟩⟩⟩

/-- What is computed once asks what computing asks, and what it takes to keep the value. -/
theorem keeps_cached_of {kind : Production} {compute : ExceptT Failure Task kind.Value}
    {allowed : Ask → Prop} {ends : kind.Value → Prop} (hfind : allowed (.find kind key))
    (henter : allowed (.enter kind key)) (hgoOn : ∀ stage, allowed (.goOn kind stage))
    (hstore : ∀ a, ends a → allowed (.store kind key a)) (h : Keeps allowed ends compute) :
    Keeps allowed (fun _ => True) (host.cached (keeper kind) kind key compute) := by
  have hlook : (perform (.find kind key)).Obeys allowed fun _ => True := obeys_perform hfind
  refine (keeps_lift hlook).bind fun found _ => ?_
  cases found with
  | some a => exact keeps_pure trivial
  | none =>
    refine keeps_mk (obeys_exclusively henter hgoOn ?_)
    refine (keeps_lift hlook).bind fun found _ => ?_
    cases found with
    | some a => exact keeps_pure trivial
    | none =>
      refine h.bind fun a ha => ?_
      have hstore : (perform (.store kind key a)).Obeys allowed fun _ => True :=
        obeys_perform (hstore a ha)
      exact (keeps_lift hstore).bind fun _ _ => keeps_pure trivial

/-- What is computed once keeps to its key if computing does, and what it gives lands there. -/
theorem keeps_cached {kind : Production} {compute : ExceptT Failure Task kind.Value}
    (h : Keeps (Ask.KeepsTo key) (fun a => kind.landing key a = some key) compute) :
    Keeps (Ask.KeepsTo key) (fun _ => True) (host.cached (keeper kind) kind key compute) :=
  keeps_cached_of rfl rfl (fun _ => trivial) (fun _ ha => ha) h

/-- What a request does when it has found its key. -/
def atKey (st : Strategy) (p : Path) (key : String) :
    (kind : Production) → ExceptT Failure Task kind.Value
  | .entry => host.cached (keeper .entry) .entry key (host.observe key)
  | .tree =>
    host.cached (keeper .tree) .tree key
      (host.walk (some key) ((DirectoryTree.all p).visit host.calls.lift))
  | .aggregate =>
    host.cached (keeper .aggregate) .aggregate key
      (host.snapshotCollection st [.path (.ofString key)])

theorem request_eq (st : Strategy) (p : Path) (kind : Production) :
    kind.request st p = host.key p >>= fun key => atKey st p key kind := by
  cases kind <;> rfl

/-- **What is done for a path and all that is below it** is to ask for its entry and for its tree.
So whatever holds of these two holds of it, if it holds of everything that is made of such parts. -/
theorem closed_collection {P : {α : Type} → ExceptT Failure Task α → Prop}
    (hpure : ∀ {α : Type} (a : α), P (pure a : ExceptT Failure Task α))
    (hbind : ∀ {α β : Type} {x : ExceptT Failure Task α} {f : α → ExceptT Failure Task β},
      P x → (∀ a, P (f a)) → P (x >>= f))
    (st : Strategy) (p : Path) (hself : P (host.snapshotSelf p))
    (htree : P (host.snapshotTree (.all p))) : P (host.snapshotCollection st [.path p]) := by
  have helement : P (host.expandElement (.path p)) := by
    refine hbind hself fun e => ?_
    cases e with
    | directory => exact hbind htree fun t => hpure _
    | missing => exact hpure _
    | file => exact hpure _
  have hexpand : P (host.expand [.path p]) :=
    hbind (x := host.keepingValue _ _) helement fun _ => hbind (hpure _) fun _ => hpure _
  exact hbind hexpand fun _ => hpure _

section Requests

variable (st : Strategy) (p : Path)

theorem keeps_entry : Keeps (Ask.KeepsTo key) (fun _ => True) (atKey st p key .entry) :=
  keeps_cached ((keeps_observe key).mono (fun _ => keepsTo_of_look) fun _ h => congrArg some h)

theorem keeps_tree : Keeps (Ask.KeepsTo key) (fun _ => True) (atKey st p key .tree) :=
  keeps_cached ((keeps_walk key _).mono (fun _ => keepsTo_of_look) fun _ h => h)

variable (hkey : ∀ cwd, (Path.ofString key).canonical cwd = .ok key)

include hkey

/-- A request by the path of the key has the same key. -/
theorem keeps_request {allowed : Ask → Prop} (hlook : allowed .look) (kind : Production)
    (h : Keeps allowed (fun _ => True) (atKey st (.ofString key) key kind)) :
    Keeps allowed (fun _ => True) (kind.request st (.ofString key)) := by
  rw [request_eq]
  refine ((keeps_key hkey).mono (fun _ hq => hq ▸ hlook) fun _ h => h).bind ?_
  rintro _ rfl
  exact h

theorem keeps_aggregate : Keeps (Ask.KeepsTo key) (fun _ => True) (atKey st p key .aggregate) := by
  have hcollection : Keeps (Ask.KeepsTo key) (fun _ => True)
      (host.snapshotCollection st [.path (.ofString key)]) :=
    closed_collection (fun _ => keeps_pure trivial) (fun hx hf => hx.bind fun a _ => hf a) st _
      (keeps_request st hkey trivial .entry (keeps_entry st (.ofString key)))
      (keeps_request st hkey trivial .tree (keeps_tree st (.ofString key)))
  exact keeps_cached (hcollection.mono (fun _ h => h) fun _ _ => rfl)

/-- **What a request does at its key** has to do with no other key. -/
theorem keeps_atKey (kind : Production) :
    Keeps (Ask.KeepsTo key) (fun _ => True) (atKey st p key kind) := by
  cases kind with
  | entry => exact keeps_entry st p
  | tree => exact keeps_tree st p
  | aggregate => exact keeps_aggregate st p hkey

end Requests

end Task

end SnapStore
