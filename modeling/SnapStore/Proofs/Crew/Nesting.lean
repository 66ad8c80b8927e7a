import SnapStore.Proofs.Crew.Basic
import SnapStore.Proofs.Server.Rule
import SnapStore.Proofs.Store.AlikeStores

/-!
# How sections are nested

Sections of one kind have a higher **rank** than those of another if they are entered before them
(`SnapStore.Production.rank`). The sections that a thread is in make a stack, the innermost first
(`SnapStore.Seat`). A thread nests them well if it begins a section only while it is inside of all
those that it is in and these have a higher rank, and goes on only in the innermost. This is a rule
for tasks (`SnapStore.Nesting.rule`), and with it a stack stays in order
(`SnapStore.Nesting.isOrdered_after`).

Everything that is made of looks alone obeys the rule anywhere. A section obeys it where its rank is
lower than all those on the stack, if what is done inside obeys it there. So entries and trees can
be asked for inside of an aggregate, and all requests obey it from the empty stack
(`SnapStore.Providers.follows_work`).
-/

namespace SnapStore

/-- Aggregates are made of entries and of trees, which are made of nothing that is kept. -/
def Production.rank : Production → Nat
  | .aggregate => 1
  | .entry => 0
  | .tree => 0

/-- A section that a thread is in, and how far it has come. -/
structure Seat where
  /-- What kind of things the section is for. -/
  kind : Production
  /-- The key. -/
  key : String
  /-- How far the thread has come. -/
  stage : Stage

namespace Nesting

/-- What may be asked for in the sections of a stack. -/
def Allows (stack : List Seat) : Ask → Prop
  | .enter kind _ => ∀ s ∈ stack, s.stage = .inside ∧ kind.rank < s.kind.rank
  | .goOn kind stage => ∃ key below, stack = ⟨kind, key, stage⟩ :: below
  | _ => True

/-- The stack after the next step in the innermost section. -/
def advance : List Seat → List Seat
  | [] => []
  | s :: below => (s.stage.next?.map fun stage => { s with stage := stage }).toList ++ below

/-- The stack after a reply. -/
def after (stack : List Seat) : (q : Ask) → q.Reply → List Seat
  | .enter kind key, _ => ⟨kind, key, .waiting⟩ :: stack
  | .goOn _ _, _ => advance stack
  | _, _ => stack

/-- **The rule of nesting.** -/
def rule : Rule (List Seat) := ⟨Allows, after⟩

/-- A stack is in order if the thread is inside of all sections but the innermost and their ranks
increase outwards. -/
def IsOrdered (stack : List Seat) : Prop :=
  stack.Pairwise fun s outer => outer.stage = .inside ∧ s.kind.rank < outer.kind.rank

/-- **By the rule a stack stays in order.** -/
theorem isOrdered_after {stack : List Seat} (h : IsOrdered stack) {q : Ask} (hq : Allows stack q)
    (r : q.Reply) : IsOrdered (after stack q r) := by
  cases q with
  | look => exact h
  | find => exact h
  | store => exact h
  | enter kind key => exact List.pairwise_cons.2 ⟨hq, h⟩
  | goOn kind stage =>
    obtain ⟨key, below, rfl⟩ := hq
    obtain ⟨houter, hbelow⟩ := List.pairwise_cons.1 h
    change IsOrdered ((stage.next?.map _).toList ++ below)
    cases stage.next? with
    | none => exact hbelow
    | some next => exact List.pairwise_cons.2 ⟨houter, hbelow⟩

/-- Computations that obey the rule from a stack on and come back to it. -/
def nesting (stack : List Seat) : Relator Task Task where
  Rel x _ := x.Follows rule (fun stack' _ => stack' = stack) stack
  pure _ := rfl
  map f _ _ h := h.bind fun _ _ hstack => hstack
  bind hx hf := hx.bind <| by
    rintro _ a rfl
    exact hf a

variable {stack : List Seat} {kind : Production} {key : String}

/-- Looks can be taken anywhere. -/
theorem nesting_of_obeys {α : Type} {x y : Task α} (h : x.Obeys (· = .look) fun _ => True) :
    (nesting stack).Rel x y := by
  have hallows : ∀ q, q = .look → rule.Allows stack q := fun _ hq => hq ▸ trivial
  have hafter : ∀ q, q = .look → ∀ r, rule.after stack q r = stack := by
    rintro _ rfl _
    rfl
  exact (h.stays hallows hafter).mono fun _ _ hstack => hstack.1

/-- What is done in a section is done with one more seat on the stack. -/
theorem nesting_exclusively (hstack : Allows stack (.enter kind key)) {α : Type} {act : Task α}
    (h : (nesting (⟨kind, key, .inside⟩ :: stack)).Rel act act) :
    (nesting stack).Rel (Task.exclusively kind key act) (Task.exclusively kind key act) := by
  change (Task.exclusively kind key act).Follows rule _ stack
  rw [Task.exclusively_eq]
  refine ⟨hstack, fun _ => ⟨⟨key, stack, rfl⟩, fun _ => Task.Follows.bind h ?_⟩⟩
  rintro _ a rfl
  exact ⟨⟨key, stack, rfl⟩,
    fun _ => ⟨⟨key, stack, rfl⟩, fun _ => ⟨⟨key, stack, rfl⟩, fun _ => rfl⟩⟩⟩

variable (pr : Providers)

/-- **What is kept is computed in the section of its key.** -/
theorem nesting_cached (hstack : Allows stack (.enter kind key))
    {compute : ExceptT Failure Task kind.Value}
    (h : ((nesting (⟨kind, key, .inside⟩ :: stack)).except Failure).Rel compute compute) :
    ((nesting stack).except Failure).Rel (pr.host.cached (Task.keeper kind) kind key compute)
      (pr.host.cached (Task.keeper kind) kind key compute) := by
  have hattempt : (nesting (⟨kind, key, .inside⟩ :: stack)).Rel
      (Task.attempt kind key compute) (Task.attempt kind key compute) := by
    refine ⟨trivial, fun found => ?_⟩
    cases found with
    | some a => exact rfl
    | none =>
      refine Task.Follows.bind h ?_
      rintro _ r rfl
      cases r with
      | ok a => exact ⟨trivial, fun _ => rfl⟩
      | error e => exact rfl
  change (Task.host.cached (Task.keeper kind) kind key compute).run.Follows rule _ stack
  rw [Task.run_cached]
  refine ⟨trivial, fun found => ?_⟩
  cases found with
  | some a => exact rfl
  | none => exact nesting_exclusively hstack hattempt

/-- Looks and digests can be had anywhere. -/
theorem alikeHosts_nesting (stack : List Seat) : (nesting stack).AlikeHosts pr.host pr.host where
  calls := Relator.calls_live (nesting_of_obeys (Task.obeys_perform rfl))
  stat p := nesting_of_obeys (pr.stat_obeys p)
  hasher :=
    { content := fun what r => nesting_of_obeys (pr.content_obeys what r)
      file := fun p seen => nesting_of_obeys (pr.file_obeys p seen) }
  intern _ := rfl

/-- **Entries and trees** can be had inside of aggregates. -/
theorem alikeSnapshots_nesting (hstack : ∀ s ∈ stack, s.stage = .inside ∧ 0 < s.kind.rank) :
    (nesting stack).AlikeSnapshots pr.host pr.host where
  toAlikeHosts := alikeHosts_nesting pr stack
  self p := by
    refine ((nesting stack).except Failure).bind
      (Relator.key (alikeHosts_nesting pr stack) p) fun key => ?_
    have henter : Allows stack (.enter .entry key) := hstack
    exact nesting_cached pr henter (Relator.observe (alikeHosts_nesting pr _) key)
  tree t := by
    have hwalk : ∀ stack' base, ((nesting stack').except Failure).Rel
        (pr.host.walk base (t.visit pr.host.calls.lift)) _ := fun stack' base =>
      have halike := alikeHosts_nesting pr stack'
      Relator.walk halike base (Relator.visit_directoryTree (Relator.calls_lift halike.calls) t)
    refine ((nesting stack).except Failure).bind
      (Relator.key (alikeHosts_nesting pr stack) t.root) fun key => ?_
    have henter : Allows stack (.enter .tree key) := hstack
    dsimp only
    split_ifs
    · exact hwalk _ _
    · exact nesting_cached pr henter (hwalk _ _)
  keeping _ _ _ h := h

/-- **Aggregates** can be had where nothing else is under way. -/
theorem nesting_snapshotAll (st : Strategy) (p : Path) :
    ((nesting []).except Failure).Rel (pr.host.snapshotAll st p) (pr.host.snapshotAll st p) := by
  refine ((nesting []).except Failure).bind
    (Relator.key (alikeHosts_nesting pr []) p) fun key => ?_
  have hinside : ∀ s ∈ [Seat.mk .aggregate key .inside], s.stage = .inside ∧ 0 < s.kind.rank :=
    List.forall_mem_singleton.2 ⟨rfl, Nat.one_pos⟩
  refine nesting_cached pr (List.forall_mem_nil _) ?_
  exact Relator.snapshotCollection (alikeSnapshots_nesting pr hinside) st
    (.cons (.path (.ofString key)) .nil)

end Nesting

open Nesting in
/-- **All requests nest their sections well**, one after the other. -/
theorem Providers.follows_work (pr : Providers) (st : Strategy) (requests : List Request) :
    (pr.work st requests).Follows rule (fun stack _ => stack = []) [] := by
  induction requests with
  | nil => exact rfl
  | cons r rs ih =>
    have hanswer : (nesting []).Rel (pr.host.answer st r) (pr.host.answer st r) :=
      Relator.answer_of_snapshots (alikeSnapshots_nesting pr (List.forall_mem_nil _)) st
        (nesting_snapshotAll pr st) r
    refine Task.Follows.bind hanswer ?_
    rintro _ _ rfl
    exact ih

end SnapStore
