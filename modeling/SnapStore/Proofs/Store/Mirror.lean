import Mathlib.Logic.Function.Basic
import Mathlib.Tactic.SplitIfs
import SnapStore.Store.Cache

/-!
# Mirrors

A store sees of its cache what can be looked up in it and what it is told. A `SnapStore.Mirror`
is anything that can stand in that place: actions on some state, one for every use that is made
of a cache (`SnapStore.Mirror.Use`).

What a store may rely on is that a mirror does not make things up. The `SnapStore.Ledger` of a
run writes down, for every slot and key, the value that was stored last and not forgotten since.
A mirror is **honest** (`SnapStore.Mirror.IsHonest`) if it answers every lookup of every run
with nothing or with the value in the ledger: it may forget whatever it likes whenever it likes.

* The caches of the library are honest, whatever their retention
  (`SnapStore.Cache.isHonest_mirror`): those that keep everything, those that keep the values
  used last, however many these are, and the one that keeps nothing.
* An honest mirror stays so if arbitrary lookups are hidden from it
  (`SnapStore.Mirror.IsHonest.blinded`).
-/

namespace SnapStore

/-- **Anything that can stand in the place of a cache.** -/
structure Mirror (σ : Type) where
  /-- Looks up an entry. -/
  lookUpEntry : String → StateM σ (Option Entry)
  /-- Stores an entry under its path. -/
  putEntry : Entry → StateM σ Unit
  /-- Looks up a tree. -/
  lookUpTree : String → StateM σ (Option TreeSnapshot)
  /-- Stores a tree under the path of its root. -/
  putTree : TreeSnapshot → StateM σ Unit
  /-- Looks up an aggregate. -/
  lookUpAggregate : String → StateM σ (Option Aggregate)
  /-- Stores an aggregate. -/
  putAggregate : String → Aggregate → StateM σ Unit
  /-- Is told to forget a path. -/
  invalidate : String → StateM σ Unit
  /-- Is told to forget everything. -/
  invalidateAll : StateM σ Unit

/-- What was stored last under every key and not forgotten since. -/
structure Ledger where
  /-- Entries. -/
  entries : String → Option Entry
  /-- Trees. -/
  trees : String → Option TreeSnapshot
  /-- Aggregates. -/
  aggregates : String → Option Aggregate

/-- The ledger of no use at all. -/
def Ledger.blank : Ledger := ⟨fun _ => none, fun _ => none, fun _ => none⟩

namespace Mirror

variable {σ : Type}

/-- One use that is made of a cache. -/
inductive Use
  /-- An entry is looked up. -/
  | lookUpEntry (key : String)
  /-- An entry is stored. -/
  | putEntry (e : Entry)
  /-- A tree is looked up. -/
  | lookUpTree (key : String)
  /-- A tree is stored. -/
  | putTree (t : TreeSnapshot)
  /-- An aggregate is looked up. -/
  | lookUpAggregate (key : String)
  /-- An aggregate is stored. -/
  | putAggregate (key : String) (a : Aggregate)
  /-- A path is to be forgotten. -/
  | invalidate (key : String)
  /-- Everything is to be forgotten. -/
  | invalidateAll

/-- The state that a use leaves behind. -/
def after (M : Mirror σ) (s : σ) : Use → σ
  | .lookUpEntry key => (M.lookUpEntry key s).2
  | .putEntry e => (M.putEntry e s).2
  | .lookUpTree key => (M.lookUpTree key s).2
  | .putTree t => (M.putTree t s).2
  | .lookUpAggregate key => (M.lookUpAggregate key s).2
  | .putAggregate key a => (M.putAggregate key a s).2
  | .invalidate key => (M.invalidate key s).2
  | .invalidateAll => (M.invalidateAll s).2

end Mirror

/-- The ledger after one more use. -/
def Ledger.after (l : Ledger) : Mirror.Use → Ledger
  | .putEntry e => { l with entries := Function.update l.entries e.path (some e) }
  | .putTree t =>
    match t.base with
    | none => l
    | some base => { l with trees := Function.update l.trees base (some t) }
  | .putAggregate key a => { l with aggregates := Function.update l.aggregates key (some a) }
  | .invalidate key =>
    { entries := Function.update l.entries key none
      trees := Function.update l.trees key none
      aggregates := Function.update l.aggregates key none }
  | .invalidateAll => .blank
  | .lookUpEntry _ => l
  | .lookUpTree _ => l
  | .lookUpAggregate _ => l

/-- Whether a lookup gave nothing or what is in the ledger. -/
def Ledger.Admits {α : Type} (inLedger answer : Option α) : Prop :=
  answer = none ∨ answer = inLedger

namespace Mirror

variable {σ : Type}

/-- In this state all lookups are answered with nothing or by the ledger. -/
structure AnswersBy (M : Mirror σ) (s : σ) (l : Ledger) : Prop where
  /-- Lookups of entries. -/
  entry : ∀ key, Ledger.Admits (l.entries key) (M.lookUpEntry key s).1
  /-- Lookups of trees. -/
  tree : ∀ key, Ledger.Admits (l.trees key) (M.lookUpTree key s).1
  /-- Lookups of aggregates. -/
  aggregate : ∀ key, Ledger.Admits (l.aggregates key) (M.lookUpAggregate key s).1

/-- **A mirror is honest** if in every run that begins at `start` it answers a lookup with
nothing or with the value stored last for that slot and key since it was last told to forget
it. -/
def IsHonest (M : Mirror σ) (start : σ) : Prop :=
  ∀ uses : List Use, M.AnswersBy (uses.foldl M.after start) (uses.foldl Ledger.after .blank)

end Mirror

/-! ### Shelves by the ledger -/

namespace Shelf

variable {α : Type}

theorem lookup_take (items : List (String × α)) (count : Nat) (key : String) :
    (items.take count).lookup key = none ∨ (items.take count).lookup key = items.lookup key := by
  induction items generalizing count with
  | nil => exact Or.inl (by simp)
  | cons item items ih =>
    cases count with
    | zero => exact Or.inl rfl
    | succ count =>
      rw [List.take_succ_cons, List.lookup_cons, List.lookup_cons]
      split
      · exact Or.inr rfl
      · exact ih count

/-- A shelf holds nothing but what is in the ledger; a shelf that keeps nothing holds nothing. -/
structure HoldsBy (r : Retention) (s : Shelf α) (l : String → Option α) : Prop where
  /-- What is found is in the ledger. -/
  find : ∀ key, Ledger.Admits (l key) (s.find? key)
  /-- Where nothing is kept, nothing is there. -/
  items : r = .none → s.items = []

variable {r : Retention} {s : Shelf α} {l : String → Option α}

theorem HoldsBy.empty (r : Retention) : HoldsBy r (.empty : Shelf α) fun _ => none :=
  ⟨fun _ => Or.inl rfl, fun _ => rfl⟩

theorem HoldsBy.use (h : HoldsBy r s l) (key : String) : HoldsBy r (s.use r key) l := by
  refine ⟨fun other => by rw [find?_use]; exact h.find other, fun hr => ?_⟩
  subst hr
  exact h.items rfl

theorem HoldsBy.bring (h : HoldsBy r s l) (key : String) (a : α) (other : String) :
    Ledger.Admits (Function.update l key (some a) other) ((s.bring key a).find? other) := by
  by_cases hkey : other = key
  · rw [hkey, find?_bring_self, Function.update_self]
    exact Or.inr rfl
  · rw [find?_bring_of_ne hkey, Function.update_of_ne hkey]
    exact h.find other

theorem HoldsBy.store (h : HoldsBy r s l) (key : String) (a : α) :
    HoldsBy r (s.store r key a) (Function.update l key (some a)) := by
  cases r with
  | none =>
    have hnone : ∀ other, s.find? other = none := fun other => by rw [find?, h.items rfl]; rfl
    exact ⟨fun other => Or.inl (hnone other), fun _ => h.items rfl⟩
  | all => exact ⟨h.bring key a, fun hr => by cases hr⟩
  | recent capacity =>
    refine ⟨fun other => ?_, fun hr => by cases hr⟩
    rcases lookup_take (s.bring key a).items capacity other with hnone | hsome
    · exact Or.inl hnone
    · rcases h.bring key a other with hb | hb
      · exact Or.inl (hsome.trans hb)
      · exact Or.inr (hsome.trans hb)

theorem HoldsBy.erase (h : HoldsBy r s l) (key : String) :
    HoldsBy r (s.erase key) (Function.update l key none) := by
  refine ⟨fun other => ?_, fun hr => by rw [Shelf.erase, h.items hr]; rfl⟩
  by_cases hkey : other = key
  · rw [hkey, find?_erase_self]
    exact Or.inl rfl
  · rw [find?_erase_of_ne hkey, Function.update_of_ne hkey]
    exact h.find other

end Shelf

/-! ### Caches are honest -/

namespace Cache

/-- The caches of the library as mirrors. -/
def mirror : Mirror Cache where
  lookUpEntry key c := c.lookUpEntry key
  putEntry e c := ((), c.putEntry e)
  lookUpTree key c := c.lookUpTree key
  putTree t c := ((), c.putTree t)
  lookUpAggregate key c := c.lookUpAggregate key
  putAggregate key a c := ((), c.putAggregate key a)
  invalidate key c := ((), c.invalidate key)
  invalidateAll c := ((), c.invalidateAll)

/-- A cache holds nothing but what is in the ledger. -/
structure HoldsBy (c : Cache) (l : Ledger) : Prop where
  /-- Its entries. -/
  entries : c.entries.HoldsBy c.retention l.entries
  /-- Its trees. -/
  trees : c.trees.HoldsBy c.retention l.trees
  /-- Its aggregates. -/
  aggregates : c.aggregates.HoldsBy c.retention l.aggregates

theorem holdsBy_empty (r : Retention) : (empty r).HoldsBy .blank :=
  ⟨.empty r, .empty r, .empty r⟩

variable {c : Cache} {l : Ledger}

/-- Every use keeps a cache and its ledger in step. -/
theorem HoldsBy.after (h : c.HoldsBy l) (u : Mirror.Use) :
    (mirror.after c u).HoldsBy (l.after u) := by
  cases u with
  | lookUpEntry key => exact ⟨h.entries.use key, h.trees, h.aggregates⟩
  | putEntry e => exact ⟨h.entries.store e.path e, h.trees, h.aggregates⟩
  | lookUpTree key => exact ⟨h.entries, h.trees.use key, h.aggregates⟩
  | putTree t =>
    obtain ⟨base, entries⟩ := t
    cases base with
    | none => exact h
    | some base => exact ⟨h.entries, h.trees.store base _, h.aggregates⟩
  | lookUpAggregate key => exact ⟨h.entries, h.trees, h.aggregates.use key⟩
  | putAggregate key a => exact ⟨h.entries, h.trees, h.aggregates.store key a⟩
  | invalidate key => exact ⟨h.entries.erase key, h.trees.erase key, h.aggregates.erase key⟩
  | invalidateAll => exact ⟨.empty _, .empty _, .empty _⟩

theorem HoldsBy.foldl (h : c.HoldsBy l) (uses : List Mirror.Use) :
    (uses.foldl mirror.after c).HoldsBy (uses.foldl Ledger.after l) := by
  induction uses generalizing c l with
  | nil => exact h
  | cons u uses ih => exact ih (h.after u)

/-- **Caches are honest**, whatever their retention. -/
theorem isHonest_mirror (r : Retention) : mirror.IsHonest (.empty r) := fun uses =>
  have h := (holdsBy_empty r).foldl uses
  ⟨h.entries.find, h.trees.find, h.aggregates.find⟩

end Cache

/-! ### Hiding lookups -/

namespace Mirror

variable {σ : Type}

/-- A lookup that is hidden from the mirror if its number is among the chosen ones. -/
def hide {α : Type} (isHidden : Nat → Bool) (look : StateM σ (Option α)) :
    StateM (σ × Nat) (Option α) := fun s =>
  if isHidden s.2 then (none, s.1, s.2 + 1) else ((look s.1).1, (look s.1).2, s.2 + 1)

/-- A mirror that is not asked at the chosen lookups, which find nothing. -/
def blinded (M : Mirror σ) (isHidden : Nat → Bool) : Mirror (σ × Nat) where
  lookUpEntry key := hide isHidden (M.lookUpEntry key)
  putEntry e s := ((), (M.putEntry e s.1).2, s.2)
  lookUpTree key := hide isHidden (M.lookUpTree key)
  putTree t s := ((), (M.putTree t s.1).2, s.2)
  lookUpAggregate key := hide isHidden (M.lookUpAggregate key)
  putAggregate key a s := ((), (M.putAggregate key a s.1).2, s.2)
  invalidate key s := ((), (M.invalidate key s.1).2, s.2)
  invalidateAll s := ((), (M.invalidateAll s.1).2, s.2)

theorem admits_hide {α : Type} {isHidden : Nat → Bool} {look : StateM σ (Option α)} {s : σ × Nat}
    {inLedger : Option α} (h : Ledger.Admits inLedger (look s.1).1) :
    Ledger.Admits inLedger (hide isHidden look s).1 := by
  unfold hide
  split_ifs
  · exact Or.inl rfl
  · exact h

variable (M : Mirror σ) (isHidden : Nat → Bool)

/-- The mirror that is hidden has seen the use, or the use was a lookup. -/
theorem blinded_after (s : σ × Nat) (u : Use) :
    ((M.blinded isHidden).after s u).1 = M.after s.1 u ∨
      (((M.blinded isHidden).after s u).1 = s.1 ∧ ∀ l : Ledger, l.after u = l) := by
  have hlook : ∀ {α : Type} (look : StateM σ (Option α)),
      (hide isHidden look s).2.1 = (look s.1).2 ∨ (hide isHidden look s).2.1 = s.1 := by
    intro α look
    unfold hide
    split_ifs
    · exact Or.inr rfl
    · exact Or.inl rfl
  cases u with
  | lookUpEntry key => exact (hlook (M.lookUpEntry key)).imp_right fun h => ⟨h, fun _ => rfl⟩
  | lookUpTree key => exact (hlook (M.lookUpTree key)).imp_right fun h => ⟨h, fun _ => rfl⟩
  | lookUpAggregate key =>
    exact (hlook (M.lookUpAggregate key)).imp_right fun h => ⟨h, fun _ => rfl⟩
  | putEntry e => exact Or.inl rfl
  | putTree t => exact Or.inl rfl
  | putAggregate key a => exact Or.inl rfl
  | invalidate key => exact Or.inl rfl
  | invalidateAll => exact Or.inl rfl

/-- A run of the blinded mirror is a run of the hidden one with the same ledger. -/
theorem exists_uses_of_blinded (uses : List Use) (s : σ × Nat) (l : Ledger) :
    ∃ seen : List Use, (uses.foldl (M.blinded isHidden).after s).1 = seen.foldl M.after s.1 ∧
      uses.foldl Ledger.after l = seen.foldl Ledger.after l := by
  induction uses generalizing s l with
  | nil => exact ⟨[], rfl, rfl⟩
  | cons u uses ih =>
    obtain ⟨seen, hstate, hledger⟩ := ih ((M.blinded isHidden).after s u) (l.after u)
    rcases M.blinded_after isHidden s u with h | ⟨h, hl⟩
    · exact ⟨u :: seen, by rw [List.foldl_cons, hstate, h]; rfl, hledger⟩
    · rw [hl] at hledger
      exact ⟨seen, by rw [List.foldl_cons, hstate, h], by rw [List.foldl_cons, hl, hledger]⟩

variable {M}

/-- **Hiding lookups leaves a mirror honest.** -/
theorem IsHonest.blinded {start : σ} (h : M.IsHonest start) (count : Nat) :
    (M.blinded isHidden).IsHonest (start, count) := by
  intro uses
  obtain ⟨seen, hstate, hledger⟩ := M.exists_uses_of_blinded isHidden uses (start, count) .blank
  have hseen := h seen
  rw [← hstate, ← hledger] at hseen
  exact ⟨fun key => admits_hide (hseen.entry key), fun key => admits_hide (hseen.tree key),
    fun key => admits_hide (hseen.aggregate key)⟩

end Mirror

end SnapStore
