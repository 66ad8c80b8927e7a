import Mathlib.Data.List.Perm.Basic
import SnapStore.Proofs.Session.Agreement
import SnapStore.Proofs.Snapshot.Unordered

/-!
# The order of the elements of a collection

A collection is expanded element by element, so its elements in another order have the same entries
in another order (`SnapStore.Host.exists_expand_perm`). Where elements overlap, several entries of
one path come up, and combining goes by the first of them.

Whatever element it comes from, an entry has the name and the content of the entry of its own path
(`SnapStore.World.Describes`). So it does not matter which entry comes first as long as nothing else
of it counts. Relative paths do count in a relative hash, and the root of one element may lie
deep below another: then the order of the elements shows
(`SnapStore.Session.snapshotCollection_not_perm`).
-/

namespace SnapStore

open Strategy

/-! ### Expansion element by element -/

namespace Host

variable {w : World}

/-- What follows a value goes on from it. -/
theorem run_bind_ok {ε α β : Type} {x : ExceptT ε Id α} {f : α → ExceptT ε Id β} {a : α}
    (h : x.run = Except.ok a) : (x >>= f).run = (f a).run := by
  change ExceptT.bindCont (m := Id) f x.run = _
  rw [h]
  rfl

/-- **A collection is expanded element by element.** -/
theorem bareHost_expand_eq_ok_iff {es : List (Element Id)} {entries : List Entry} :
    (w.bareHost.expand es).run = Except.ok entries ↔
      ∃ parts, List.Forall₂ (fun e part => (w.bareHost.expandElement e).run = Except.ok part)
        es parts ∧ entries = parts.flatten := by
  induction es generalizing entries with
  | nil =>
    constructor
    · intro h
      cases h
      exact ⟨[], .nil, rfl⟩
    · rintro ⟨_, ⟨⟩, rfl⟩
      rfl
  | cons e es ih =>
    constructor
    · intro h
      obtain ⟨first, hfirst, h⟩ := exists_of_bind h
      obtain ⟨rest, hrest, h⟩ := exists_of_bind h
      cases h
      obtain ⟨parts, hparts, rfl⟩ := ih.1 hrest
      exact ⟨first :: parts, .cons hfirst hparts, rfl⟩
    · rintro ⟨_, hall, rfl⟩
      cases hall with
      | cons hfirst hparts =>
        have hrest := ih.2 ⟨_, hparts, rfl⟩
        exact (run_bind_ok hfirst).trans (run_bind_ok hrest)

/-- **Elements in another order have their entries in another order.** -/
theorem exists_expand_perm {es es' : List (Element Id)} (hperm : es.Perm es')
    {entries : List Entry} (h : (w.bareHost.expand es).run = Except.ok entries) :
    ∃ entries', (w.bareHost.expand es').run = Except.ok entries' ∧ entries.Perm entries' := by
  obtain ⟨parts, hparts, rfl⟩ := bareHost_expand_eq_ok_iff.1 h
  obtain ⟨parts', hparts', hperm'⟩ := List.perm_comp_forall₂ hperm.symm hparts
  exact ⟨parts'.flatten, bareHost_expand_eq_ok_iff.2 ⟨parts', hparts', rfl⟩, hperm'.symm.flatten⟩

theorem bareHost_snapshotCollection {es : List (Element Id)} {entries : List Entry}
    (h : (w.bareHost.expand es).run = Except.ok entries) (s : Strategy) :
    (w.bareHost.snapshotCollection s es).run = Except.ok (s.combine entries) :=
  run_bind_ok h

end Host

/-! ### What an entry says of its path -/

namespace World

variable {w : World}

/-- An entry has the name and the content of the entry of its own path. -/
def Describes (w : World) (e : Entry) : Prop :=
  ∃ own, Host.rightEntry w e.path = .ok own ∧ e.name = own.name ∧ e.content = own.content

/-- Two entries of one path have the same name and the same content. -/
theorem Describes.agree {e e' : Entry} (h : w.Describes e) (h' : w.Describes e')
    (hpath : e.path = e'.path) : e.name = e'.name ∧ e.content = e'.content := by
  obtain ⟨own, hown, hname, hcontent⟩ := h
  obtain ⟨own', hown', hname', hcontent'⟩ := h'
  rw [hpath, hown'] at hown
  cases hown
  exact ⟨hname.trans hname'.symm, hcontent.trans hcontent'.symm⟩

/-- A root of a collection that is a path or an unfiltered directory, spelled canonically. -/
inductive IsCanonicalRoot (w : World) : Member → Prop
  /-- A path. -/
  | path {c : String} (hc : (Path.ofString c).canonical w.workingDirectory = .ok c) :
    IsCanonicalRoot w (.path (.ofString c))
  /-- What is below a directory. -/
  | directory {c : String} (hc : (Path.ofString c).canonical w.workingDirectory = .ok c) :
    IsCanonicalRoot w (.directory (.all (.ofString c)))

theorem IsCanonicalRoot.isCanonicalMember {r : Member} (h : w.IsCanonicalRoot r) :
    Session.IsCanonicalMember w r := by
  cases h with
  | path hc => exact isCanonical_ofString hc
  | directory hc => exact Or.inr (isCanonical_ofString hc)

variable (hw : w.IsWellNamed) {c : String}
  (hc : (Path.ofString c).canonical w.workingDirectory = .ok c)

include hc

/-- So does every entry of a path on its own. -/
theorem describes_of_snapshotSelf {e : Entry}
    (h : (w.bareHost.snapshotSelf (.ofString c)).run = Except.ok e) : w.Describes e := by
  rw [bareHost_snapshotSelf_of_canonical w hc] at h
  have hpath : e.path = c := Host.path_of_rightEntry h
  exact ⟨e, hpath ▸ h, rfl, rfl⟩

include hw

/-- And every entry of a tree. -/
theorem describes_of_mem_snapshotTree {t : TreeSnapshot}
    (h : (w.bareHost.snapshotTree (.all (.ofString c))).run = Except.ok t) :
    ∀ e ∈ t.entries, w.Describes e := by
  rw [bareHost_snapshotTree_of_canonical w hc] at h
  intro e he
  obtain ⟨-, hright⟩ := rightEntry_of_mem_treeOf hw hc h he
  refine ⟨e.takenOut, hright, by simp, ?_⟩
  cases e <;> rfl

omit hc

/-- **Every entry that a collection is expanded to says of its path what is there.** -/
theorem describes_of_mem_expandElement {r : Member} (hr : w.IsCanonicalRoot r) {es : List Entry}
    (h : (w.bareHost.expandElement (Session.bareElement w r)).run = Except.ok es) :
    ∀ e ∈ es, w.Describes e := by
  cases hr with
  | path hc =>
    obtain ⟨root, hroot, h⟩ := exists_of_bind h
    have hown := describes_of_snapshotSelf hc hroot
    cases root with
    | missing | file =>
      cases h
      exact List.forall_mem_singleton.2 hown
    | directory =>
      obtain ⟨t, ht, h⟩ := exists_of_bind h
      cases h
      exact List.forall_mem_cons.2 ⟨hown, describes_of_mem_snapshotTree hw hc ht⟩
  | directory hc =>
    obtain ⟨t, ht, h⟩ := exists_of_bind h
    cases h
    exact describes_of_mem_snapshotTree hw hc ht

theorem describes_of_mem_expand {c : List Member} (hc : ∀ r ∈ c, w.IsCanonicalRoot r)
    {es : List Entry}
    (h : (w.bareHost.expand (c.map (Session.bareElement w))).run = Except.ok es) :
    ∀ e ∈ es, w.Describes e := by
  obtain ⟨parts, hparts, rfl⟩ := Host.bareHost_expand_eq_ok_iff.1 h
  intro e he
  obtain ⟨part, hpart, he⟩ := List.mem_flatten.1 he
  rw [List.forall₂_map_left_iff] at hparts
  obtain ⟨hlength, hget⟩ := List.forall₂_iff_get.1 hparts
  obtain ⟨⟨i, hi⟩, rfl⟩ := List.mem_iff_get.1 hpart
  have hi' : i < c.length := hlength ▸ hi
  exact describes_of_mem_expandElement hw (hc _ (List.getElem_mem hi')) (hget i hi' hi) e he

end World

/-! ### Aggregates of collections -/

namespace Session

variable {w : World} {st : Strategy} {s s' : Session} {c c' : List Member}

/-- What a session expands a collection to is what the bare host does. -/
theorem bareHost_expand_of_expand (hs : s.IsStill w (HoldsRight w st))
    (hc : ∀ r ∈ c, w.IsCanonicalRoot r) {es : List Entry} (hes : (expand c s).1 = .ok es) :
    (w.bareHost.expand (c.map (bareElement w))).run = Except.ok es :=
  (rel_expand (fun r hr => (hc r hr).isCanonicalMember) s hs).1.symm.trans hes

/-- The aggregate of a collection, when it is known what the bare host expands it to. -/
theorem snapshotCollection_of_expand (hs : s.IsStill w (HoldsRight w st))
    (hc : ∀ r ∈ c, w.IsCanonicalRoot r) {es : List Entry}
    (hes : (w.bareHost.expand (c.map (bareElement w))).run = Except.ok es) (how : Strategy) :
    (snapshotCollection how c s).1 = .ok (how.combine es) :=
  (rel_snapshotCollection how (fun r hr => (hc r hr).isCanonicalMember) s hs).1.trans
    (Host.bareHost_snapshotCollection hes how)

/-- **The order of the elements of a collection does not count where order does not count**, on a
world that stands still and for paths and unfiltered directories, however they overlap. What is
said of relative paths is needed: that entries of one path, which may come from several elements,
have the same relative text. -/
theorem snapshotCollection_perm (hw : w.IsWellNamed) (hs : s.IsStill w (HoldsRight w st))
    (hs' : s'.IsStill w (HoldsRight w st)) (hc : ∀ r ∈ c, w.IsCanonicalRoot r)
    (hperm : c.Perm c') {es : List Entry} (hes : (expand c s).1 = .ok es) (n : Normalization)
    (hn : n = .relative → ∀ e ∈ es, ∀ e' ∈ es, e.path = e'.path → n.apply e = n.apply e') :
    ∃ a, (snapshotCollection ⟨.unordered, n⟩ c s).1 = .ok a ∧
      (snapshotCollection ⟨.unordered, n⟩ c' s').1 = .ok a := by
  have hc' : ∀ r ∈ c', w.IsCanonicalRoot r := fun r hr => hc r (hperm.mem_iff.2 hr)
  have hbare := bareHost_expand_of_expand hs hc hes
  obtain ⟨es', hbare', hentries⟩ := Host.exists_expand_perm (hperm.map (bareElement w)) hbare
  have hdescribes := World.describes_of_mem_expand hw hc hbare
  -- Entries of one path leave the same pair, whichever of them comes first.
  have hpath : ∀ e ∈ es, ∀ e' ∈ es, e.path = e'.path → pair? n e = pair? n e' := by
    intro e he e' he' hpath
    obtain ⟨hname, hcontent⟩ := (hdescribes e he).agree (hdescribes e' he') hpath
    by_cases hrelative : n = .relative
    · rw [pair?, pair?, hn hrelative e he e' he' hpath, hcontent]
    · exact pair?_congr hrelative hpath hname hcontent
  refine ⟨combine ⟨.unordered, n⟩ es, snapshotCollection_of_expand hs hc hbare _, ?_⟩
  rw [snapshotCollection_of_expand hs' hc' hbare', combine, combine,
    pairs_eq_of_perm hentries hpath]

/-- A file that is an entry of one element and the root of another, with the same text. -/
theorem snapshotCollection_perm_of_overlap :
    let w := (World.empty.apply (.write (.ofString "/d/x") [] .epoch)).world
    let s := startOn w .all false false
    let c : List Member := [.directory (.all (.ofString "/d")), .path (.ofString "/d/x")]
    let c' : List Member := [.path (.ofString "/d/x"), .directory (.all (.ofString "/d"))]
    w.IsWellNamed ∧ s.IsStill w (HoldsRight w .default) ∧ (∀ r ∈ c, w.IsCanonicalRoot r) ∧
      c.Perm c' ∧ ∃ es, (expand c s).1 = .ok es ∧
        (∀ e ∈ es, ∀ e' ∈ es, e.path = e'.path →
          Normalization.relative.apply e = Normalization.relative.apply e') ∧
        ∃ a, (snapshotCollection ⟨.unordered, .relative⟩ c s).1 = .ok a ∧
          (snapshotCollection ⟨.unordered, .relative⟩ c' s).1 = .ok a := by
  intro w s c c'
  have hw : w.IsWellNamed := World.isWellNamed_empty.apply _
  have hs : s.IsStill w (HoldsRight w .default) := isStill_startOn (holdsRight_empty _ _ _) _ _
  have hc : ∀ r ∈ c, w.IsCanonicalRoot r := by
    intro r hr
    rcases List.mem_pair.1 hr with rfl | rfl
    · exact .directory rfl
    · exact .path rfl
  have hperm : c.Perm c' := .swap _ _ _
  have hanswer : ((expand c s).1.toOption.map fun es => es.all fun e =>
      decide (Normalization.relative.apply e = some "x")) = some true := by
    decide +kernel
  rcases hes : (expand c s).1 with error | es
  · rw [hes] at hanswer
    cases hanswer
  · rw [hes, Except.toOption, Option.map_some, Option.some.injEq] at hanswer
    have hall : ∀ e ∈ es, Normalization.relative.apply e = some "x" := by
      simpa using hanswer
    have hsame : ∀ e ∈ es, ∀ e' ∈ es, e.path = e'.path →
        Normalization.relative.apply e = Normalization.relative.apply e' :=
      fun e he e' he' _ => (hall e he).trans (hall e' he').symm
    exact ⟨hw, hs, hc, hperm, es, rfl, hsame,
      snapshotCollection_perm hw hs hs hc hperm hes .relative fun _ => hsame⟩

/-- The aggregate of a collection, when it is known what is left of its entries. -/
theorem exists_expand_of_normalized (hs : s.IsStill w (HoldsRight w st))
    (hc : ∀ r ∈ c, w.IsCanonicalRoot r) {n : Normalization} {ps : List Pair}
    (qs : List Pair) (hleft : (expand c s).1.toOption.map (normalized ⟨.unordered, n⟩) = some ps)
    (hperm : ps.Perm qs) (hsorted : qs.Pairwise fun a b => Pair.le a b = true) :
    (∃ es, (expand c s).1 = .ok es) ∧
      (snapshotCollection ⟨.unordered, n⟩ c s).1 = .ok ⟨.ofMessage (stream qs)⟩ := by
  rcases hes : (expand c s).1 with error | es
  · rw [hes] at hleft
    cases hleft
  · rw [hes] at hleft
    obtain rfl : normalized ⟨.unordered, n⟩ es = ps := Option.some.inj hleft
    refine ⟨⟨es, rfl⟩, ?_⟩
    rw [snapshotCollection_of_expand hs hc (bareHost_expand_of_expand hs hc hes), combine,
      pairs_eq_of_sorted hperm hsorted]

/-- **In a relative hash the order of the elements can show.** A directory that is the root of one
element and an entry deep below another goes by its name if the one comes first, and by its place
below the other if that does. -/
theorem snapshotCollection_not_perm :
    let w := (World.empty.apply (.makeDirectory (.ofString "/a/b/c"))).world
    let s := startOn w .all false false
    let c : List Member := [.path (.ofString "/a"), .path (.ofString "/a/b/c")]
    let c' : List Member := [.path (.ofString "/a/b/c"), .path (.ofString "/a")]
    w.IsWellNamed ∧ s.IsStill w (HoldsRight w .default) ∧ (∀ r ∈ c, w.IsCanonicalRoot r) ∧
      c.Perm c' ∧ (∃ es, (expand c s).1 = .ok es) ∧ (∃ es, (expand c' s).1 = .ok es) ∧
        (snapshotCollection ⟨.unordered, .relative⟩ c s).1 ≠
          (snapshotCollection ⟨.unordered, .relative⟩ c' s).1 := by
  intro w s c c'
  have hw : w.IsWellNamed := World.isWellNamed_empty.apply _
  have hs : s.IsStill w (HoldsRight w .default) := isStill_startOn (holdsRight_empty _ _ _) _ _
  have hc : ∀ r ∈ c, w.IsCanonicalRoot r := by
    intro r hr
    rcases List.mem_pair.1 hr with rfl | rfl <;> exact .path rfl
  have hperm : c.Perm c' := .swap _ _ _
  have hc' : ∀ r ∈ c', w.IsCanonicalRoot r := fun r hr => hc r (hperm.mem_iff.2 hr)
  -- What is left of the entries in the order of the elements, and then in the order of pairs.
  have hleft : (expand c s).1.toOption.map (normalized ⟨.unordered, .relative⟩) =
      some [("a", .directory), ("b", .directory), ("b/c", .directory)] := by
    decide +kernel
  have hleft' : (expand c' s).1.toOption.map (normalized ⟨.unordered, .relative⟩) =
      some [("c", .directory), ("a", .directory), ("b", .directory)] := by
    decide +kernel
  obtain ⟨hes, hanswer⟩ := exists_expand_of_normalized hs hc
    [("a", .directory), ("b", .directory), ("b/c", .directory)] hleft (.refl _) (by decide +kernel)
  obtain ⟨hes', hanswer'⟩ := exists_expand_of_normalized hs hc'
    [("a", .directory), ("b", .directory), ("c", .directory)] hleft' (by decide +kernel)
    (by decide +kernel)
  have hdigests :
      Sha256.digest (stream [("a", .directory), ("b", .directory), ("b/c", .directory)]) ≠
      Sha256.digest (stream [("a", .directory), ("b", .directory), ("c", .directory)]) := by
    rw [Sha256.digest_of_block (by decide +kernel), Sha256.digest_of_block (by decide +kernel)]
    decide +kernel
  refine ⟨hw, hs, hc, hperm, hes, hes', fun hsame => hdigests ?_⟩
  rw [hanswer, hanswer'] at hsame
  exact congrArg (fun a : Aggregate => a.digest.bytes) (Except.ok.inj hsame)

end Session

end SnapStore
