import Mathlib.Data.List.Sort
import SnapStore.Proofs.Tree.Complete

/-!
# Worlds from which something was removed

A world **is left of** another (`SnapStore.World.IsLeftOf`) if nothing stands in it that did not
stand there before. That is so after a removal (`SnapStore.World.isLeftOf_remove`), and after any
number of them. Of directories it is only said that they are directories, since they are changed
when something is removed from them.

Whoever asks the system for something by an absolute path gets an answer that has **dwindled**
(`SnapStore.World.Dwindled`). Either it is the one from before, or what was asked for is not found;
no other error can come of a removal. For what a path leads to this is
`SnapStore.World.IsLeftOf.find`, and for what is in a directory it is
`SnapStore.World.IsLeftOf.list`. The latter rests on the fact that what an absolute path leads to is
there (`SnapStore.World.exists_node_of_locate`), as else a directory that was removed might be found
and be taken for something that is no directory.

For a walk it follows that an entry is reported as before, or not at all
(`SnapStore.World.IsLeftOf.entryCourse`).
-/

namespace SnapStore

/-- Whether this may be left of a node: it is the node itself, or both are directories. What is
removed from a directory changes it, at a time that has a date. -/
def Node.Resembles (n' n : Node) : Prop :=
  n' = n ∨ ∃ modified, modified.Representable ∧ n' = .directory modified ∧ n.kind = .directory

namespace Node.Resembles

variable {n'' n' n : Node}

theorem refl (n : Node) : n.Resembles n := Or.inl rfl

theorem trans (h' : n''.Resembles n') (h : n'.Resembles n) : n''.Resembles n := by
  rcases h' with rfl | ⟨modified, hdated, rfl, hkind'⟩
  · exact h
  · rcases h with rfl | ⟨-, -, -, hkind⟩
    · exact Or.inr ⟨modified, hdated, rfl, hkind'⟩
    · exact Or.inr ⟨modified, hdated, rfl, hkind⟩

theorem kind_eq (h : n'.Resembles n) : n'.kind = n.kind := by
  rcases h with rfl | ⟨-, -, rfl, hkind⟩
  · rfl
  · rw [hkind]
    rfl

theorem eq_of_kind (h : n'.Resembles n) (hkind : n.kind ≠ .directory) : n' = n := by
  rcases h with rfl | ⟨-, -, -, hdirectory⟩
  · rfl
  · exact absurd hdirectory hkind

/-- What is left can be described if what was there could. -/
theorem exists_ofStatus (h : n'.Resembles n) {seen : Metadata}
    (hseen : Metadata.ofStatus n.status = .ok seen) :
    ∃ seen', Metadata.ofStatus n'.status = .ok seen' := by
  rcases h with rfl | ⟨modified, hdated, rfl, -⟩
  · exact ⟨seen, hseen⟩
  · exact ⟨_, Metadata.ofStatus_of_representable hdated⟩

end Node.Resembles

namespace World

open DirectoryTree

variable {w'' w' w : World}

/-- **A world that is left of another**: nothing stands in it that did not stand there before. -/
def IsLeftOf (w' w : World) : Prop :=
  ∀ p n', w'.node? p = some n' → ∃ n, w.node? p = some n ∧ n'.Resembles n

theorem IsLeftOf.refl (w : World) : w.IsLeftOf w := fun _ n h => ⟨n, h, .refl n⟩

theorem IsLeftOf.trans (h' : w''.IsLeftOf w') (h : w'.IsLeftOf w) : w''.IsLeftOf w := by
  intro p n'' hn''
  obtain ⟨n', hn', hres'⟩ := h' p n'' hn''
  obtain ⟨n, hn, hres⟩ := h p n' hn'
  exact ⟨n, hn, hres'.trans hres⟩

/-! ### Removals -/

theorem isLeftOf_takeAway (w : World) (gone : Place → Bool) : (w.takeAway gone).IsLeftOf w := by
  intro p n hn
  by_cases hp : p = []
  · subst hp
    exact ⟨n, hn, .refl n⟩
  · have hclear : (w.takeAway gone).node? p = if gone p then none else w.node? p :=
      w.node?_clear gone hp
    rw [hclear] at hn
    split_ifs at hn
    exact ⟨n, hn, .refl n⟩

theorem isLeftOf_removeEmptied (w : World) (spot : Spot) (p : Path) :
    (w.removeEmptied spot p).world.IsLeftOf w := by
  unfold removeEmptied
  rcases w.locate false (trimSlashes p) with e | place | level
  · exact .refl w
  · dsimp only
    split_ifs
    · exact w.isLeftOf_takeAway _
    · exact .refl w
  · exact .refl w

/-- **A removal leaves what was there**, whether it succeeds or not. -/
theorem isLeftOf_remove (w : World) (p : Path) : (w.apply (.remove p)).world.IsLeftOf w := by
  have hempty : ∀ spot, (w.emptySpot spot).IsLeftOf w := by
    rintro (place | level)
    · exact w.isLeftOf_takeAway _
    · exact .refl w
  unfold apply
  dsimp only
  rcases w.locate false p with e | spot
  · exact .refl w
  · dsimp only [removeSpot]
    split_ifs
    · exact (isLeftOf_removeEmptied _ spot p).trans (hempty spot)
    · rcases spot with place | level
      · exact w.isLeftOf_takeAway _
      · exact .refl w

/-! ### Answers of the system -/

/-- **An answer that has dwindled** as things were removed: what was asked for is gone, or it is
answered as before. -/
inductive Dwindled {α : Type} (R : α → α → Prop) : Except OsError α → Except OsError α → Prop
  /-- It is gone. -/
  | gone {answer : Except OsError α} : Dwindled R (.error .notFound) answer
  /-- It is refused as before. -/
  | refused (e : OsError) : Dwindled R (.error e) (.error e)
  /-- It is still there. -/
  | found {a' a : α} (h : R a' a) : Dwindled R (.ok a') (.ok a)

theorem Dwindled.map {α β : Type} {R : α → α → Prop} {S : β → β → Prop} {f : α → β}
    {x y : Except OsError α} (h : Dwindled R x y) (hf : ∀ a b, R a b → S (f a) (f b)) :
    Dwindled S (x.map f) (y.map f) := by
  cases h with
  | gone => exact .gone
  | refused e => exact .refused e
  | found h => exact .found (hf _ _ h)

/-! ### Where paths lead -/

theorem exists_place_of_onward {place : Place} {name : Bytes} {spot : Spot}
    (h : w.lookUp (.place place) name = .onward spot) : ∃ q, spot = .place q := by
  unfold lookUp at h
  split_ifs at h
  · cases h
    exact ⟨place, rfl⟩
  · cases h
    exact ⟨place.dropLast, rfl⟩
  · dsimp only at h
    rcases hnode : w.node? (place ++ [name]) with _ | node
    · rw [hnode] at h
      cases h
    · rw [hnode] at h
      cases node with
      | directory modified =>
        cases h
        exact ⟨_, rfl⟩
      | _ => cases h

namespace IsLeftOf

variable (h : w'.IsLeftOf w)

include h

/-- A name leads where it led, or is missing. -/
theorem lookUp (place : Place) (name : Bytes) :
    w'.lookUp (.place place) name = w.lookUp (.place place) name ∨
      w'.lookUp (.place place) name = .missing place := by
  unfold World.lookUp
  split_ifs
  · exact Or.inl rfl
  · exact Or.inl rfl
  · exact Or.inl rfl
  · dsimp only
    rcases hnode' : w'.node? (place ++ [name]) with _ | n'
    · exact Or.inr rfl
    · obtain ⟨n, hnode, hres⟩ := h _ _ hnode'
      rw [hnode]
      left
      rcases hres with rfl | ⟨modified, -, rfl, hkind⟩
      · rfl
      · cases n with
        | directory => rfl
        | _ => cases hkind

/-- So do names, one after the other. -/
theorem advance (followLast : Bool) (place : Place) (names : List Bytes) :
    w'.advance followLast (.place place) names = w.advance followLast (.place place) names ∨
      w'.advance followLast (.place place) names = .refused .notFound ∨
      ∃ d n, w'.advance followLast (.place place) names = .done (.absent d n) := by
  induction names generalizing place with
  | nil => exact Or.inl rfl
  | cons name rest ih =>
    rw [advance_cons, advance_cons]
    rcases h.lookUp place name with heq | hmissing
    · rw [heq]
      rcases hname : w.lookUp (.place place) name with spot | d | ⟨d, target⟩ | d | e
      · obtain ⟨q, rfl⟩ := exists_place_of_onward hname
        exact ih q
      · exact Or.inl rfl
      · exact Or.inl rfl
      · exact Or.inl rfl
      · exact Or.inl rfl
    · rw [hmissing, proceed]
      split_ifs
      · exact Or.inr (Or.inr ⟨place, name, rfl⟩)
      · exact Or.inr (Or.inl rfl)

/-- So do they if links are followed. -/
theorem follow (followLast : Bool) (links : Nat) (place : Place) (names : List Bytes) :
    w'.follow followLast links (.place place) names =
      w.follow followLast links (.place place) names ∨
      w'.follow followLast links (.place place) names = .error .notFound ∨
      ∃ d n, w'.follow followLast links (.place place) names = .ok (.absent d n) := by
  induction links generalizing place names with
  | zero =>
    rw [World.follow, World.follow]
    rcases h.advance followLast place names with heq | hgone | ⟨d, n, habsent⟩
    · exact Or.inl (by rw [heq])
    · rw [hgone]
      exact Or.inr (Or.inl rfl)
    · rw [habsent]
      exact Or.inr (Or.inr ⟨d, n, rfl⟩)
  | succ links ih =>
    rw [World.follow, World.follow]
    rcases h.advance followLast place names with heq | hgone | ⟨d, n, habsent⟩
    · -- The same link is come upon, and followed on.
      rw [heq]
      rcases w.advance followLast (.place place) names with r | e | ⟨directory, target, rest⟩
      · exact Or.inl rfl
      · exact Or.inl rfl
      · exact ih _ _
    · rw [hgone]
      exact Or.inr (Or.inl rfl)
    · rw [habsent]
      exact Or.inr (Or.inr ⟨d, n, rfl⟩)

/-- **An absolute path leads where it led**, or nowhere any more. -/
theorem locate {p : Path} (hp : p.isAbsolute = true) (followLast : Bool) :
    w'.locate followLast p = w.locate followLast p ∨ w'.locate followLast p = .error .notFound := by
  unfold World.locate resolve
  rw [if_pos hp, if_pos hp]
  split_ifs
  · exact Or.inl rfl
  · exact Or.inl rfl
  · exact Or.inl rfl
  · rcases h.follow followLast maxLinks [] p.names with heq | hgone | ⟨d, n, habsent⟩
    · rw [heq]
      exact Or.inl rfl
    · rw [hgone]
      exact Or.inr rfl
    · rw [habsent]
      exact Or.inr rfl

/-- **What it leads to is the same**, or is gone. -/
theorem find {p : Path} (hp : p.isAbsolute = true) (followLast : Bool) :
    Dwindled Node.Resembles (w'.find followLast p) (w.find followLast p) := by
  unfold World.find
  rcases h.locate hp followLast with heq | hgone
  · rw [heq]
    rcases hspot : w.locate followLast p with e | spot
    · exact .refused e
    · -- Only relative paths lead to directories that were removed.
      obtain ⟨place, rfl⟩ := exists_place_of_locate hp hspot
      dsimp only [nodeAt?]
      rcases hnode' : w'.node? place with _ | n'
      · exact .gone
      · obtain ⟨n, hnode, hres⟩ := h _ _ hnode'
        rw [hnode]
        exact .found hres
  · rw [hgone]
    exact .gone

/-- Of what is left it is told what kind it is, as before. -/
theorem stat {p : Path} (hp : p.isAbsolute = true) :
    Dwindled (fun s' s => s'.kind = s.kind) (w'.stat p) (w.stat p) :=
  (h.find hp true).map fun n' n hres => by rw [n'.kind_status, n.kind_status, hres.kind_eq]

theorem linkStat {p : Path} (hp : p.isAbsolute = true) :
    Dwindled (fun s' s => s'.kind = s.kind) (w'.linkStat p) (w.linkStat p) :=
  (h.find hp false).map fun n' n hres => by rw [n'.kind_status, n.kind_status, hres.kind_eq]

end IsLeftOf

/-! ### What an absolute path leads to is there -/

/-- Whether directories stand at a place and all the way to it. -/
def IsStanding (w : World) (place : Place) : Prop := ∀ q, q <+: place → w.isDirectory q = true

theorem isStanding_nil (w : World) : w.IsStanding [] := by
  intro q hq
  rw [List.prefix_nil.1 hq]
  rfl

theorem IsStanding.dropLast {place : Place} (h : w.IsStanding place) :
    w.IsStanding place.dropLast :=
  fun q hq => h q (hq.trans (List.dropLast_prefix place))

theorem IsStanding.isSome {place : Place} (h : w.IsStanding place) :
    (w.node? place).isSome = true := by
  have hplace := h place (List.prefix_refl place)
  unfold isDirectory at hplace
  rcases hnode : w.node? place with _ | node
  · rw [hnode] at hplace
    cases hplace
  · rfl

/-- A name leads from a standing directory to another one, or to something in it. -/
theorem IsStanding.lookUp {place : Place} (h : w.IsStanding place) (name : Bytes) :
    (∃ q, w.lookUp (.place place) name = .onward (.place q) ∧ w.IsStanding q) ∨
      w.lookUp (.place place) name = .missing place ∨
      (∃ target, w.lookUp (.place place) name = .link place target ∧
        (w.node? (place ++ [name])).isSome = true) ∨
      (w.lookUp (.place place) name = .leaf place ∧ (w.node? (place ++ [name])).isSome = true) ∨
      ∃ e, w.lookUp (.place place) name = .refused e := by
  unfold World.lookUp
  split_ifs
  · exact Or.inl ⟨place, rfl, h⟩
  · exact Or.inl ⟨place.dropLast, rfl, h.dropLast⟩
  · exact Or.inr (Or.inr (Or.inr (Or.inr ⟨_, rfl⟩)))
  · dsimp only
    rcases hnode : w.node? (place ++ [name]) with _ | node
    · exact Or.inr (Or.inl rfl)
    · cases node with
      | directory modified =>
        refine Or.inl ⟨place ++ [name], rfl, fun q hq => ?_⟩
        rcases List.prefix_concat_iff.1 hq with rfl | hq
        · rw [isDirectory, hnode]
          rfl
        · exact h q hq
      | link target => exact Or.inr (Or.inr (Or.inl ⟨target, rfl, rfl⟩))
      | file content modified => exact Or.inr (Or.inr (Or.inr (Or.inl ⟨rfl, rfl⟩)))
      | special modified => exact Or.inr (Or.inr (Or.inr (Or.inl ⟨rfl, rfl⟩)))

/-- Whether names have led to something that is there, or to a link in a standing directory; or else
not to any place. -/
def LeadsToNode (w : World) : Progress → Prop
  | .done (.found (.place q)) => (w.node? q).isSome = true
  | .link directory _ _ => w.IsStanding directory
  | _ => True

/-- Names lead from a standing directory to something that is there. -/
theorem IsStanding.advance {place : Place} (h : w.IsStanding place) (followLast : Bool)
    (names : List Bytes) : w.LeadsToNode (w.advance followLast (.place place) names) := by
  induction names generalizing place with
  | nil => exact h.isSome
  | cons name names ih =>
    rw [advance_cons]
    rcases h.lookUp name with ⟨q, hname, hq⟩ | hname | ⟨target, hname, hnode⟩ | ⟨hname, hnode⟩ |
      ⟨e, hname⟩
    · rw [hname]
      exact ih hq
    · rw [hname, proceed]
      split_ifs <;> exact trivial
    · rw [hname, proceed]
      split_ifs
      · exact hnode
      · exact h
    · rw [hname, proceed]
      split_ifs
      · exact hnode
      · exact trivial
    · rw [hname]
      exact trivial

theorem IsStanding.follow {followLast : Bool} {links : Nat} {place q : Place} {names : List Bytes}
    (h : w.IsStanding place)
    (hfollow : w.follow followLast links (.place place) names = .ok (.found (.place q))) :
    (w.node? q).isSome = true := by
  induction links generalizing place names with
  | zero =>
    have hleads := h.advance followLast names
    rw [World.follow] at hfollow
    rcases hadvance : w.advance followLast (.place place) names with r | e | ⟨d, target, rest⟩
    · rw [hadvance] at hfollow hleads
      cases hfollow
      exact hleads
    · rw [hadvance] at hfollow
      cases hfollow
    · rw [hadvance] at hfollow
      cases hfollow
  | succ links ih =>
    have hleads := h.advance followLast names
    rw [World.follow] at hfollow
    rcases hadvance : w.advance followLast (.place place) names with r | e | ⟨d, target, rest⟩
    · rw [hadvance] at hfollow hleads
      cases hfollow
      exact hleads
    · rw [hadvance] at hfollow
      cases hfollow
    · rw [hadvance] at hfollow hleads
      -- The target is looked up from the root or from the directory of the link.
      refine ih ?_ hfollow
      split_ifs
      · exact w.isStanding_nil
      · exact hleads

/-- **What an absolute path leads to is there.** -/
theorem exists_node_of_locate {followLast : Bool} {p : Path} {place : Place}
    (hp : p.isAbsolute = true) (h : w.locate followLast p = .ok (.place place)) :
    ∃ node, w.node? place = some node := by
  obtain ⟨-, -, hfollow⟩ := follow_of_locate h
  rw [if_pos hp] at hfollow
  exact Option.isSome_iff_exists.1 (w.isStanding_nil.follow hfollow)

/-! ### What is in a directory -/

theorem IsLeftOf.children_subset (h : w'.IsLeftOf w) (place : Place) :
    w'.children place ⊆ w.children place := by
  rintro ⟨n, kind⟩ hmem
  obtain ⟨node', hnode', rfl⟩ := mem_children.1 hmem
  obtain ⟨node, hnode, hres⟩ := h _ _ hnode'
  exact mem_children.2 ⟨node, hnode, hres.kind_eq.symm⟩

/-- The names that are left keep their order. -/
theorem IsLeftOf.inOrder_sublist (h : w'.IsLeftOf w) (place : Place) :
    (inOrder (w'.children place)).Sublist (inOrder (w.children place)) := by
  have hsorted : ∀ v : World,
      (inOrder (v.children place)).Pairwise fun a b => compare a.1 b.1 = .lt :=
    fun v => inOrder_sorted (v.children_distinct place)
  have hnodup : (inOrder (w'.children place)).Nodup := by
    refine (hsorted w').imp fun {a b} hab heq => ?_
    have hself : compare b.1 b.1 = .eq := Std.ReflCmp.compare_self
    rw [heq, hself] at hab
    cases hab
  have hsubset : inOrder (w'.children place) ⊆ inOrder (w.children place) := by
    intro entry hentry
    rw [inOrder, List.mem_mergeSort] at hentry ⊢
    exact h.children_subset place hentry
  have hantisymm : Std.Antisymm fun a b : Bytes × Kind => compare a.1 b.1 = .lt :=
    ⟨fun a b hab hba => absurd hba (Std.OrientedCmp.not_lt_of_lt hab)⟩
  exact List.sublist_of_subperm_of_pairwise (List.subperm_of_subset hnodup hsubset) (hsorted w')
    (hsorted w)

/-- **A directory lists what it listed**, but for what is gone, in the same order; or it is gone
itself. -/
theorem IsLeftOf.list (h : w'.IsLeftOf w) {p : Path} (hp : p.isAbsolute = true) :
    Dwindled (fun listed' listed => (inOrder listed').Sublist (inOrder listed)) (w'.list p)
      (w.list p) := by
  rcases h.locate hp true with heq | hgone
  · rcases hspot : w.locate true p with e | place | level
    · rw [World.list, World.list, heq, hspot]
      exact .refused e
    · rw [hspot] at heq
      obtain ⟨n', hnode'⟩ := exists_node_of_locate hp heq
      obtain ⟨n, hnode, hres⟩ := h _ _ hnode'
      have hkind : w'.isDirectory place = w.isDirectory place := by
        rw [isDirectory, isDirectory, hnode, hnode']
        simp [hres.kind_eq]
      rw [World.list, World.list, heq, hspot]
      dsimp only
      rw [hkind]
      split_ifs
      · exact .found (h.inOrder_sublist place)
      · exact .refused _
    · obtain ⟨place, hplace⟩ := exists_place_of_locate hp hspot
      cases hplace
  · rw [World.list, hgone]
    exact .gone

/-! ### What is reported of an entry -/

/-- **An entry is reported as before, or is gone.** -/
theorem IsLeftOf.entryCourse (h : w'.IsLeftOf w) {e : Reached} (hp : e.path.isAbsolute = true)
    (hending : (w.entryCourse e).ending = none) :
    w'.entryCourse e = .nothing ∨ ∃ r n' n seen', w.entryCourse e = .one r ∧
      w'.entryCourse e = .one { r with seen := seen' } ∧ r.path = e.path ∧
      Metadata.ofStatus n.status = .ok r.seen ∧ Metadata.ofStatus n'.status = .ok seen' ∧
      w'.find e.isFollowed e.path = .ok n' ∧ n'.Resembles n := by
  have hlook := h.find hp e.isFollowed
  unfold World.entryCourse at hending ⊢
  rw [look_eq_map] at hending
  rw [look_eq_map, look_eq_map]
  generalize hanswer' : w'.find e.isFollowed e.path = answer' at hlook ⊢
  generalize w.find e.isFollowed e.path = answer at hlook hending ⊢
  cases hlook with
  | gone => exact Or.inl rfl
  | refused cause => cases cause <;> first | exact Or.inl rfl | cases hending
  | @found n' n hres =>
    dsimp only [Except.map] at hending ⊢
    rcases hseen : Metadata.ofStatus n.status with failure | seen
    · rw [hseen] at hending
      cases hending
    obtain ⟨seen', hseen'⟩ := hres.exists_ofStatus hseen
    rw [hseen] at hending
    rw [hseen']
    rcases hrelative : RelativePath.ofPath (e.kind ≠ .directory) (.ofNames e.names)
      with err | relative
    · rw [hrelative] at hending
      cases hending
    · rw [hrelative] at hending
      dsimp only at hending ⊢
      cases hkind : e.kind with
      | directory => exact Or.inr ⟨_, n', n, seen', rfl, rfl, rfl, hseen, hseen', rfl, hres⟩
      | file => exact Or.inr ⟨_, n', n, seen', rfl, rfl, rfl, hseen, hseen', rfl, hres⟩
      | link =>
        rw [hkind] at hending
        cases hending
      | special =>
        rw [hkind] at hending
        cases hending

end World

end SnapStore
