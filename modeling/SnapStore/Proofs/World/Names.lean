import SnapStore.Proofs.Path.Names
import SnapStore.Proofs.World.Lookup
import SnapStore.World.Calls
import SnapStore.World.Change

/-!
# Names in a world

Nothing in the type of worlds keeps a node from being called `..` or from having a slash in its
name, and a walk through such a world would be astray: joining the name on to a path would not
lead to the node. No such world can come about, though. A world is **well named**
(`SnapStore.World.IsWellNamed`) if whatever stands below the root has a name in the sense of
`SnapStore.Bytes.IsName`; the empty world is, and every change keeps a world so
(`SnapStore.World.IsWellNamed.apply`).

What is listed in a directory is what stands directly below it (`SnapStore.World.mem_children`,
`SnapStore.World.cases_of_list`).
-/

namespace SnapStore.World

open Bytes (slash dot)

/-- Whatever stands in the world below the root has a name. -/
def IsWellNamed (w : World) : Prop :=
  ∀ (p : Place) (n : Bytes) (node : Node), w.node? (p ++ [n]) = some node → n.IsName

theorem isWellNamed_empty : empty.IsWellNamed := by
  intro p n node h
  rw [node?_of_ne_nil _ (by simp)] at h
  cases h

/-! ### Names that a path brings in -/

/-- A piece of a path that is looked up. -/
def IsPiece (n : Bytes) : Prop := n ≠ [] ∧ slash ∉ n

theorem isPiece_of_mem_names {p : Path} {n : Bytes} (h : n ∈ p.names) : IsPiece n := by
  have hsplit : ∀ m ∈ p.bytes.split.filter (· ≠ []), IsPiece m := by
    intro m hm
    obtain ⟨hmem, hne⟩ := List.mem_filter.1 hm
    exact ⟨by simpa using hne, Pieces.notMem_of_mem_split hmem⟩
  unfold Path.names at h
  dsimp only at h
  split_ifs at h
  · rcases List.mem_append.1 h with h | h
    · exact hsplit n h
    · rw [List.mem_singleton.1 h]
      exact ⟨by simp, by decide⟩
  · exact hsplit n h

/-- A name that is missing in the end is one that was looked up. -/
theorem isName_of_advance {w : World} {followLast : Bool} {names : List Bytes} {here : Spot}
    {directory : Place} {name : Bytes} (hnames : ∀ n ∈ names, IsPiece n)
    (h : w.advance followLast here names = .done (.absent directory name)) : name.IsName := by
  induction names generalizing here with
  | nil => cases h
  | cons n rest ih =>
    rw [advance_cons] at h
    rcases hn : w.lookUp here n with s | d | ⟨d, target⟩ | d | e
    · rw [hn] at h
      exact ih (fun m hm => hnames m (List.mem_cons_of_mem _ hm)) h
    · rw [hn, proceed] at h
      split_ifs at h
      cases h
      -- It was looked up and not found, and dots are always found.
      obtain ⟨hne, hslash⟩ := hnames name (by simp)
      exact ⟨hne, hslash, ne_dot_of_lookUp hn⟩
    · rw [hn, proceed] at h
      split_ifs at h
      cases h
    · rw [hn, proceed] at h
      split_ifs at h
      cases h
    · rw [hn] at h
      cases h

/-- What is left over at a link was to be looked up. -/
theorem rest_subset_of_advance {w : World} {followLast : Bool} {names rest : List Bytes}
    {here : Spot} {directory : Place} {target : Path}
    (h : w.advance followLast here names = .link directory target rest) : rest ⊆ names := by
  induction names generalizing here with
  | nil => cases h
  | cons n names ih =>
    rw [advance_cons] at h
    rcases hn : w.lookUp here n with s | d | ⟨d, target⟩ | d | e
    · rw [hn] at h
      exact List.subset_cons_of_subset _ (ih h)
    · rw [hn, proceed] at h
      split_ifs at h
    · rw [hn, proceed] at h
      split_ifs at h
      cases h
      exact List.subset_cons_self _ _
    · rw [hn, proceed] at h
      split_ifs at h
    · rw [hn] at h
      cases h

theorem isName_of_follow {w : World} {followLast : Bool} {links : Nat} {here : Spot}
    {names : List Bytes} {directory : Place} {name : Bytes} (hnames : ∀ n ∈ names, IsPiece n)
    (h : w.follow followLast links here names = .ok (.absent directory name)) : name.IsName := by
  induction links generalizing here names with
  | zero =>
    unfold follow at h
    rcases hadvance : w.advance followLast here names with r | e | ⟨d, target, rest⟩
    · rw [hadvance] at h
      cases h
      exact isName_of_advance hnames hadvance
    · rw [hadvance] at h
      cases h
    · rw [hadvance] at h
      cases h
  | succ links ih =>
    unfold follow at h
    rcases hadvance : w.advance followLast here names with r | e | ⟨d, target, rest⟩
    · rw [hadvance] at h
      cases h
      exact isName_of_advance hnames hadvance
    · rw [hadvance] at h
      cases h
    · rw [hadvance] at h
      -- Those of the target are pieces of a path, and the others were looked up before.
      refine ih (fun n hn => ?_) h
      rcases List.mem_append.1 hn with hn | hn
      · exact isPiece_of_mem_names hn
      · exact hnames n (rest_subset_of_advance hadvance hn)

/-- **A name that is missing where a path leads is a name.** -/
theorem isName_of_resolve {w : World} {followLast : Bool} {p : Path} {directory : Place}
    {name : Bytes} (h : w.resolve followLast p = .ok (.absent directory name)) : name.IsName := by
  unfold resolve at h
  split_ifs at h
  all_goals exact isName_of_follow (fun n hn => isPiece_of_mem_names hn) h

/-! ### Changes -/

/-- A node may stand at a place that ends in a name. -/
theorem IsWellNamed.put {w : World} (hw : w.IsWellNamed) {p : Place} (hp : p ≠ [])
    (hname : ∀ d n, p = d ++ [n] → n.IsName) (node : Node) : (w.put p node).IsWellNamed := by
  intro q n found h
  rw [node?_put w node hp] at h
  split_ifs at h with hq
  · exact hname q n hq.symm
  · exact hw q n found h

/-- A node may be added where a path leads to none. -/
theorem IsWellNamed.putAbsent {w : World} (hw : w.IsWellNamed) {followLast : Bool} {p : Path}
    {directory : Place} {name : Bytes}
    (h : w.resolve followLast p = .ok (.absent directory name)) (node : Node) :
    (w.put (directory ++ [name]) node).IsWellNamed := by
  refine hw.put (by simp) (fun d n hd => ?_) node
  obtain ⟨-, hn⟩ := List.append_inj' hd rfl
  rw [← List.singleton_inj.1 hn]
  exact isName_of_resolve h

/-- A node may be replaced. -/
theorem IsWellNamed.putPresent {w : World} (hw : w.IsWellNamed) {p : Place} {old : Node}
    (hp : p ≠ []) (hold : w.node? p = some old) (node : Node) : (w.put p node).IsWellNamed := by
  refine hw.put hp (fun d n hd => ?_) node
  rw [hd] at hold
  exact hw d n old hold

theorem IsWellNamed.clear {w : World} (hw : w.IsWellNamed) (gone : Place → Bool) :
    (w.clear gone).IsWellNamed := by
  intro p n node h
  rw [node?_clear w gone (by simp)] at h
  split_ifs at h
  exact hw p n node h

theorem IsWellNamed.create {w w' : World} (hw : w.IsWellNamed) {p : Path} {node : Node}
    (h : w.create p node = .ok w') : w'.IsWellNamed := by
  unfold World.create at h
  rcases hresolve : w.resolve false p with e | spot | ⟨directory, name⟩
  · rw [hresolve] at h
    cases h
  · rw [hresolve] at h
    cases h
  · rw [hresolve] at h
    cases h
    exact hw.putAbsent hresolve node

theorem IsWellNamed.makeOne {w w' : World} (hw : w.IsWellNamed) {p : Path}
    (h : w.makeOne p = .ok w') : w'.IsWellNamed := by
  unfold World.makeOne at h
  split_ifs at h
  exact hw.create h

theorem IsWellNamed.makeDirectories {w : World} (hw : w.IsWellNamed) (count : Nat) (p : Path) :
    (w.makeDirectories count p).world.IsWellNamed := by
  induction count generalizing p with
  | zero => exact hw
  | succ count ih =>
    unfold World.makeDirectories
    split_ifs
    · exact hw
    · split
      · rename_i w' h
        exact hw.makeOne h
      · split
        · exact hw
        · rename_i above _
          dsimp only
          split_ifs
          · split
            · rename_i w' h
              exact (ih above).makeOne h
            · exact ih above
          · exact ih above
      · exact hw

theorem IsWellNamed.writeFile {w : World} (hw : w.IsWellNamed) (p : Path) (content : Bytes)
    (modified : Timestamp) : (w.writeFile p content modified).world.IsWellNamed := by
  unfold World.writeFile
  rcases hresolve : w.resolve true p with e | ⟨place⟩ | ⟨directory, name⟩
  · exact hw
  · rcases place with place | level
    · dsimp only
      rcases hnode : w.node? place with _ | node
      · exact hw
      · cases node with
        | file old modified' =>
          refine hw.putPresent ?_ hnode _
          rintro rfl
          cases hnode
        | _ => exact hw
    · exact hw
  · exact hw.putAbsent hresolve _

theorem IsWellNamed.touchSpot {w : World} (hw : w.IsWellNamed) (spot : Spot)
    (modified : Timestamp) : (w.touchSpot spot modified).IsWellNamed := by
  rcases spot with place | level
  · change (w.touchPlace place modified).IsWellNamed
    unfold World.touchPlace
    split_ifs with hroot
    · intro p n node h
      rw [node?_of_ne_nil _ (by simp)] at h
      exact hw p n node (by rw [node?_of_ne_nil _ (by simp)]; exact h)
    · rcases hnode : w.node? place with _ | node
      · exact hw
      · exact hw.putPresent hroot hnode _
  · exact hw

theorem IsWellNamed.removeEmptied {w : World} (hw : w.IsWellNamed) (spot : Spot) (p : Path) :
    (w.removeEmptied spot p).world.IsWellNamed := by
  unfold World.removeEmptied
  rcases w.locate false (trimSlashes p) with e | place | level
  · exact hw
  · dsimp only
    split_ifs
    · exact hw.clear _
    · exact hw
  · exact hw

theorem IsWellNamed.removeSpot {w : World} (hw : w.IsWellNamed) (spot : Spot) (p : Path) :
    (w.removeSpot spot p).world.IsWellNamed := by
  have hempty : (w.emptySpot spot).IsWellNamed := by
    rcases spot with place | level
    · exact hw.clear fun q => place.isPrefixOf q && place ≠ q
    · exact hw
  unfold World.removeSpot
  split_ifs
  · exact hempty.removeEmptied spot p
  · rcases spot with place | level
    · exact hw.clear _
    · exact hw

theorem IsWellNamed.enterSpot {w : World} (hw : w.IsWellNamed) (spot : Spot) :
    (w.enterSpot spot).world.IsWellNamed := by
  rcases spot with place | level
  · unfold World.enterSpot
    dsimp only
    split_ifs
    · exact hw
    · exact hw
  · exact hw

/-- **Every change keeps a world well named.** -/
theorem IsWellNamed.apply {w : World} (hw : w.IsWellNamed) (c : Change) :
    (w.apply c).world.IsWellNamed := by
  cases c with
  | write p content modified =>
    -- Whether the directories above were made or not, the world is well named.
    have hmade : ∀ made : Outcome, made.world.IsWellNamed →
        (if made.isDone then made.world.writeFile p content modified
          else made).world.IsWellNamed := by
      intro made h
      split_ifs
      · exact h.writeFile p content modified
      · exact h
    refine hmade _ ?_
    rcases p.parent? with _ | above
    · exact hw
    · exact hw.makeDirectories _ above
  | makeDirectory p => exact hw.makeDirectories _ p
  | link target p =>
    unfold World.apply
    dsimp only
    split_ifs
    · exact hw
    · rcases hmade : w.create p (.link target) with e | w'
      · exact hw
      · exact hw.create hmade
  | pipe p =>
    unfold World.apply
    dsimp only
    rcases hmade : w.create p (.special .epoch) with e | w'
    · exact hw
    · exact hw.create hmade
  | touch p modified =>
    unfold World.apply
    dsimp only
    rcases w.locate true p with e | spot
    · exact hw
    · exact hw.touchSpot spot modified
  | remove p =>
    unfold World.apply
    dsimp only
    rcases w.locate false p with e | spot
    · exact hw
    · exact hw.removeSpot spot p
  | enter p =>
    unfold World.apply
    dsimp only
    rcases w.locate true p with e | spot
    · exact hw
    · exact hw.enterSpot spot

/-- So all worlds are that come about from nothing. -/
theorem isWellNamed_of_changes (changes : List Change) :
    (changes.foldl (fun w c => (w.apply c).world) empty).IsWellNamed := by
  have h : ∀ w : World, w.IsWellNamed →
      (changes.foldl (fun w c => (w.apply c).world) w).IsWellNamed := by
    induction changes with
    | nil => exact fun w hw => hw
    | cons c changes ih => exact fun w hw => ih _ (hw.apply c)
  exact h empty isWellNamed_empty

/-! ### Listings -/

theorem lookup_eq_some_iff {nodes : List (Place × Node)}
    (h : nodes.Pairwise fun a b => a.1 ≠ b.1) {p : Place} {node : Node} :
    nodes.lookup p = some node ↔ (p, node) ∈ nodes := by
  induction nodes with
  | nil => simp
  | cons e nodes ih =>
    obtain ⟨hhead, htail⟩ := List.pairwise_cons.1 h
    rw [List.lookup_cons, List.mem_cons]
    by_cases he : p = e.1
    · subst he
      have hnot : (e.1, node) ∉ nodes := fun hmem => hhead _ hmem rfl
      simp [hnot, Prod.ext_iff, eq_comm]
    · rw [show (p == e.1) = false by simpa using he, ih htail]
      simp [Prod.ext_iff, he]

/-- What stands at a place is what is assigned to it. -/
theorem node?_eq_some_iff (w : World) {p : Place} (hp : p ≠ []) {node : Node} :
    w.node? p = some node ↔ (p, node) ∈ w.nodes := by
  rw [node?_of_ne_nil w hp]
  exact lookup_eq_some_iff w.distinct

theorem childName?_eq_some_iff {p q : Place} {n : Bytes} :
    childName? p q = some n ↔ q = p ++ [n] := by
  unfold childName?
  rcases List.eq_nil_or_concat' q with rfl | ⟨front, last, rfl⟩
  · simp
  · simp only [List.getLast?_concat, List.dropLast_concat]
    split_ifs with hfront
    · simp [hfront]
    · simp only [false_iff]
      intro h
      exact hfront (List.append_inj' h rfl).1

/-- **What is listed in a directory** is what stands directly below it. -/
theorem mem_children {w : World} {p : Place} {n : Bytes} {kind : Kind} :
    (n, kind) ∈ w.children p ↔ ∃ node, w.node? (p ++ [n]) = some node ∧ node.kind = kind := by
  unfold children
  rw [List.mem_filterMap]
  constructor
  · rintro ⟨⟨q, node⟩, hmem, h⟩
    obtain ⟨m, hm, heq⟩ := Option.map_eq_some_iff.1 h
    cases heq
    obtain rfl := childName?_eq_some_iff.1 hm
    exact ⟨node, (w.node?_eq_some_iff (by simp)).2 hmem, rfl⟩
  · rintro ⟨node, hnode, rfl⟩
    exact ⟨(p ++ [n], node), (w.node?_eq_some_iff (by simp)).1 hnode, by
      rw [childName?_eq_some_iff.2 rfl]; rfl⟩

/-! ### What the system answers -/

/-- What the system says of a path is the state of the node that the path leads to. -/
theorem exists_find_of_stat {w : World} {p : Path} {s : Status} (h : w.stat p = .ok s) :
    ∃ node, w.find true p = .ok node ∧ s = node.status := by
  change (w.find true p).map Node.status = .ok s at h
  rcases hfind : w.find true p with e | node
  · rw [hfind] at h
    cases h
  · rw [hfind] at h
    cases h
    exact ⟨node, rfl, rfl⟩

/-- **What can be listed** is a directory that stands at a place, or one that has been removed,
which is empty. -/
theorem cases_of_list {w : World} {p : Path} {listed : List (Bytes × Kind)}
    (h : w.list p = .ok listed) :
    (∃ place, w.locate true p = .ok (.place place) ∧ w.isDirectory place = true ∧
      listed = w.children place) ∨
    ∃ level, w.locate true p = .ok (.removed level) ∧ listed = [] := by
  unfold World.list at h
  rcases hspot : w.locate true p with e | place | level
  · rw [hspot] at h
    cases h
  · rw [hspot] at h
    dsimp only at h
    split_ifs at h with hplace
    cases h
    exact Or.inl ⟨place, rfl, hplace, rfl⟩
  · rw [hspot] at h
    cases h
    exact Or.inr ⟨level, rfl, rfl⟩

end SnapStore.World
