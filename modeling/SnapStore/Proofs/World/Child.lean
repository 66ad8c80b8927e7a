import SnapStore.Proofs.World.Names

/-!
# From a directory to what stands in it

A walk joins the names that it has read in a directory on to the path by which it got there, and
hands the longer path to the system. The system looks that path up from its beginning, so nothing
of what was found on the way before can be taken for granted: the longer path may be refused for
its length, and a slash at the end of the shorter one stands for a `.` that the longer one does not
have (`SnapStore.Path.exists_names_child`).

Still it leads where it should. If the shorter path leads to a directory and the name stands there
and is no link, then the longer path leads to what stands there, or else is refused outright, but
never because something was missing (`SnapStore.World.locate_child`).
-/

namespace SnapStore

open Bytes (slash dot)

/-! ### The names of a path with one more name -/

/-- A path that ends in a slash has a `.` at its end that gives way to the name. -/
theorem Path.exists_names_child {p : Path} (hp : p.bytes ≠ []) {n : Bytes} (hn : n.IsName) :
    ∃ pieces : List Bytes, (p.child n).names = pieces ++ [n] ∧
      (p.names = pieces ∨ p.names = pieces ++ [[dot]]) := by
  obtain ⟨b⟩ := p
  obtain ⟨hne, hslash, -⟩ := hn
  have hsplit : n.split = [n] := Pieces.split_of_notMem hslash
  have hlast : ∀ front : Bytes, (front ++ n).getLast? ≠ some slash := by
    intro front hfront
    rw [List.getLast?_append_of_ne_nil _ hne] at hfront
    exact hslash (List.mem_of_getLast? hfront)
  have happend : ∀ front : Bytes,
      (⟨front ++ slash :: n⟩ : Path).names = front.split.filter (· ≠ []) ++ [n] := by
    intro front
    have hend : (front ++ slash :: n).getLast? ≠ some slash := by
      simpa using hlast (front ++ [slash])
    unfold names
    rw [if_neg hend]
    change (Pieces.split slash (front ++ slash :: n)).filter _ = _
    rw [Pieces.split_append, List.filter_append]
    change _ ++ n.split.filter _ = _
    rw [hsplit, List.filter_cons_of_pos (by simpa using hne)]
    rfl
  refine ⟨b.split.filter (· ≠ []), ?_, ?_⟩
  · unfold child
    rcases hb : b.getLast? with _ | x
    · exact absurd (List.getLast?_eq_none_iff.1 hb) hp
    · dsimp only
      split_ifs with hx
      · -- The slash at the end is the one before the name, and the `.` is gone.
        obtain ⟨front, rfl⟩ := List.getLast?_eq_some_iff.1 (hx ▸ hb)
        have hfront : Bytes.split (front ++ [slash]) = Bytes.split front ++ [[]] :=
          Pieces.split_append slash front []
        rw [List.append_assoc, List.singleton_append, happend, hfront, List.filter_append]
        simp
      · exact happend b
  · unfold names
    split_ifs
    · exact Or.inr rfl
    · exact Or.inl rfl

theorem Path.length_lt_length_child (p : Path) {n : Bytes} (hn : n ≠ []) :
    p.bytes.length < (p.child n).bytes.length := by
  have hpos : 0 < n.length := List.length_pos_iff.2 hn
  unfold child
  rcases hb : p.bytes.getLast? with _ | x
  · rw [List.getLast?_eq_none_iff.1 hb]
    exact hpos
  · dsimp only
    split_ifs
    · rw [List.length_append]
      omega
    · rw [List.length_append, List.length_cons]
      omega

theorem Path.length_lt_length_below (p : Path) {ns : List Bytes} (hne : ns ≠ [])
    (hns : ∀ n ∈ ns, n ≠ []) : p.bytes.length < (p.below ns).bytes.length := by
  induction ns generalizing p with
  | nil => exact absurd rfl hne
  | cons n ns ih =>
    have hchild := p.length_lt_length_child (hns n (by simp))
    by_cases hlast : ns = []
    · rw [hlast]
      exact hchild
    · exact Nat.lt_trans hchild (ih _ hlast fun m hm => hns m (List.mem_cons_of_mem _ hm))

/-- The bytes of a longer path are those of the shorter one, those of the name and a slash. -/
theorem Path.mem_bytes_child {p : Path} {n : Bytes} {b : UInt8} (h : b ∈ (p.child n).bytes) :
    b ∈ p.bytes ∨ b = slash ∨ b ∈ n := by
  unfold child at h
  rcases hlast : p.bytes.getLast? with _ | x
  · rw [hlast] at h
    exact Or.inr (Or.inr h)
  · rw [hlast] at h
    dsimp only at h
    split_ifs at h
    · exact (List.mem_append.1 h).imp_right Or.inr
    · exact (List.mem_append.1 h).imp_right List.mem_cons.1

theorem Path.mem_bytes_below {p : Path} {ns : List Bytes} {b : UInt8} (h : b ∈ (p.below ns).bytes) :
    b ∈ p.bytes ∨ b = slash ∨ ∃ n ∈ ns, b ∈ n := by
  induction ns generalizing p with
  | nil => exact Or.inl h
  | cons n ns ih =>
    rcases ih h with h | h | ⟨m, hm, h⟩
    · rcases mem_bytes_child h with h | h | h
      · exact Or.inl h
      · exact Or.inr (Or.inl h)
      · exact Or.inr (Or.inr ⟨n, List.mem_cons_self, h⟩)
    · exact Or.inr (Or.inl h)
    · exact Or.inr (Or.inr ⟨m, List.mem_cons_of_mem _ hm, h⟩)

namespace World

variable {w : World}

/-! ### A `.` on the way -/

/-- A `.` makes no difference where names follow it, other than being left over at a link. -/
theorem advance_append_dot (followLast : Bool) (here : Spot) (names : List Bytes)
    {tail : List Bytes} (htail : tail ≠ []) :
    w.advance followLast here (names ++ [dot] :: tail) = w.advance followLast here (names ++ tail) ∨
      ∃ directory target rest,
        w.advance followLast here (names ++ [dot] :: tail)
          = .link directory target (rest ++ [dot] :: tail) ∧
        w.advance followLast here (names ++ tail) = .link directory target (rest ++ tail) := by
  induction names generalizing here with
  | nil =>
    left
    rw [List.nil_append, advance_cons]
    rfl
  | cons name names ih =>
    rw [List.cons_append, List.cons_append, advance_cons, advance_cons]
    rcases w.lookUp here name with s | d | ⟨d, target⟩ | d | e
    · exact ih s
    · left
      simp [proceed, htail]
    · right
      exact ⟨d, target, names, by simp [proceed], by simp [proceed, htail]⟩
    · left
      simp [proceed, htail]
    · exact Or.inl rfl

theorem follow_append_dot (followLast : Bool) (links : Nat) (here : Spot) (names : List Bytes)
    {tail : List Bytes} (htail : tail ≠ []) :
    w.follow followLast links here (names ++ [dot] :: tail)
      = w.follow followLast links here (names ++ tail) := by
  induction links generalizing here names with
  | zero =>
    rw [follow, follow]
    rcases advance_append_dot (w := w) followLast here names htail with h | ⟨d, target, rest, h, h'⟩
    · rw [h]
    · rw [h, h']
  | succ links ih =>
    rcases advance_append_dot (w := w) followLast here names htail with h | ⟨d, target, rest, h, h'⟩
    · rw [follow, follow, h]
    · rw [follow_of_link h, follow_of_link h', ← List.append_assoc, ← List.append_assoc]
      exact ih _ _

/-! ### One name further -/

/-- A path that leads somewhere is one that can be looked up. -/
theorem follow_of_locate {followLast : Bool} {p : Path} {spot : Spot}
    (h : w.locate followLast p = .ok spot) :
    p.bytes ≠ [] ∧ p.bytes.length < maxPath ∧
      w.follow followLast maxLinks (if p.isAbsolute then .place [] else w.home.spot) p.names
        = .ok (.found spot) := by
  unfold locate at h
  rcases hr : w.resolve followLast p with e | s | ⟨d, n⟩
  · rw [hr] at h
    cases h
  · rw [hr] at h
    cases h
    unfold resolve at hr
    split_ifs at hr with hzero hempty hlong habs
    · exact ⟨hempty, by omega, by rw [if_pos habs]; exact hr⟩
    · exact ⟨hempty, by omega, by rw [if_neg habs]; exact hr⟩
  · rw [hr] at h
    cases h

theorem zero_notMem_of_locate {followLast : Bool} {p : Path} {spot : Spot}
    (h : w.locate followLast p = .ok spot) : (0 : UInt8) ∉ p.bytes := by
  intro hzero
  rw [locate, resolve, if_pos hzero] at h
  cases h

/-- Whether a path leads to a place, if it leads anywhere. Only a relative path need not. -/
def LeadsToPlace (w : World) (p : Path) : Prop :=
  ∀ spot, w.locate true p = .ok spot → ∃ place, spot = .place place

theorem exists_place_of_locate {followLast : Bool} {p : Path} (hp : p.isAbsolute = true)
    {spot : Spot} (h : w.locate followLast p = .ok spot) : ∃ place, spot = .place place := by
  unfold locate at h
  rcases hr : w.resolve followLast p with e | s | ⟨d, n⟩
  · rw [hr] at h
    cases h
  · rw [hr] at h
    cases h
    exact exists_place_of_resolve hp hr
  · rw [hr] at h
    cases h

theorem leadsToPlace_of_isAbsolute {p : Path} (hp : p.isAbsolute = true) : w.LeadsToPlace p :=
  fun _ h => exists_place_of_locate hp h

/-- A path is looked up with one more name from where it leads, if the longer path is one that can
be looked up. -/
theorem resolve_child_of_fits {p : Path} {spot : Spot} (hp : w.locate true p = .ok spot)
    (hspot : w.isDirectoryAt spot = true) {n : Bytes} (hn : n.IsName)
    (hzero : (0 : UInt8) ∉ (p.child n).bytes) (hshort : (p.child n).bytes.length < maxPath) :
    ∃ left, ∀ followLast, w.resolve followLast (p.child n) = w.follow followLast left spot [n] := by
  obtain ⟨hempty, -, hfollow⟩ := follow_of_locate hp
  obtain ⟨pieces, hchild, hnames⟩ := Path.exists_names_child hempty hn
  obtain ⟨left, -, hleft⟩ := follow_append hfollow hspot (List.cons_ne_nil n [])
  refine ⟨left, fun followLast => ?_⟩
  -- The longer path is not empty, and it begins where the shorter one does.
  rw [resolve, if_neg hzero, if_neg (Path.bytes_child_ne_nil p hn), if_neg (by omega),
    Path.isAbsolute_child hempty, hchild, ← hleft followLast]
  rcases hnames with hnames | hnames
  · rw [hnames]
  · -- The shorter path ends in a `.` that the longer one does not have.
    rw [hnames, List.append_assoc]
    exact (follow_append_dot followLast _ _ _ (List.cons_ne_nil n [])).symm

/-- Else it is refused for what it is. -/
theorem resolve_child {p : Path} {spot : Spot} (hp : w.locate true p = .ok spot)
    (hspot : w.isDirectoryAt spot = true) {n : Bytes} (hn : n.IsName) :
    (∃ e, e ≠ .notFound ∧ ∀ followLast, w.resolve followLast (p.child n) = .error e) ∨
      ∃ left, ∀ followLast,
        w.resolve followLast (p.child n) = w.follow followLast left spot [n] := by
  by_cases hzero : (0 : UInt8) ∈ (p.child n).bytes
  · exact Or.inl ⟨.zeroByte, nofun, fun followLast => by rw [resolve, if_pos hzero]⟩
  · by_cases hlong : maxPath ≤ (p.child n).bytes.length
    · refine Or.inl ⟨.nameTooLong, nofun, fun followLast => ?_⟩
      rw [resolve, if_neg hzero, if_neg (Path.bytes_child_ne_nil p hn), if_pos hlong]
    · exact Or.inr (resolve_child_of_fits hp hspot hn hzero (by omega))

/-- From a place a name leads to a place. -/
theorem leadsToPlace_child {p : Path} {place : Place} (hp : w.locate true p = .ok (.place place))
    (hplace : w.isDirectory place = true) {n : Bytes} (hn : n.IsName) :
    w.LeadsToPlace (p.child n) := by
  intro spot h
  rcases resolve_child hp hplace hn with ⟨e, -, hresolve⟩ | ⟨left, hresolve⟩
  · rw [locate, hresolve] at h
    cases h
  · rw [locate, hresolve] at h
    rcases hfollow : w.follow true left (.place place) [n] with e | s | ⟨d, m⟩
    · rw [hfollow] at h
      cases h
    · rw [hfollow] at h
      cases h
      exact exists_place_of_follow hfollow
    · rw [hfollow] at h
      cases h

/-- A name leads to what stands there, unless it is too long. -/
theorem locate_child_of_resolve {p : Path} {place : Place} {n : Bytes} (hn : n.IsName)
    (hshort : n.length ≤ maxName) {node : Node} (hnode : w.node? (place ++ [n]) = some node)
    (hlink : node.kind ≠ .link) {left : Nat}
    (h : ∀ followLast,
      w.resolve followLast (p.child n) = w.follow followLast left (.place place) [n])
    (followLast : Bool) : w.locate followLast (p.child n) = .ok (.place (place ++ [n])) := by
  obtain ⟨-, -, hdot, hdotdot⟩ := hn
  rw [locate, h followLast, follow, advance_cons]
  rcases lookUp_of_node hdot hdotdot (by omega) hnode hlink with hlookUp | hlookUp
  · rw [hlookUp]
    rfl
  · rw [hlookUp]
    rfl

/-- **Joining a name on leads to what stands there**, unless the longer path is refused. -/
theorem locate_child {p : Path} {place : Place} (hp : w.locate true p = .ok (.place place))
    (hplace : w.isDirectory place = true) {n : Bytes} (hn : n.IsName) {node : Node}
    (hnode : w.node? (place ++ [n]) = some node) (hlink : node.kind ≠ .link) :
    (∃ e, e ≠ .notFound ∧ ∀ followLast, w.locate followLast (p.child n) = .error e) ∨
      ∀ followLast, w.locate followLast (p.child n) = .ok (.place (place ++ [n])) := by
  -- What can still happen is that the name itself is too long.
  rcases resolve_child hp hplace hn with ⟨e, he, h⟩ | ⟨left, h⟩
  · refine Or.inl ⟨e, he, fun followLast => ?_⟩
    rw [locate, h followLast]
  · by_cases hlong : maxName < n.length
    · refine Or.inl ⟨.nameTooLong, nofun, fun followLast => ?_⟩
      have hlookUp : w.lookUp (.place place) n = .refused .nameTooLong := by
        rw [lookUp, if_neg hn.2.2.1, if_neg hn.2.2.2]
        exact if_pos hlong
      rw [locate, h followLast, follow, advance_cons, hlookUp]
      rfl
    · exact Or.inr (locate_child_of_resolve hn (by omega) hnode hlink h)

/-- It leads there if nothing is too long. -/
theorem locate_child_of_fits {p : Path} {place : Place} (hp : w.locate true p = .ok (.place place))
    (hplace : w.isDirectory place = true) {n : Bytes} (hn : n.IsName) {node : Node}
    (hnode : w.node? (place ++ [n]) = some node) (hlink : node.kind ≠ .link)
    (hzero : (0 : UInt8) ∉ (p.child n).bytes) (hshort : (p.child n).bytes.length < maxPath)
    (hname : n.length ≤ maxName) (followLast : Bool) :
    w.locate followLast (p.child n) = .ok (.place (place ++ [n])) := by
  obtain ⟨left, h⟩ := resolve_child_of_fits hp hplace hn hzero hshort
  exact locate_child_of_resolve hn hname hnode hlink h followLast

/-! ### Two paths to one place -/

/-- It does not matter how many links can be followed, as long as they are enough. -/
theorem follow_eq_or (followLast : Bool) (links links' : Nat) (here : Spot) (names : List Bytes) :
    w.follow followLast links here names = w.follow followLast links' here names ∨
      w.follow followLast links here names = .error .tooManyLinks ∨
      w.follow followLast links' here names = .error .tooManyLinks := by
  induction links generalizing links' here names with
  | zero =>
    rcases hadvance : w.advance followLast here names with r | e | ⟨directory, target, rest⟩
    · exact Or.inl (by rw [follow, follow, hadvance])
    · exact Or.inl (by rw [follow, follow, hadvance])
    · exact Or.inr (Or.inl (by rw [follow, hadvance]))
  | succ links ih =>
    rcases hadvance : w.advance followLast here names with r | e | ⟨directory, target, rest⟩
    · exact Or.inl (by rw [follow, follow, hadvance])
    · exact Or.inl (by rw [follow, follow, hadvance])
    · cases links' with
      | zero =>
        right
        right
        rw [follow, hadvance]
      | succ links' =>
        rw [follow_of_link hadvance, follow_of_link hadvance]
        exact ih links' _ _

/-- **From one place a name leads to one place**, by whatever path, unless one of the paths is
refused. -/
theorem locate_child_eq_or {p q : Path} {spot : Spot} (hp : w.locate true p = .ok spot)
    (hq : w.locate true q = .ok spot) (hspot : w.isDirectoryAt spot = true) {n : Bytes}
    (hn : n.IsName) :
    w.locate true (p.child n) = w.locate true (q.child n) ∨
      (∃ e, e ≠ .notFound ∧ w.locate true (p.child n) = .error e) ∨
      ∃ e, e ≠ .notFound ∧ w.locate true (q.child n) = .error e := by
  rcases resolve_child hp hspot hn with ⟨e, he, hresolve⟩ | ⟨left, hresolve⟩
  · exact Or.inr (Or.inl ⟨e, he, by rw [locate, hresolve]⟩)
  · rcases resolve_child hq hspot hn with ⟨e, he, hresolve'⟩ | ⟨left', hresolve'⟩
    · exact Or.inr (Or.inr ⟨e, he, by rw [locate, hresolve']⟩)
    · rw [locate, locate, hresolve, hresolve']
      -- The paths have used up different numbers of links on the way to the spot.
      rcases follow_eq_or (w := w) true left left' spot [n] with h | h | h
      · exact Or.inl (by rw [h])
      · exact Or.inr (Or.inl ⟨.tooManyLinks, nofun, by rw [h]⟩)
      · exact Or.inr (Or.inr ⟨.tooManyLinks, nofun, by rw [h]⟩)

/-! ### A link at the end -/

theorem node_of_link {here : Spot} {name : Bytes} {directory : Place} {target : Path}
    (h : w.lookUp here name = .link directory target) :
    w.node? (directory ++ [name]) = some (.link target) := by
  cases here with
  | removed level =>
    unfold lookUp at h
    split_ifs at h
  | place here =>
    unfold lookUp at h
    split_ifs at h
    dsimp only at h
    rcases hnode : w.node? (here ++ [name]) with _ | node
    · rw [hnode] at h
      cases h
    · rw [hnode] at h
      cases node with
      | link target' =>
        cases h
        exact hnode
      | _ => cases h

/-- Only at a link does it matter whether the link at the end is followed. -/
theorem advance_false (w : World) (here : Spot) (names : List Bytes) :
    w.advance false here names = w.advance true here names ∨
      ∃ p target, w.node? p = some (.link target) ∧
        w.advance false here names = .done (.found (.place p)) := by
  induction names generalizing here with
  | nil => exact Or.inl rfl
  | cons name names ih =>
    rw [advance_cons, advance_cons]
    rcases hname : w.lookUp here name with s | d | ⟨d, target⟩ | d | e
    · exact ih s
    · exact Or.inl rfl
    · by_cases hlast : names = []
      · refine Or.inr ⟨d ++ [name], target, node_of_link hname, ?_⟩
        simp [proceed, hlast]
      · left
        simp [proceed, hlast]
    · exact Or.inl rfl
    · exact Or.inl rfl

theorem follow_false (links : Nat) (here : Spot) (names : List Bytes) :
    w.follow false links here names = w.follow true links here names ∨
      ∃ p target, w.node? p = some (.link target) ∧
        w.follow false links here names = .ok (.found (.place p)) := by
  induction links generalizing here names with
  | zero =>
    rcases advance_false w here names with hadvance | ⟨p, target, hnode, hadvance⟩
    · exact Or.inl (by rw [follow, follow, hadvance])
    · exact Or.inr ⟨p, target, hnode, by rw [follow, hadvance]⟩
  | succ links ih =>
    rcases advance_false w here names with hadvance | ⟨p, target, hnode, hadvance⟩
    · rcases hr : w.advance true here names with r | e | ⟨directory, target, rest⟩
      · exact Or.inl (by rw [follow, follow, hadvance, hr])
      · exact Or.inl (by rw [follow, follow, hadvance, hr])
      · rw [follow_of_link (hadvance.trans hr), follow_of_link hr]
        exact ih _ _
    · exact Or.inr ⟨p, target, hnode, by rw [follow, hadvance]⟩

/-- What is found without following a link at the end is found in the same way if it is no link. -/
theorem follow_true {links : Nat} {here spot : Spot} {names : List Bytes}
    (h : w.follow false links here names = .ok (.found spot))
    (hspot : ∀ p target, spot = .place p → w.node? p ≠ some (.link target)) :
    w.follow true links here names = .ok (.found spot) := by
  induction links generalizing here names with
  | zero =>
    rw [follow] at h ⊢
    rcases advance_false w here names with hadvance | ⟨p, target, hnode, hadvance⟩
    · rw [← hadvance]
      exact h
    · rw [hadvance] at h
      cases h
      exact absurd hnode (hspot p target rfl)
  | succ links ih =>
    rw [follow] at h ⊢
    rcases advance_false w here names with hadvance | ⟨p, target, hnode, hadvance⟩
    · rw [← hadvance]
      rcases hr : w.advance false here names with r | e | ⟨directory, target, rest⟩
      · rw [hr] at h
        exact h
      · rw [hr] at h
        cases h
      · rw [hr] at h
        exact ih h
    · rw [hadvance] at h
      cases h
      exact absurd hnode (hspot p target rfl)

theorem find_true {p : Path} {node : Node} (h : w.find false p = .ok node)
    (hkind : node.kind ≠ .link) : w.find true p = .ok node := by
  rcases hlocate : w.locate false p with e | spot
  · rw [find, hlocate] at h
    cases h
  · obtain ⟨hempty, hshort, hfollow⟩ := follow_of_locate hlocate
    have hzero := zero_notMem_of_locate hlocate
    rw [find, hlocate] at h
    have hspot : ∀ q target, spot = .place q → w.node? q ≠ some (.link target) := by
      rintro q target rfl hnode
      dsimp only [nodeAt?] at h
      rw [hnode] at h
      cases h
      exact hkind rfl
    have hlocate' : w.locate true p = .ok spot := by
      rw [locate, resolve, if_neg hzero, if_neg hempty, if_neg (by omega),
        follow_true hfollow hspot]
    rw [find, hlocate']
    exact h

/-- **What a path leads to is a link that leads there**, or is the same if no link at the end is
followed, whether or not the path leads anywhere. -/
theorem find_false_eq_or (w : World) (p : Path) :
    w.find false p = w.find true p ∨ ∃ target, w.find false p = .ok (.link target) := by
  have hresolve : w.resolve false p = w.resolve true p ∨
      ∃ q target, w.node? q = some (.link target) ∧
        w.resolve false p = .ok (.found (.place q)) := by
    unfold resolve
    split_ifs
    · exact Or.inl rfl
    · exact Or.inl rfl
    · exact Or.inl rfl
    · exact follow_false _ _ _
    · exact follow_false _ _ _
  rcases hresolve with hsame | ⟨q, target, hnode, hfalse⟩
  · exact Or.inl (by rw [find, find, locate, locate, hsame])
  · refine Or.inr ⟨target, ?_⟩
    rw [find, locate, hfalse]
    dsimp only [nodeAt?]
    rw [hnode]

theorem find_false {p : Path} {node : Node} (h : w.find true p = .ok node) :
    w.find false p = .ok node ∨ ∃ target, w.find false p = .ok (.link target) :=
  h ▸ w.find_false_eq_or p

end World

end SnapStore
