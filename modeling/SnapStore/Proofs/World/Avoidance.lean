import SnapStore.Proofs.World.Child
import SnapStore.World.Calls

/-!
# Paths that avoid a place

Where a path leads depends on what is come by on the way: the places that are looked up, name by
name and link by link. A path **avoids** a place (`SnapStore.World.Avoids`) if neither that place
nor anything below it is among them. Then what stands there makes no difference to the path. In a
world that is otherwise the same (`SnapStore.World.AgreesOff`) it leads to the same, and that is
what the system says of it (`SnapStore.World.Avoids.find_eq`, `SnapStore.World.Avoids.locate_eq`).

Whether a path avoids a place is settled by the world that it is resolved in, and can be computed.
`SnapStore.World.Avoids.child` says how it goes on: if a path avoids a place and so does what it
leads to under one more name, then the path with that name avoids the place, provided that the links
elsewhere do (`SnapStore.World.LinksAvoid`).
-/

namespace SnapStore

open Bytes (slash dot)

/-! ### Off a place -/

/-- Whether a spot is neither a place nor below it. -/
def Spot.isOff (r : Place) : Spot → Bool
  | .place p => !r.isPrefixOf p
  | .removed _ => true

theorem Spot.isOff_place {r p : Place} : (Spot.place p).isOff r = true ↔ ¬ r <+: p := by
  rw [isOff, ← List.isPrefixOf_iff_prefix, Bool.not_eq_true', Bool.not_eq_true]

theorem Spot.isOff_root {r : Place} (hr : r ≠ []) : (Spot.place []).isOff r = true := by
  simpa [isOff_place] using hr

/-- What is off a place after one more name was off it before. -/
theorem Spot.isOff_of_append {r p : Place} {name : Bytes}
    (h : (Spot.place (p ++ [name])).isOff r = true) : (Spot.place p).isOff r = true :=
  isOff_place.2 fun hr => isOff_place.1 h (hr.trans (List.prefix_append p [name]))

namespace World

/-- Whether what one name leads to is off a place. -/
def Lookup.isOff (r : Place) (name : Bytes) : Lookup → Bool
  | .onward spot => spot.isOff r
  | .missing directory => (Spot.place (directory ++ [name])).isOff r
  | .link directory _ => (Spot.place (directory ++ [name])).isOff r
  | .leaf directory => (Spot.place (directory ++ [name])).isOff r
  | .refused _ => true

/-- Whether names lead on without coming by a place, up to the first link. -/
def avoidsUpTo (w : World) (r : Place) : Spot → List Bytes → Bool
  | _, [] => true
  | here, name :: rest =>
    (w.lookUp here name).isOff r name &&
      match w.lookUp here name with
      | .onward spot => w.avoidsUpTo r spot rest
      | _ => true

/-- Whether names lead on without coming by a place, with at most so many links followed. -/
def avoidsFrom (w : World) (r : Place) : Nat → Spot → List Bytes → Bool
  | links, here, names =>
    w.avoidsUpTo r here names &&
      match w.advance true here names with
      | .link directory target rest =>
        match links with
        | 0 => true
        | links + 1 =>
          w.avoidsFrom r links (.place (if target.isAbsolute then [] else directory))
            (target.names ++ rest)
      | _ => true

/-- **A path that does not come by a place**, nor by anything below it. -/
structure Avoids (w : World) (r : Place) (p : Path) : Prop where
  /-- The path does not begin there. -/
  start : (if p.isAbsolute then .place [] else w.home.spot : Spot).isOff r = true
  /-- None of its names leads there. -/
  names : w.avoidsFrom r maxLinks (if p.isAbsolute then .place [] else w.home.spot) p.names = true

/-- **No link elsewhere leads to a place or through it.** -/
def LinksAvoid (w : World) (r : Place) : Prop :=
  ∀ (directory : Place) (name : Bytes) (target : Path),
    w.node? (directory ++ [name]) = some (.link target) → ¬ r <+: directory ++ [name] →
    w.avoidsFrom r maxLinks (.place (if target.isAbsolute then [] else directory))
      target.names = true

/-- **Worlds that are the same but for what stands at a place and below it.** -/
structure AgreesOff (w : World) (r : Place) (w' : World) : Prop where
  /-- The current directory is the same. -/
  home : w'.home = w.home
  /-- What stands elsewhere is the same. -/
  node? : ∀ q, ¬ r <+: q → w'.node? q = w.node? q

theorem agreesOff_refl (w : World) (r : Place) : w.AgreesOff r w := ⟨rfl, fun _ _ => rfl⟩

theorem agreesOff_put (w : World) {r : Place} (hr : r ≠ []) (node : Node) :
    w.AgreesOff r (w.put r node) where
  home := rfl
  node? q hq := by
    rw [node?_put w node hr, if_neg]
    rintro rfl
    exact hq (List.prefix_refl q)

/-- It is enough to look at the links that there are. -/
theorem linksAvoid_of_nodes {w : World} {r : Place}
    (h : w.nodes.all (fun e => r.isPrefixOf e.1 ||
      match e.2 with
      | .link target => w.avoidsFrom r maxLinks
          (.place (if target.isAbsolute then [] else e.1.dropLast)) target.names
      | _ => true) = true) : w.LinksAvoid r := by
  intro directory name target hnode hoff
  have hmem := (w.node?_eq_some_iff (List.concat_ne_nil name directory)).1 hnode
  have hlink := List.all_eq_true.1 h _ hmem
  rw [Bool.or_eq_true, List.isPrefixOf_iff_prefix] at hlink
  have havoids := hlink.resolve_left hoff
  rwa [List.dropLast_concat] at havoids

variable {w w' : World} {r : Place}

/-! ### Links -/

theorem avoidsFrom_of_link {here : Spot} {names rest : List Bytes} {directory : Place}
    {target : Path} (h : w.advance true here names = .link directory target rest) (links : Nat) :
    w.avoidsFrom r (links + 1) here names =
      (w.avoidsUpTo r here names &&
        w.avoidsFrom r links (.place (if target.isAbsolute then [] else directory))
          (target.names ++ rest)) := by
  rw [avoidsFrom, h]

/-- What is avoided up to the first link is all there is without links to follow. -/
theorem avoidsUpTo_of_avoidsFrom {links : Nat} {here : Spot} {names : List Bytes}
    (h : w.avoidsFrom r links here names = true) : w.avoidsUpTo r here names = true := by
  rw [avoidsFrom] at h
  exact (Bool.and_eq_true_iff.1 h).1

theorem avoidsFrom_of_le {links links' : Nat} (hle : links' ≤ links) {here : Spot}
    {names : List Bytes} (h : w.avoidsFrom r links here names = true) :
    w.avoidsFrom r links' here names = true := by
  induction links' generalizing links here names with
  | zero =>
    rw [avoidsFrom, avoidsUpTo_of_avoidsFrom h]
    split <;> rfl
  | succ links' ih =>
    obtain ⟨links, rfl⟩ := Nat.exists_eq_add_of_le' (Nat.lt_of_lt_of_le links'.succ_pos hle)
    rcases hadvance : w.advance true here names with done | e | ⟨directory, target, rest⟩
    · rw [avoidsFrom, avoidsUpTo_of_avoidsFrom h, hadvance]
      rfl
    · rw [avoidsFrom, avoidsUpTo_of_avoidsFrom h, hadvance]
      rfl
    · rw [avoidsFrom_of_link hadvance, Bool.and_eq_true_iff] at h ⊢
      exact ⟨h.1, ih (by omega) h.2⟩

/-! ### What stands at a place makes no difference to a path that avoids it -/

section Agrees

variable (h : w.AgreesOff r w')

include h

theorem AgreesOff.above_eq (spot : Spot) : w'.above spot = w.above spot := by
  cases spot with
  | place p => rfl
  | removed level => exact congrArg (fun home => home.ancestor (level + 1)) h.home

/-- One name leads to the same if what it leads to is off the place. -/
theorem AgreesOff.lookUp_eq {here : Spot} {name : Bytes}
    (hoff : (w.lookUp here name).isOff r name = true) :
    w'.lookUp here name = w.lookUp here name := by
  unfold lookUp at hoff ⊢
  rw [h.above_eq]
  cases here with
  | removed level => rfl
  | place directory =>
    dsimp only at hoff ⊢
    split_ifs at hoff ⊢
    · rfl
    · rfl
    · rfl
    · have hplace : (Spot.place (directory ++ [name])).isOff r = true := by
        rcases hnode : w.node? (directory ++ [name]) with _ | node
        · rw [hnode] at hoff
          exact hoff
        · rw [hnode] at hoff
          cases node <;> exact hoff
      rw [h.node? _ (Spot.isOff_place.1 hplace)]

/-- How far names have led, off a place. -/
def Progress.IsOff (r : Place) : Progress → Prop
  | .done (.found spot) => spot.isOff r = true
  | .done (.absent directory _) => (Spot.place directory).isOff r = true
  | .refused _ => True
  | .link directory _ _ => (Spot.place directory).isOff r = true

omit h in
/-- Where the names end that have avoided a place is off it. -/
theorem isOff_proceed {followLast : Bool} {name : Bytes} {rest : List Bytes} {l : Lookup}
    (hoff : l.isOff r name = true) (hl : ∀ spot, l ≠ .onward spot) :
    Progress.IsOff r (w.proceed followLast name rest l) := by
  cases l with
  | onward spot => exact absurd rfl (hl spot)
  | missing directory =>
    simp only [proceed]
    split_ifs
    · exact Spot.isOff_of_append hoff
    · exact trivial
  | link directory target =>
    simp only [proceed]
    split_ifs
    · exact hoff
    · exact Spot.isOff_of_append hoff
  | leaf directory =>
    simp only [proceed]
    split_ifs
    · exact hoff
    · exact trivial
  | refused e => exact trivial

/-- **Names that avoid a place lead to the same** up to the first link, and off the place. -/
theorem AgreesOff.advance_eq {here : Spot} {names : List Bytes} (hhere : here.isOff r = true)
    (havoids : w.avoidsUpTo r here names = true) (followLast : Bool) :
    w'.advance followLast here names = w.advance followLast here names ∧
      Progress.IsOff r (w.advance followLast here names) := by
  induction names generalizing here with
  | nil => exact ⟨rfl, hhere⟩
  | cons name rest ih =>
    rw [avoidsUpTo, Bool.and_eq_true_iff] at havoids
    obtain ⟨hoff, hrest⟩ := havoids
    rw [advance_cons, advance_cons, h.lookUp_eq hoff]
    rcases hname : w.lookUp here name with spot | directory | ⟨directory, target⟩ | directory | e
    all_goals rw [hname] at hoff hrest
    · exact ih hoff hrest
    all_goals exact ⟨rfl, isOff_proceed hoff nofun⟩

/-- **So they do when links are followed.** -/
theorem AgreesOff.follow_eq (hr : r ≠ []) (followLast : Bool) {links : Nat} {here : Spot}
    {names : List Bytes} (hhere : here.isOff r = true)
    (havoids : w.avoidsFrom r links here names = true) :
    w'.follow followLast links here names = w.follow followLast links here names ∧
      ∀ spot, w.follow followLast links here names = .ok (.found spot) → spot.isOff r = true := by
  induction links generalizing here names with
  | zero =>
    obtain ⟨heq, hoff⟩ := h.advance_eq hhere (avoidsUpTo_of_avoidsFrom havoids) followLast
    rw [follow, follow, heq]
    rcases hadvance : w.advance followLast here names with done | e | ⟨directory, target, rest⟩
    all_goals rw [hadvance] at hoff
    · refine ⟨rfl, ?_⟩
      rintro spot ⟨⟩
      exact hoff
    · exact ⟨rfl, by rintro _ ⟨⟩⟩
    · exact ⟨rfl, by rintro _ ⟨⟩⟩
  | succ links ih =>
    obtain ⟨heq, hoff⟩ := h.advance_eq hhere (avoidsUpTo_of_avoidsFrom havoids) followLast
    rcases hadvance : w.advance followLast here names with done | e | ⟨directory, target, rest⟩
    all_goals rw [hadvance] at heq hoff
    · rw [follow, follow, heq, hadvance]
      refine ⟨rfl, ?_⟩
      rintro spot ⟨⟩
      exact hoff
    · rw [follow, follow, heq, hadvance]
      exact ⟨rfl, by rintro _ ⟨⟩⟩
    · -- A link that has to be followed is followed in any case.
      have htrue : w.advance true here names = .link directory target rest := by
        cases followLast with
        | true => exact hadvance
        | false =>
          rcases advance_false w here names with hsame | ⟨p, target', -, hdone⟩
          · exact hsame.symm.trans hadvance
          · rw [hdone] at hadvance
            cases hadvance
      rw [avoidsFrom_of_link htrue, Bool.and_eq_true_iff] at havoids
      rw [follow_of_link heq, follow_of_link hadvance]
      refine ih ?_ havoids.2
      split_ifs
      · exact Spot.isOff_root hr
      · exact hoff

/-- The same is at a spot that is off the place. -/
theorem AgreesOff.nodeAt?_eq {spot : Spot} (hspot : spot.isOff r = true) :
    w'.nodeAt? spot = w.nodeAt? spot := by
  cases spot with
  | place p => exact h.node? p (Spot.isOff_place.1 hspot)
  | removed level =>
    rw [nodeAt?, nodeAt?, h.home]

variable (hr : r ≠ []) {p : Path} (hp : w.Avoids r p)

include hr hp

/-- **A path that avoids a place leads to the same, and off the place.** -/
theorem AgreesOff.resolve_eq (followLast : Bool) :
    w'.resolve followLast p = w.resolve followLast p ∧
      ∀ spot, w.resolve followLast p = .ok (.found spot) → spot.isOff r = true := by
  have hfollow := h.follow_eq hr followLast hp.start hp.names
  unfold resolve
  rw [h.home]
  split_ifs with hzero hempty hlong habsolute
  · exact ⟨rfl, nofun⟩
  · exact ⟨rfl, nofun⟩
  · exact ⟨rfl, nofun⟩
  · rwa [if_pos habsolute] at hfollow
  · rwa [if_neg habsolute] at hfollow

theorem AgreesOff.locate_eq (followLast : Bool) :
    w'.locate followLast p = w.locate followLast p := by
  rw [locate, locate, (h.resolve_eq hr hp followLast).1]

theorem AgreesOff.isOff_of_locate {followLast : Bool} {spot : Spot}
    (hspot : w.locate followLast p = .ok spot) : spot.isOff r = true := by
  refine (h.resolve_eq hr hp followLast).2 spot ?_
  unfold locate at hspot
  rcases hresolve : w.resolve followLast p with e | found | ⟨directory, name⟩
  · rw [hresolve] at hspot
    cases hspot
  · rw [hresolve] at hspot
    cases hspot
    rfl
  · rw [hresolve] at hspot
    cases hspot

/-- **It leads to the same node.** -/
theorem AgreesOff.find_eq (followLast : Bool) : w'.find followLast p = w.find followLast p := by
  unfold find
  rw [h.locate_eq hr hp]
  rcases hspot : w.locate followLast p with e | spot
  · rfl
  · dsimp only
    rw [h.nodeAt?_eq (h.isOff_of_locate hr hp hspot)]

theorem AgreesOff.stat_eq : w'.stat p = w.stat p := by rw [stat, stat, h.find_eq hr hp]

theorem AgreesOff.linkStat_eq : w'.linkStat p = w.linkStat p := by
  rw [linkStat, linkStat, h.find_eq hr hp]

theorem AgreesOff.openReader_eq : w'.openReader p = w.openReader p := by
  rw [openReader, openReader, h.find_eq hr hp]

end Agrees

/-! ### One name further -/

/-- Names after others avoid a place if they do from where those lead. -/
theorem avoidsUpTo_append {here spot : Spot} {names : List Bytes}
    (hadvance : w.advance true here names = .done (.found spot))
    (hspot : w.isDirectoryAt spot = true) (tail : List Bytes) :
    w.avoidsUpTo r here (names ++ tail) =
      (w.avoidsUpTo r here names && w.avoidsUpTo r spot tail) := by
  induction names generalizing here with
  | nil =>
    cases hadvance
    rfl
  | cons name names ih =>
    rw [advance_cons] at hadvance
    rw [List.cons_append, avoidsUpTo, avoidsUpTo, Bool.and_assoc]
    rcases hname : w.lookUp here name with s | d | ⟨d, target⟩ | d | e
    · rw [hname] at hadvance
      exact congrArg (s.isOff r && ·) (ih hadvance)
    · rw [hname, proceed] at hadvance
      split_ifs at hadvance
      cases hadvance
    · rw [hname, proceed] at hadvance
      simp at hadvance
    · -- The names end here, at something that is no directory: more names cannot follow.
      rw [hname, proceed] at hadvance
      split_ifs at hadvance
      cases hadvance
      change w.isDirectory (d ++ [name]) = true at hspot
      rw [isDirectory_of_leaf hname] at hspot
      cases hspot
    · rw [hname] at hadvance
      cases hadvance

/-- Where a link comes first, what follows later does not matter yet. -/
theorem avoidsUpTo_append_of_link {here : Spot} {names rest : List Bytes} {directory : Place}
    {target : Path} (hadvance : w.advance true here names = .link directory target rest)
    (tail : List Bytes) : w.avoidsUpTo r here (names ++ tail) = w.avoidsUpTo r here names := by
  induction names generalizing here with
  | nil => cases hadvance
  | cons name names ih =>
    rw [advance_cons] at hadvance
    rw [List.cons_append, avoidsUpTo, avoidsUpTo]
    rcases hname : w.lookUp here name with s | d | ⟨d, target⟩ | d | e
    · rw [hname] at hadvance
      exact congrArg (s.isOff r && ·) (ih hadvance)
    all_goals rfl

/-- **Names after others avoid a place** with the links that are left, if they do from where those
lead. -/
theorem avoidsFrom_append {links : Nat} {here spot : Spot} {names : List Bytes}
    (hfollow : w.follow true links here names = .ok (.found spot))
    (hspot : w.isDirectoryAt spot = true) {tail : List Bytes} (htail : tail ≠ [])
    (havoids : w.avoidsFrom r links here names = true)
    (hrest : w.avoidsFrom r links spot tail = true) :
    w.avoidsFrom r links here (names ++ tail) = true := by
  induction links generalizing here names with
  | zero =>
    unfold follow at hfollow
    rcases hadvance : w.advance true here names with done | e | ⟨directory, target, rest⟩
    · rw [hadvance] at hfollow
      cases hfollow
      rw [avoidsFrom, avoidsUpTo_append hadvance hspot, avoidsUpTo_of_avoidsFrom havoids,
        avoidsUpTo_of_avoidsFrom hrest]
      split <;> rfl
    · rw [hadvance] at hfollow
      cases hfollow
    · rw [hadvance] at hfollow
      cases hfollow
  | succ links ih =>
    unfold follow at hfollow
    rcases hadvance : w.advance true here names with done | e | ⟨directory, target, rest⟩
    · rw [hadvance] at hfollow
      cases hfollow
      rw [avoidsFrom, avoidsUpTo_append hadvance hspot, avoidsUpTo_of_avoidsFrom havoids,
        advance_append hadvance hspot, Bool.true_and]
      rw [avoidsFrom] at hrest
      exact hrest
    · rw [hadvance] at hfollow
      cases hfollow
    · rw [hadvance] at hfollow
      rw [avoidsFrom_of_link hadvance, Bool.and_eq_true_iff] at havoids
      rw [avoidsFrom_of_link (advance_append_of_link hadvance true htail),
        avoidsUpTo_append_of_link hadvance, havoids.1, Bool.true_and, ← List.append_assoc]
      exact ih hfollow havoids.2 (avoidsFrom_of_le (Nat.le_succ links) hrest)

/-- A `.` on the way is nothing to be avoided. -/
theorem avoidsUpTo_append_dot {here : Spot} {names tail : List Bytes}
    (h : w.avoidsUpTo r here (names ++ [dot] :: tail) = true) :
    w.avoidsUpTo r here (names ++ tail) = true := by
  induction names generalizing here with
  | nil =>
    rw [List.nil_append, avoidsUpTo, Bool.and_eq_true_iff] at h
    exact h.2
  | cons name names ih =>
    rw [List.cons_append, avoidsUpTo, Bool.and_eq_true_iff] at h ⊢
    refine ⟨h.1, ?_⟩
    rcases hname : w.lookUp here name with s | d | ⟨d, target⟩ | d | e
    · rw [hname] at h
      exact ih h.2
    all_goals rfl

theorem avoidsFrom_append_dot {links : Nat} {here : Spot} {names tail : List Bytes}
    (htail : tail ≠ []) (h : w.avoidsFrom r links here (names ++ [dot] :: tail) = true) :
    w.avoidsFrom r links here (names ++ tail) = true := by
  induction links generalizing here names with
  | zero =>
    rw [avoidsFrom, avoidsUpTo_append_dot (avoidsUpTo_of_avoidsFrom h)]
    split <;> rfl
  | succ links ih =>
    have hupTo := avoidsUpTo_append_dot (avoidsUpTo_of_avoidsFrom h)
    rcases advance_append_dot (w := w) true here names htail with
      hsame | ⟨d, target, rest, hdot, hnodot⟩
    · rw [avoidsFrom, hupTo, ← hsame]
      rw [avoidsFrom, Bool.and_eq_true_iff] at h
      exact h.2
    · rw [avoidsFrom_of_link hdot, Bool.and_eq_true_iff, ← List.append_assoc] at h
      rw [avoidsFrom_of_link hnodot, hupTo, ← List.append_assoc]
      exact ih h.2

/-- **A path with one more name avoids a place** if the path does and what stands there does. If
that is a link, it is one that avoids the place. -/
theorem Avoids.child {p : Path} (hp : w.Avoids r p) (hlinks : w.LinksAvoid r) {place : Place}
    (hlocate : w.locate true p = .ok (.place place)) (hplace : w.isDirectory place = true)
    {n : Bytes} (hn : n.IsName) (hoff : ¬ r <+: place ++ [n]) : w.Avoids r (p.child n) := by
  obtain ⟨hne, -, hfollow⟩ := follow_of_locate hlocate
  obtain ⟨pieces, hchild, hnames⟩ := Path.exists_names_child hne hn
  have hlast : ∀ links ≤ maxLinks, w.avoidsFrom r links (.place place) [n] = true := by
    have hname : (w.lookUp (.place place) n).isOff r n = true := by
      have hspot := Spot.isOff_place.2 hoff
      obtain ⟨-, -, hdot, hdotdot⟩ := hn
      unfold lookUp
      rw [if_neg hdot, if_neg hdotdot]
      dsimp only
      split_ifs
      · rfl
      · rcases w.node? (place ++ [n]) with _ | node
        · exact hspot
        · cases node <;> exact hspot
    have hupTo : w.avoidsUpTo r (.place place) [n] = true := by
      rw [avoidsUpTo, hname]
      split <;> rfl
    rintro (_ | links) hle
    · rw [avoidsFrom, hupTo]
      split <;> rfl
    · rw [avoidsFrom, hupTo, advance_cons, Bool.true_and]
      rcases hlookUp : w.lookUp (.place place) n with s | d | ⟨d, target⟩ | d | e
      · rfl
      · rfl
      · -- A link is followed, and no link elsewhere leads to the place.
        rw [hlookUp] at hname
        have htarget := hlinks d n target (node_of_link hlookUp) (Spot.isOff_place.1 hname)
        change w.avoidsFrom r links _ (target.names ++ []) = true
        rw [List.append_nil]
        exact avoidsFrom_of_le (Nat.le_of_succ_le hle) htarget
      · rfl
      · rfl
  have hall := avoidsFrom_append hfollow hplace (List.cons_ne_nil n []) hp.names
    (hlast maxLinks (Nat.le_refl _))
  refine ⟨by rw [Path.isAbsolute_child hne]; exact hp.start, ?_⟩
  rw [Path.isAbsolute_child hne, hchild]
  rcases hnames with hnames | hnames
  · rwa [hnames] at hall
  · rw [hnames, List.append_assoc] at hall
    exact avoidsFrom_append_dot (List.cons_ne_nil n []) hall

end World

end SnapStore
