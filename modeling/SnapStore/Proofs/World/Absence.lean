import SnapStore.Proofs.World.Lookup

/-!
# Where there is nothing

There is nothing at the end of a way if the way breaks off. That happens at a name that is not
there, or at something that is no directory while there are names left to go through, and links make
no difference to it: the way goes on where they lead. `SnapStore.World.BreaksOff` says so of the
nodes that stand in a world, and of nothing else. The system has limits besides, on the length of
names and on the number of links (`SnapStore.World.GoesBeyond`).

The system tells the two kinds of gaps apart (`SnapStore.World.Gap.error`). It reports the one that
there is, or a limit that the way goes beyond (`SnapStore.World.BreaksOff.reports`), and it reports
none where there is none (`SnapStore.World.exists_breaksOff_of_spotOf`).
-/

namespace SnapStore.World

open Bytes (slash dot)

/-- What is in the way where a way breaks off. -/
inductive Gap
  /-- A name is not there. -/
  | absent
  /-- What is there is no directory, and there are names left. -/
  | blocked

/-- What the system calls it. -/
def Gap.error : Gap → OsError
  | absent => .notFound
  | blocked => .notDirectory

/-- Whether a name stands for a step that does not depend on what is in the directory. -/
def IsDots (name : Bytes) : Prop := name = [dot] ∨ name = [dot, dot]

/-- The way through these names breaks off, when it begins at this place, and it does so after that
many links. -/
inductive BreaksOff (w : World) : Gap → Nat → Place → List Bytes → Prop
  /-- Here, as the next name is not there. -/
  | absent {here : Place} {name : Bytes} {rest : List Bytes} (hdots : ¬ IsDots name)
      (hnode : w.node? (here ++ [name]) = none) : BreaksOff w .absent 0 here (name :: rest)
  /-- Here, as there are names after this one, and it is not the name of a directory. -/
  | blocked {here : Place} {name : Bytes} {rest : List Bytes} {node : Node} (hdots : ¬ IsDots name)
      (hnode : w.node? (here ++ [name]) = some node)
      (hkind : node.kind = .file ∨ node.kind = .special) (hrest : rest ≠ []) :
      BreaksOff w .blocked 0 here (name :: rest)
  /-- After a step that leads nowhere. -/
  | stay {gap : Gap} {links : Nat} {here : Place} {rest : List Bytes}
      (h : BreaksOff w gap links here rest) : BreaksOff w gap links here ([dot] :: rest)
  /-- In the directory above, or after that. -/
  | up {gap : Gap} {links : Nat} {here : Place} {rest : List Bytes}
      (h : BreaksOff w gap links here.dropLast rest) :
      BreaksOff w gap links here ([dot, dot] :: rest)
  /-- In a directory in this one, or after that. -/
  | enter {gap : Gap} {links : Nat} {here : Place} {name : Bytes} {rest : List Bytes}
      {modified : Timestamp} (hdots : ¬ IsDots name)
      (hnode : w.node? (here ++ [name]) = some (.directory modified))
      (h : BreaksOff w gap links (here ++ [name]) rest) : BreaksOff w gap links here (name :: rest)
  /-- After a link: its target comes in between. -/
  | link {gap : Gap} {links : Nat} {here : Place} {name : Bytes} {rest : List Bytes} {target : Path}
      (hdots : ¬ IsDots name) (hnode : w.node? (here ++ [name]) = some (.link target))
      (h : BreaksOff w gap links (if target.isAbsolute then [] else here) (target.names ++ rest)) :
      BreaksOff w gap (links + 1) here (name :: rest)

/-! ### What names lead to -/

/-- The spot that names lead to, with at most so many links on the way. -/
def spotOf (w : World) (budget : Nat) (here : Spot) (names : List Bytes) : Except OsError Spot :=
  match w.follow true budget here names with
  | .ok (.found spot) => .ok spot
  | .ok (.absent _ _) => .error .notFound
  | .error e => .error e

variable {w : World} {here : Place} {name : Bytes} {rest names : List Bytes} {budget links : Nat}

/-- A path leads where its names lead, if it can be handed over at all. -/
theorem locate_eq_spotOf {p : Path} (hp : p.isAbsolute = true) :
    w.locate true p =
      if (0 : UInt8) ∈ p.bytes then .error .zeroByte
      else if maxPath ≤ p.bytes.length then .error .nameTooLong
      else w.spotOf maxLinks (.place []) p.names := by
  have hne : p.bytes ≠ [] := by
    intro hnil
    rw [Path.isAbsolute, hnil] at hp
    cases hp
  rw [locate, resolve, if_neg hne, if_pos hp]
  split_ifs <;> rfl

theorem spotOf_nil (w : World) (budget : Nat) (spot : Spot) :
    w.spotOf budget spot [] = .ok spot := by
  rw [spotOf, follow]
  rfl

/-- **Names are followed one after the other.** -/
theorem spotOf_cons (w : World) (budget : Nat) (spot : Spot) (name : Bytes) (rest : List Bytes) :
    w.spotOf budget spot (name :: rest) =
      match w.lookUp spot name with
      | .onward next => w.spotOf budget next rest
      | .missing _ => .error .notFound
      | .link directory target =>
        match budget with
        | 0 => .error .tooManyLinks
        | budget + 1 =>
          w.spotOf budget (.place (if target.isAbsolute then [] else directory))
            (target.names ++ rest)
      | .leaf directory =>
        if rest = [] then .ok (.place (directory ++ [name])) else .error .notDirectory
      | .refused e => .error e := by
  rw [spotOf, follow, advance_cons]
  rcases w.lookUp spot name with next | directory | ⟨directory, target⟩ | directory | e
  · change _ = w.spotOf budget next rest
    rw [spotOf, follow]
    rfl
  · rw [proceed]
    split_ifs <;> rfl
  · rw [proceed, Bool.not_true, Bool.and_false, if_neg Bool.false_ne_true]
    cases budget <;> rfl
  · rw [proceed]
    split_ifs <;> rfl
  · rfl

/-- What a name leads to, if it is short enough: that depends on what stands under it. -/
theorem lookUp_place (hdots : ¬ IsDots name) (hlong : name.length ≤ maxName) :
    w.lookUp (.place here) name =
      match w.node? (here ++ [name]) with
      | none => .missing here
      | some (.directory _) => .onward (.place (here ++ [name]))
      | some (.link target) => .link here target
      | some _ => .leaf here := by
  obtain ⟨hdot, hdotdot⟩ := not_or.1 hdots
  rw [lookUp, if_neg hdot, if_neg hdotdot]
  exact if_neg (Nat.not_lt.2 hlong)

theorem lookUp_of_long (hdots : ¬ IsDots name) (hlong : maxName < name.length) :
    w.lookUp (.place here) name = .refused .nameTooLong := by
  obtain ⟨hdot, hdotdot⟩ := not_or.1 hdots
  rw [lookUp, if_neg hdot, if_neg hdotdot]
  exact if_pos hlong

/-! ### Gaps and limits -/

/-- A name that may be looked up on the way: it is one of those that are given, or some link has
it. -/
def MayLookUp (w : World) (names : List Bytes) (name : Bytes) : Prop :=
  name ∈ names ∨ ∃ place target, w.node? place = some (.link target) ∧ name ∈ target.names

/-- A limit that the way through these names goes beyond, when there are so many links on it and
that many can be followed. -/
inductive GoesBeyond (w : World) (budget links : Nat) (names : List Bytes) : OsError → Prop
  /-- A name is too long. -/
  | name {n : Bytes} (hn : w.MayLookUp names n) (hlong : maxName < n.length) :
      GoesBeyond w budget links names .nameTooLong
  /-- There are too many links. -/
  | links (h : budget < links) : GoesBeyond w budget links names .tooManyLinks

/-- A limit on the rest of the way is one on the whole way. -/
theorem GoesBeyond.mono {budget' links' : Nat} {names' : List Bytes} {e : OsError}
    (h : w.GoesBeyond budget links names e)
    (hnames : ∀ n, w.MayLookUp names n → w.MayLookUp names' n)
    (hlinks : budget < links → budget' < links') : w.GoesBeyond budget' links' names' e := by
  cases h with
  | name hn hlong => exact .name (hnames _ hn) hlong
  | links h => exact .links (hlinks h)

theorem MayLookUp.cons {n : Bytes} (h : w.MayLookUp rest n) : w.MayLookUp (name :: rest) n :=
  h.imp_left (List.mem_cons_of_mem _)

/-- What is made of this way is the gap, or a limit that it goes beyond. -/
def Reports (w : World) (gap : Gap) (budget links : Nat) (here : Place) (names : List Bytes) :
    Prop :=
  w.spotOf budget (.place here) names = .error gap.error ∨
    ∃ e, w.GoesBeyond budget links names e ∧ w.spotOf budget (.place here) names = .error e

/-- What is made of the rest of a way is made of the way. -/
theorem Reports.mono {gap : Gap} {budget' links' : Nat} {here' : Place} {names' : List Bytes}
    (h : w.Reports gap budget links here names)
    (hspot : w.spotOf budget' (.place here') names' = w.spotOf budget (.place here) names)
    (hnames : ∀ n, w.MayLookUp names n → w.MayLookUp names' n)
    (hlinks : budget < links → budget' < links') : w.Reports gap budget' links' here' names' := by
  rcases h with hgap | ⟨e, hbeyond, herror⟩
  · exact Or.inl (hspot.trans hgap)
  · exact Or.inr ⟨e, hbeyond.mono hnames hlinks, hspot.trans herror⟩

/-- A name that is too long is refused before anybody looks what stands under it. -/
theorem reports_of_long {gap : Gap} (hdots : ¬ IsDots name) (hlong : maxName < name.length) :
    w.Reports gap budget links here (name :: rest) :=
  Or.inr ⟨_, .name (Or.inl List.mem_cons_self) hlong,
    by rw [spotOf_cons, lookUp_of_long hdots hlong]⟩

/-- **The system reports the gap**, or a limit that the way there goes beyond. -/
theorem BreaksOff.reports {gap : Gap} (h : w.BreaksOff gap links here names) (budget : Nat) :
    w.Reports gap budget links here names := by
  induction h generalizing budget with
  | @absent here name rest hdots hnode =>
    by_cases hlong : maxName < name.length
    · exact reports_of_long hdots hlong
    · left
      rw [spotOf_cons, lookUp_place hdots (Nat.not_lt.1 hlong), hnode]
      rfl
  | @blocked here name rest node hdots hnode hkind hrest =>
    by_cases hlong : maxName < name.length
    · exact reports_of_long hdots hlong
    · left
      rw [spotOf_cons, lookUp_place hdots (Nat.not_lt.1 hlong), hnode]
      cases node with
      | file content modified => exact if_neg hrest
      | directory modified => rcases hkind with hkind | hkind <;> cases hkind
      | link target => rcases hkind with hkind | hkind <;> cases hkind
      | special modified => exact if_neg hrest
  | stay h ih => exact (ih budget).mono (by rw [spotOf_cons]; rfl) (fun _ => .cons) id
  | up h ih => exact (ih budget).mono (by rw [spotOf_cons]; rfl) (fun _ => .cons) id
  | @enter gap links here name rest modified hdots hnode h ih =>
    by_cases hlong : maxName < name.length
    · exact reports_of_long hdots hlong
    · have hspot : w.spotOf budget (.place here) (name :: rest) =
          w.spotOf budget (.place (here ++ [name])) rest := by
        rw [spotOf_cons, lookUp_place hdots (Nat.not_lt.1 hlong), hnode]
      exact (ih budget).mono hspot (fun _ => .cons) id
  | @link gap links here name rest target hdots hnode h ih =>
    by_cases hlong : maxName < name.length
    · exact reports_of_long hdots hlong
    · have hlink : w.lookUp (.place here) name = .link here target := by
        rw [lookUp_place hdots (Nat.not_lt.1 hlong), hnode]
      cases budget with
      | zero => exact Or.inr ⟨_, .links (Nat.succ_pos _), by rw [spotOf_cons, hlink]⟩
      | succ budget =>
        refine (ih budget).mono (by rw [spotOf_cons, hlink]) ?_ Nat.succ_lt_succ
        rintro n (hn | hn)
        · rcases List.mem_append.1 hn with hn | hn
          · exact Or.inr ⟨_, target, hnode, hn⟩
          · exact Or.inl (List.mem_cons_of_mem _ hn)
        · exact Or.inr hn

/-- **No gap is reported where there is none.** -/
theorem exists_breaksOff_of_spotOf {gap : Gap}
    (h : w.spotOf budget (.place here) names = .error gap.error) :
    ∃ links ≤ budget, w.BreaksOff gap links here names := by
  induction budget using Nat.strongRecOn generalizing here names with
  | ind budget ihBudget =>
  induction names generalizing here with
  | nil =>
    rw [spotOf_nil] at h
    cases h
  | cons name rest ih =>
    by_cases hdots : IsDots name
    · rw [spotOf_cons] at h
      rcases hdots with rfl | rfl
      · obtain ⟨links, hle, hbreaks⟩ := ih h
        exact ⟨links, hle, hbreaks.stay⟩
      · obtain ⟨links, hle, hbreaks⟩ := ih h
        exact ⟨links, hle, hbreaks.up⟩
    · by_cases hlong : maxName < name.length
      · rw [spotOf_cons, lookUp_of_long hdots hlong] at h
        cases gap <;> cases h
      · rw [spotOf_cons, lookUp_place hdots (Nat.not_lt.1 hlong)] at h
        rcases hnode : w.node? (here ++ [name]) with _ | node
        · rw [hnode] at h
          cases gap with
          | absent => exact ⟨0, Nat.zero_le _, .absent hdots hnode⟩
          | blocked => cases h
        · have hblocked : (node.kind = .file ∨ node.kind = .special) →
              (if rest = [] then Except.ok (Spot.place (here ++ [name]))
                else .error .notDirectory) =
                .error gap.error → ∃ links ≤ budget, w.BreaksOff gap links here (name :: rest) := by
            intro hkind h
            split_ifs at h with hrest
            cases gap with
            | absent => cases h
            | blocked => exact ⟨0, Nat.zero_le _, .blocked hdots hnode hkind hrest⟩
          rw [hnode] at h
          cases node with
          | directory modified =>
            obtain ⟨links, hle, hbreaks⟩ := ih h
            exact ⟨links, hle, .enter hdots hnode hbreaks⟩
          | link target =>
            cases budget with
            | zero => cases gap <;> cases h
            | succ budget =>
              obtain ⟨links, hle, hbreaks⟩ := ihBudget budget (Nat.lt_succ_self _) h
              exact ⟨links + 1, Nat.succ_le_succ hle, .link hdots hnode hbreaks⟩
          | file content modified => exact hblocked (Or.inl rfl) h
          | special modified => exact hblocked (Or.inr rfl) h

/-! ### Paths -/

/-- A limit that a path goes beyond, when there are so many links on its way. -/
inductive Exceeds (w : World) (links : Nat) (p : Path) : OsError → Prop
  /-- It cannot be handed over. -/
  | zero (h : (0 : UInt8) ∈ p.bytes) : Exceeds w links p .zeroByte
  /-- It is too long. -/
  | path (h : maxPath ≤ p.bytes.length) : Exceeds w links p .nameTooLong
  /-- It is a limit on its way. -/
  | way {e : OsError} (h : w.GoesBeyond maxLinks links p.names e) : Exceeds w links p e

theorem Exceeds.ne_notFound {p : Path} {e : OsError} (h : w.Exceeds links p e) : e ≠ .notFound := by
  rintro rfl
  cases h with
  | way h => cases h

variable {p : Path} {gap : Gap}

/-- A path whose way breaks off leads nowhere, for that reason or for a limit. -/
theorem BreaksOff.find (hp : p.isAbsolute = true) (h : w.BreaksOff gap links [] p.names) :
    w.find true p = .error gap.error ∨ ∃ e, w.Exceeds links p e ∧ w.find true p = .error e := by
  rw [World.find, locate_eq_spotOf hp]
  split_ifs with hzero hlong
  · exact Or.inr ⟨_, .zero hzero, rfl⟩
  · exact Or.inr ⟨_, .path hlong, rfl⟩
  · rcases h.reports maxLinks with hspot | ⟨e, hbeyond, hspot⟩
    · exact Or.inl (by rw [hspot])
    · exact Or.inr ⟨e, .way hbeyond, by rw [hspot]⟩

/-- If a path is refused because of a gap then its way breaks off. -/
theorem exists_breaksOff_of_locate (hp : p.isAbsolute = true)
    (h : w.locate true p = .error gap.error) : ∃ links, w.BreaksOff gap links [] p.names := by
  rw [locate_eq_spotOf hp] at h
  split_ifs at h
  · cases gap <;> cases h
  · cases gap <;> cases h
  · obtain ⟨links, -, hbreaks⟩ := exists_breaksOff_of_spotOf h
    exact ⟨links, hbreaks⟩

end SnapStore.World
