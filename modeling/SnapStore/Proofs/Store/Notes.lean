import SnapStore.Proofs.Store.AlikeStores
import SnapStore.Proofs.Store.Kept

/-!
# Runs through changing worlds, and notes of them

A store goes through a run of requests while the world changes between them as it likes
(`SnapStore.Mirror.turns`). What it answers is then not what is in the world: what has been computed
once is answered until it is forgotten.

To say this, the successes have to be known, those that are part of another request among them. So a
run is gone through with a cache that takes notes (`SnapStore.Mirror.noting`): of every snapshot of
a path or of a tree that is found or stored, in which world that was, and of what is forgotten. The
notes change nothing (`SnapStore.Mirror.turns_noting`).

The invariant of such a run is that what is kept under a key is the first success that was noted
since the key was forgotten, and was right in the world of that time (`SnapStore.IsNoted`).
-/

namespace SnapStore

/-! ### Runs through changing worlds -/

/-- A request, and the world as it is then. -/
structure Turn where
  /-- The world. -/
  world : World
  /-- The request. -/
  request : Request

namespace Mirror

variable {σ : Type}

/-- The answers to requests that are made one after the other, by a store on the mirror of the
time. -/
def turns (M : World → Mirror σ) (st : Strategy) (ts : List Turn) : StateM σ (List Answer) :=
  ts.mapM fun t => (M t.world).answer t.world st t.request

end Mirror

/-! ### Notes -/

/-- Something that has happened in a run. -/
inductive Note
  /-- A snapshot of a path has succeeded. -/
  | entry (w : World) (key : String) (e : Entry)
  /-- A snapshot of a whole tree has succeeded. -/
  | tree (w : World) (key : String) (t : TreeSnapshot)
  /-- A path has been forgotten. -/
  | forgotten (key : String)
  /-- Everything has been forgotten. -/
  | allForgotten

namespace Note

/-- Whether a key is forgotten. -/
def forgets (key : String) : Note → Bool
  | forgotten other => other = key
  | allForgotten => true
  | _ => false

/-- The success of a snapshot of a path, if it is one. -/
def entry? (key : String) : Note → Option (World × Entry)
  | entry w other e => if other = key then some (w, e) else none
  | _ => none

/-- The success of a snapshot of a tree, if it is one. -/
def tree? (key : String) : Note → Option (World × TreeSnapshot)
  | tree w other t => if other = key then some (w, t) else none
  | _ => none

/-- **The first success since a key was last forgotten.** Notes stand with the latest first. -/
def first {α : Type} (success? : Note → Option α) (key : String) : List Note → Option α
  | [] => none
  | n :: earlier =>
    if n.forgets key then none else (first success? key earlier).or (success? n)

/-- What is known of a key: the value of the first success, which was right in the world of that
time. -/
def Tells {α : Type} (found : Option α) (noted : Option (World × α))
    (right : World → Except Failure α) : Prop :=
  found = noted.map Prod.snd ∧ ∀ w a, noted = some (w, a) → right w = .ok a

section Tells

variable {α : Type} {found : Option α} {success? : Note → Option (World × α)}
  {right : World → Except Failure α} {key : String} {notes : List Note} {n : Note}

theorem tells_nothing : Tells (none : Option α) none right := ⟨rfl, nofun⟩

/-- A note of something else makes no difference. -/
theorem Tells.note_other (h : Tells found (first success? key notes) right)
    (hforgets : n.forgets key = false) (hother : success? n = none) :
    Tells found (first success? key (n :: notes)) right := by
  rw [first, hforgets, hother, Option.or_none]
  exact h

/-- A success is noted that is not the first, or is right. -/
theorem Tells.note_success (h : Tells found (first success? key notes) right)
    (hforgets : n.forgets key = false) {w : World} {a : α} (hsuccess : success? n = some (w, a))
    (ha : found = some a ∨ found = none ∧ right w = .ok a) :
    Tells (some a) (first success? key (n :: notes)) right := by
  obtain ⟨hfound, hright⟩ := h
  rw [first, hforgets, hsuccess]
  rcases hnoted : first success? key notes with _ | ⟨w₀, a₀⟩
  all_goals rw [hnoted] at hfound hright
  · rcases ha with ha | ⟨-, ha⟩
    · rw [hfound] at ha
      cases ha
    · refine ⟨rfl, fun w' a' h => ?_⟩
      cases h
      exact ha
  · rcases ha with ha | ⟨ha, -⟩
    all_goals rw [hfound] at ha
    all_goals cases ha
    exact ⟨rfl, hright⟩

/-- After its key is forgotten, nothing is known. -/
theorem tells_forgotten (hforgets : n.forgets key = true) :
    Tells (none : Option α) (first success? key (n :: notes)) right := by
  rw [first, hforgets]
  exact tells_nothing

end Tells

end Note

/-! ### A cache that takes notes -/

namespace Mirror

variable {σ : Type}

/-- **A mirror that takes notes** of the world as it is. -/
def noting (M : Mirror σ) (w : World) : Mirror (σ × List Note) where
  lookUpEntry key s :=
    let looked := M.lookUpEntry key s.1
    (looked.1, looked.2, (looked.1.map (Note.entry w key)).toList ++ s.2)
  putEntry e s := ((), (M.putEntry e s.1).2, .entry w e.path e :: s.2)
  lookUpTree key s :=
    let looked := M.lookUpTree key s.1
    (looked.1, looked.2, (looked.1.map (Note.tree w key)).toList ++ s.2)
  putTree t s := ((), (M.putTree t s.1).2, (t.base.map (Note.tree w · t)).toList ++ s.2)
  lookUpAggregate key s := ((M.lookUpAggregate key s.1).1, (M.lookUpAggregate key s.1).2, s.2)
  putAggregate key a s := ((), (M.putAggregate key a s.1).2, s.2)
  invalidate key s := ((), (M.invalidate key s.1).2, .forgotten key :: s.2)
  invalidateAll s := ((), (M.invalidateAll s.1).2, .allForgotten :: s.2)

/-- Computations that do the same but for what they write beside their state. -/
def withoutNotes (σ τ : Type) : Relator (StateM (σ × τ)) (StateM σ) where
  Rel x y := ∀ s, (x s).1 = (y s.1).1 ∧ (x s).2.1 = (y s.1).2
  pure _ _ := ⟨rfl, rfl⟩
  map f _ _ h s := ⟨congrArg f (h s).1, (h s).2⟩
  bind {_ _ x y f g} hx hf s := by
    obtain ⟨hvalue, hstate⟩ := hx s
    have hrest := hf (x s).1 (x s).2
    rw [hvalue, hstate] at hrest
    change (f (x s).1 (x s).2).1 = (g (y s.1).1 (y s.1).2).1 ∧
      (f (x s).1 (x s).2).2.1 = (g (y s.1).1 (y s.1).2).2
    rw [hvalue]
    exact hrest

variable (M : Mirror σ) (st : Strategy)

/-- **Notes change nothing.** -/
theorem answer_noting (w : World) (r : Request) :
    (withoutNotes σ (List Note)).Rel ((M.noting w).answer w st r) (M.answer w st r) := by
  have hcalls : (withoutNotes σ (List Note)).AlikeCalls (.live (pure w)) (.live (pure w)) :=
    Relator.calls_live ((withoutNotes σ (List Note)).pure w)
  have hstores : (withoutNotes σ (List Note)).AlikeStores ((M.noting w).host w) (M.host w) :=
    { calls := hcalls
      stat := Relator.statBy hcalls
      hasher := Relator.sha256 hcalls
      intern := fun _ => (withoutNotes σ (List Note)).pure ()
      entries := ⟨fun _ _ => ⟨rfl, rfl⟩, fun _ _ _ => ⟨rfl, rfl⟩⟩
      trees := ⟨fun _ _ => ⟨rfl, rfl⟩, fun _ _ _ => ⟨rfl, rfl⟩⟩
      aggregates := ⟨fun _ _ => ⟨rfl, rfl⟩, fun _ _ _ => ⟨rfl, rfl⟩⟩
      keeping := fun _ _ _ h => h
      exclusively := fun _ _ _ _ h => h }
  cases r with
  | invalidate key => exact fun _ => ⟨rfl, rfl⟩
  | invalidateAll => exact fun _ => ⟨rfl, rfl⟩
  | _ => exact Relator.answer hstores st _

theorem turns_noting (ts : List Turn) :
    (withoutNotes σ (List Note)).Rel (turns M.noting st ts) (turns (fun _ => M) st ts) := by
  induction ts with
  | nil => exact (withoutNotes _ _).pure []
  | cons t ts ih =>
    unfold turns at ih ⊢
    rw [List.mapM_cons, List.mapM_cons]
    exact (withoutNotes _ _).bind (answer_noting M st t.world t.request) fun a =>
      (withoutNotes _ _).bind ih fun as => (withoutNotes _ _).pure (a :: as)

end Mirror

/-! ### What the notes tell -/

/-- **What is kept is the first success noted**, and everything is kept. -/
structure IsNoted (s : Cache × List Note) : Prop where
  /-- Everything is kept. -/
  retention : s.1.retention = .all
  /-- Entries. -/
  entries : ∀ key, Note.Tells (s.1.entries.find? key) (Note.first (Note.entry? key) key s.2)
    (Host.rightEntry · key)
  /-- Trees. -/
  trees : ∀ key, Note.Tells (s.1.trees.find? key) (Note.first (Note.tree? key) key s.2)
    (Host.rightTree · key)

theorem isNoted_start : IsNoted (.empty .all, []) :=
  ⟨rfl, fun _ => Note.tells_nothing, fun _ => Note.tells_nothing⟩

namespace IsNoted

variable {c c' : Cache} {notes : List Note} {w : World} {key : String} {α : Type}

/-- Aggregates and counts are not noted. -/
theorem of_keepsSame (h : IsNoted (c, notes)) (hretention : c'.retention = c.retention)
    (hentries : c'.entries = c.entries) (htrees : c'.trees = c.trees) : IsNoted (c', notes) := by
  refine ⟨hretention.trans h.retention, ?_, ?_⟩
  · rw [hentries]
    exact h.entries
  · rw [htrees]
    exact h.trees

/-- An entry is noted that is kept, or that is right and now kept. -/
theorem note_entry (h : IsNoted (c, notes)) (hretention : c'.retention = c.retention)
    (htrees : c'.trees = c.trees) {e : Entry}
    (hentries : ∀ other, c'.entries.find? other =
      if other = key then some e else c.entries.find? other)
    (he : c.entries.find? key = some e ∨
      c.entries.find? key = none ∧ Host.rightEntry w key = .ok e) :
    IsNoted (c', .entry w key e :: notes) := by
  refine ⟨hretention.trans h.retention, fun other => ?_, fun other => ?_⟩
  · rw [hentries]
    split_ifs with hother
    · subst hother
      exact (h.entries other).note_success rfl (if_pos rfl) he
    · exact (h.entries other).note_other rfl (if_neg (Ne.symm hother))
  · rw [htrees]
    exact (h.trees other).note_other rfl rfl

/-- So is a tree. -/
theorem note_tree (h : IsNoted (c, notes)) (hretention : c'.retention = c.retention)
    (hentries : c'.entries = c.entries) {t : TreeSnapshot}
    (htrees : ∀ other, c'.trees.find? other = if other = key then some t else c.trees.find? other)
    (ht : c.trees.find? key = some t ∨
      c.trees.find? key = none ∧ Host.rightTree w key = .ok t) :
    IsNoted (c', .tree w key t :: notes) := by
  refine ⟨hretention.trans h.retention, fun other => ?_, fun other => ?_⟩
  · rw [hentries]
    exact (h.entries other).note_other rfl rfl
  · rw [htrees]
    split_ifs with hother
    · subst hother
      exact (h.trees other).note_success rfl (if_pos rfl) ht
    · exact (h.trees other).note_other rfl (if_neg (Ne.symm hother))

/-- A key is forgotten, or all are. -/
theorem forget (h : IsNoted (c, notes)) {n : Note} (hretention : c'.retention = c.retention)
    (hentries : ∀ key, c'.entries.find? key = if n.forgets key then none else c.entries.find? key)
    (htrees : ∀ key, c'.trees.find? key = if n.forgets key then none else c.trees.find? key)
    (hentry : ∀ key, n.entry? key = none) (htree : ∀ key, n.tree? key = none) :
    IsNoted (c', n :: notes) := by
  refine ⟨hretention.trans h.retention, fun key => ?_, fun key => ?_⟩
  · rw [hentries]
    split_ifs with hforgets
    · exact Note.tells_forgotten hforgets
    · exact (h.entries key).note_other (by simpa using hforgets) (hentry key)
  · rw [htrees]
    split_ifs with hforgets
    · exact Note.tells_forgotten hforgets
    · exact (h.trees key).note_other (by simpa using hforgets) (htree key)

/-! ### Requests keep to the notes -/

/-- The host of a store whose cache takes notes. -/
abbrev notedHost (w : World) : Host (StateM (Cache × List Note)) := (Cache.mirror.noting w).host w

variable {s : Cache × List Note}

theorem lookUpEntry (hs : IsNoted s) (w : World) (key : String) :
    IsNoted ((notedHost w).entries.find? key s).2 ∧
      ((notedHost w).entries.find? key s).2.1.entries = s.1.entries := by
  obtain ⟨c, notes⟩ := s
  have hentries : (c.lookUpEntry key).2.entries = c.entries := by
    change c.entries.use c.retention key = c.entries
    rw [hs.retention, Shelf.use_all]
  refine ⟨?_, hentries⟩
  change IsNoted ((c.lookUpEntry key).2,
    ((c.entries.find? key).map (Note.entry w key)).toList ++ notes)
  rcases hfound : c.entries.find? key with _ | e
  · exact hs.of_keepsSame rfl hentries rfl
  · refine hs.note_entry (show (c.lookUpEntry key).2.retention = _ from rfl) rfl (fun other => ?_)
      (Or.inl hfound)
    rw [hentries]
    split_ifs with hother
    · rw [hother, hfound]
    · rfl

theorem lookUpTree (hs : IsNoted s) (w : World) (key : String) :
    IsNoted ((notedHost w).trees.find? key s).2 ∧
      ((notedHost w).trees.find? key s).2.1.trees = s.1.trees := by
  obtain ⟨c, notes⟩ := s
  have htrees : (c.lookUpTree key).2.trees = c.trees := by
    change c.trees.use c.retention key = c.trees
    rw [hs.retention, Shelf.use_all]
  refine ⟨?_, htrees⟩
  change IsNoted ((c.lookUpTree key).2, ((c.trees.find? key).map (Note.tree w key)).toList ++ notes)
  rcases hfound : c.trees.find? key with _ | t
  · exact hs.of_keepsSame rfl rfl htrees
  · refine hs.note_tree (show (c.lookUpTree key).2.retention = _ from rfl) rfl (fun other => ?_)
      (Or.inl hfound)
    rw [htrees]
    split_ifs with hother
    · rw [hother, hfound]
    · rfl

/-- **What comes of the protocol of a cache that takes notes**: the notes still tell what is kept,
and if there is a value, it is kept. -/
theorem cached (slot : Cache → Option α) {k : Keeper (StateM (Cache × List Note)) α}
    {production : Production} {compute : ExceptT Failure (StateM (Cache × List Note)) α}
    {right : Except Failure α} (hs : IsNoted s)
    (hfind : ∀ s, IsNoted s → IsNoted (k.find? key s).2 ∧ (k.find? key s).1 = slot s.1 ∧
      slot (k.find? key s).2.1 = slot s.1)
    (hcompute : ∀ Inv, ((holding Inv).except Failure).Rel compute right)
    (hstore : ∀ s a, IsNoted s → slot s.1 = none → right = .ok a →
      IsNoted (k.store key a s).2 ∧ slot (k.store key a s).2.1 = some a) :
    IsNoted (((notedHost w).cached k production key compute).run s).2 ∧
      ∀ a, (((notedHost w).cached k production key compute).run s).1 = .ok a →
        slot (((notedHost w).cached k production key compute).run s).2.1 = some a := by
  have hlooked : ∀ s', IsNoted s' ∧ slot s'.1 = slot s.1 → (k.find? key s').1 = slot s.1 ∧
      IsNoted (k.find? key s').2 ∧ slot (k.find? key s').2.1 = slot s.1 := by
    rintro s' ⟨hs', hslot⟩
    obtain ⟨hnoted, hvalue, hkept⟩ := hfind s' hs'
    exact ⟨hvalue.trans hslot, hnoted, hkept.trans hslot⟩
  rcases @Host.run_cached_cases _ _ (notedHost w) k production key compute (fun _ => rfl) _ _
    hlooked s ⟨hs, rfl⟩ with
    ⟨a, s', hfound, ⟨hs', hslot⟩, hrun⟩ |
    ⟨hnone, s', hs', ⟨a, s'', hran, hrun⟩ | ⟨e, s'', hran, hrun⟩⟩
  all_goals rw [hrun]
  · refine ⟨hs', fun b hb => ?_⟩
    cases hb
    exact hslot.trans hfound
  · obtain ⟨hvalue, hs'', hslot⟩ := hcompute (fun s' => IsNoted s' ∧ slot s'.1 = slot s.1) s' hs'
    rw [hran] at hvalue hs'' hslot
    obtain ⟨hstored, hkept⟩ := hstore s'' a hs'' (hslot.trans hnone) hvalue.symm
    refine ⟨hstored, fun b hb => ?_⟩
    cases hb
    exact hkept
  · obtain ⟨-, hs'', -⟩ := hcompute (fun s' => IsNoted s' ∧ slot s'.1 = slot s.1) s' hs'
    rw [hran] at hs''
    exact ⟨hs'', nofun⟩

/-- The snapshot of a path is kept if it succeeds. -/
theorem snapshotSelf {p : Path} (hs : IsNoted s) (hp : p.canonical w.workingDirectory = .ok key) :
    IsNoted (((notedHost w).snapshotSelf p).run s).2 ∧
      ∀ e, (((notedHost w).snapshotSelf p).run s).1 = .ok e →
        (((notedHost w).snapshotSelf p).run s).2.1.entries.find? key = some e := by
  have hkey := Mirror.run_key (M := Cache.mirror.noting w) (w := w) p s
  rw [World.keyOf_eq_ok_iff.2 hp] at hkey
  rw [show ((notedHost w).snapshotSelf p).run s = _ from run_bind_of_ok hkey]
  refine cached (·.entries.find? key) hs (fun s hs => ?_)
    (fun Inv => Relator.observe (Mirror.alikeHosts_host _ w Inv) key) fun s e hs hnone he => ?_
  · obtain ⟨hnoted, hentries⟩ := hs.lookUpEntry w key
    exact ⟨hnoted, rfl, congrArg (·.find? key) hentries⟩
  · obtain ⟨c, notes⟩ := s
    have hpath : e.path = key := Host.path_of_observe he
    have hentries : ∀ other, (c.putEntry e).entries.find? other =
        if other = key then some e else c.entries.find? other := by
      intro other
      change (c.entries.store c.retention e.path e).find? other = _
      rw [hs.retention, Shelf.find?_store_all, hpath]
    refine ⟨?_, (hentries key).trans (if_pos rfl)⟩
    change IsNoted (c.putEntry e, Note.entry w e.path e :: notes)
    rw [hpath]
    exact hs.note_entry (show (c.putEntry e).retention = _ from rfl) rfl hentries
      (Or.inr ⟨hnone, he⟩)

/-- So is the snapshot of a whole tree, asked for by its canonical path. -/
theorem snapshotTree {p : Path} (hs : IsNoted s) (hcanonical : w.IsCanonical p)
    (hp : p.canonical w.workingDirectory = .ok key) :
    IsNoted (((notedHost w).snapshotTree (.all p)).run s).2 ∧
      ∀ t, (((notedHost w).snapshotTree (.all p)).run s).1 = .ok t →
        (((notedHost w).snapshotTree (.all p)).run s).2.1.trees.find? key = some t := by
  have hkey := Mirror.run_key (M := Cache.mirror.noting w) (w := w) p s
  rw [World.keyOf_eq_ok_iff.2 hp] at hkey
  rw [show ((notedHost w).snapshotTree (.all p)).run s = _ from run_bind_of_ok hkey]
  obtain rfl : p = .ofString key := hcanonical key hp
  have hwalk : ∀ Inv, ((holding Inv).except Failure).Rel
      ((notedHost w).walk (some key)
        ((DirectoryTree.all (.ofString key)).visit (notedHost w).calls.lift))
      (Host.rightTree w key) := fun Inv =>
    have halike := Mirror.alikeHosts_host (Cache.mirror.noting w) w Inv
    Relator.walk halike _ (Relator.visit_directoryTree (Relator.calls_lift halike.calls) _)
  refine cached (·.trees.find? key) hs (fun s hs => ?_) hwalk fun s t hs hnone ht => ?_
  · obtain ⟨hnoted, htrees⟩ := hs.lookUpTree w key
    exact ⟨hnoted, rfl, congrArg (·.find? key) htrees⟩
  · obtain ⟨c, notes⟩ := s
    have hbase : t.base = some key := Host.base_of_rightTree ht
    have hput : (c.putTree t) = { c with trees := c.trees.store c.retention key t } := by
      unfold Cache.putTree
      rw [hbase]
    have htrees : ∀ other, (c.putTree t).trees.find? other =
        if other = key then some t else c.trees.find? other := by
      intro other
      rw [hput]
      dsimp only
      rw [hs.retention, Shelf.find?_store_all]
    refine ⟨?_, (htrees key).trans (if_pos rfl)⟩
    change IsNoted (c.putTree t, (t.base.map (Note.tree w · t)).toList ++ notes)
    rw [hbase]
    exact hs.note_tree (by rw [hput]) (by rw [hput]) htrees (Or.inr ⟨hnone, ht⟩)

theorem preserves_key (w : World) (p : Path) : Preserves IsNoted ((notedHost w).key p) :=
  preserves_of_rel (Relator.key (Mirror.alikeHosts_host _ w _) p)

theorem preserves_walk (w : World) (base : Option String)
    {source : TreeSource (Collecting (StateM (Cache × List Note)))}
    {source' : TreeSource (Collecting Id)}
    (h : ((holding IsNoted).state (List Entry)).AlikeSources source source') :
    Preserves IsNoted ((notedHost w).walk base source) :=
  preserves_of_rel (Relator.walk (Mirror.alikeHosts_host _ w _) base h)

/-- Where a path has no key, nothing is done. -/
theorem run_of_no_key {p : Path} {e : Error}
    {f : String → ExceptT Failure (StateM (Cache × List Note)) α}
    (hp : p.canonical w.workingDirectory = .error e) (s : Cache × List Note) :
    ((notedHost w).key p >>= f).run s = (.error (.error e), s) := by
  have hkey := Mirror.run_key (M := Cache.mirror.noting w) (w := w) p s
  rw [World.keyOf_of_error hp] at hkey
  exact run_bind_of_error hkey

theorem preserves_snapshotSelf (w : World) (p : Path) :
    Preserves IsNoted ((notedHost w).snapshotSelf p) := by
  intro s hs
  rcases hp : p.canonical w.workingDirectory with e | key
  · rw [show ((notedHost w).snapshotSelf p).run s = _ from run_of_no_key hp s]
    exact hs
  · exact (hs.snapshotSelf hp).1

theorem preserves_snapshotTree {t : DirectoryTree}
    (ht : t.isFiltered = true ∨ w.IsCanonical t.root) :
    Preserves IsNoted ((notedHost w).snapshotTree t) := by
  by_cases hfiltered : t.isFiltered = true
  · have halike := Mirror.alikeHosts_host (Cache.mirror.noting w) w IsNoted
    refine (preserves_key w t.root).bind fun key => ?_
    rw [if_pos hfiltered]
    exact preserves_walk w (some key)
      (Relator.visit_directoryTree (Relator.calls_lift halike.calls) t)
  · have hcanonical := ht.resolve_left hfiltered
    rw [DirectoryTree.eq_all_of_not_isFiltered (t := t) (by simpa using hfiltered)]
    generalize t.root = p at hcanonical
    intro s hs
    rcases hp : p.canonical w.workingDirectory with e | key
    · rw [show ((notedHost w).snapshotTree (.all p)).run s = _ from run_of_no_key hp s]
      exact hs
    · exact (hs.snapshotTree hcanonical hp).1

theorem preserves_expand {roots : List Root} (hroots : ∀ r ∈ roots, r.IsCanonical w) :
    Preserves IsNoted ((notedHost w).expand (roots.map Root.element)) := by
  refine SnapStore.preserves_expand (fun _ _ h => h) fun e he => ?_
  obtain ⟨root, hroot, rfl⟩ := List.mem_map.1 he
  have hcanonical := hroots root hroot
  cases root with
  | path p =>
    exact preserves_expandElement_path (preserves_snapshotSelf w p)
      (preserves_snapshotTree (Or.inr hcanonical))
  | directory t => exact (preserves_snapshotTree hcanonical).bind fun _ => preserves_pure _
  | source source => exact (preserves_walk w none (source.alike _)).bind fun _ => preserves_pure _

theorem preserves_snapshotCollection (st : Strategy) {roots : List Root}
    (hroots : ∀ r ∈ roots, r.IsCanonical w) :
    Preserves IsNoted ((notedHost w).snapshotCollection st (roots.map Root.element)) :=
  (preserves_expand hroots).bind fun _ => preserves_pure _

/-- Aggregates are kept without a note. -/
theorem preserves_snapshotAll (st : Strategy) (p : Path) :
    Preserves IsNoted ((notedHost w).snapshotAll st p) := by
  intro s hs
  rcases hp : p.canonical w.workingDirectory with e | key
  · rw [show ((notedHost w).snapshotAll st p).run s = _ from run_of_no_key hp s]
    exact hs
  · have hkey := Mirror.run_key (M := Cache.mirror.noting w) (w := w) p s
    rw [World.keyOf_eq_ok_iff.2 hp] at hkey
    rw [show ((notedHost w).snapshotAll st p).run s = _ from run_bind_of_ok hkey]
    have hroots : ∀ r ∈ [Root.path (.ofString key)], r.IsCanonical w := by
      intro r hr
      rw [List.mem_singleton.1 hr]
      exact World.isCanonical_ofString hp
    exact preserves_cached (fun _ => rfl) (fun s hs => ⟨hs.retention, hs.entries, hs.trees⟩)
      (preserves_snapshotCollection st hroots)
      (fun _ _ _ _ hs => ⟨hs.retention, hs.entries, hs.trees⟩) s hs

/-- **The notes tell what is kept after every request**, if trees are asked for by canonical
paths. -/
theorem answer (hs : IsNoted s) (st : Strategy) {r : Request} (hr : r.IsCanonical w) :
    IsNoted ((Cache.mirror.noting w).answer w st r s).2 := by
  cases r with
  | entry p => exact preserves_snapshotSelf w p s hs
  | aggregate p => exact preserves_snapshotAll st p s hs
  | tree t => exact preserves_snapshotTree hr s hs
  | source source => exact preserves_walk w none (source.alike _) s hs
  | expansion roots => exact preserves_expand hr s hs
  | collection st roots => exact preserves_snapshotCollection st hr s hs
  | invalidate key =>
    obtain ⟨c, notes⟩ := s
    have herase : ∀ {α : Type} (shelf : Shelf α) (other : String), (shelf.erase key).find? other =
        if (Note.forgotten key).forgets other then none else shelf.find? other := by
      intro α shelf other
      by_cases hother : other = key
      · subst hother
        rw [Shelf.find?_erase_self, if_pos (by simp [Note.forgets])]
      · rw [Shelf.find?_erase_of_ne hother, if_neg (by simp [Note.forgets, Ne.symm hother])]
    exact hs.forget rfl (herase c.entries) (herase c.trees) (fun _ => rfl) fun _ => rfl
  | invalidateAll =>
    obtain ⟨c, notes⟩ := s
    exact hs.forget rfl (fun _ => rfl) (fun _ => rfl) (fun _ => rfl) fun _ => rfl

/-- So they do after every run. -/
theorem turns (hs : IsNoted s) (st : Strategy) {ts : List Turn}
    (hts : ∀ t ∈ ts, t.request.IsCanonical t.world) :
    IsNoted (Mirror.turns Cache.mirror.noting st ts s).2 := by
  induction ts generalizing s with
  | nil => exact hs
  | cons t ts ih =>
    have hrest :=
      ih (hs.answer st (hts t (by simp))) fun t' ht' => hts t' (List.mem_cons_of_mem _ ht')
    unfold Mirror.turns at hrest ⊢
    rw [List.mapM_cons]
    exact hrest

end IsNoted

end SnapStore
