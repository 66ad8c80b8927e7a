import SnapStore.Proofs.Store.Mirror
import SnapStore.Proofs.Store.Protocol

/-!
# Worlds that go on changing

While a store is at work others go on changing the world. Each system call sees the world as it is
when the call is made, and anything may happen between two calls. A `SnapStore.Timeline` is the
world at every moment, and with it the way in which files are read: a file that is opened at some
moment is read in portions, and each portion is fetched from what the file holds by then
(`SnapStore.Fetched`). Nothing is said of what a file goes on to hold once it is open. It may be
written to, or it may be removed or replaced and stay as it is for the one who has opened it.

`SnapStore.Timeline.host` is a store at work in a timeline. It is a `SnapStore.Host` like others,
with a clock that moves on by a moment for every system call, and it keeps its values in any
`SnapStore.Mirror`. To hash a file it opens the file and reads it to the end before it asks the
system for anything else; `SnapStore.Timeline.hash_cases` says what comes of that.
-/

namespace SnapStore

/-! ### Reading while a file changes -/

/-- **Portions that are fetched from a file one after the other**, at later and later moments, each
from what the file holds by then. Reading starts at the offset, and the last read, at the moment
`ended`, fetches nothing. -/
inductive Fetched (held : Nat → Bytes) : Nat → Nat → List Bytes → Nat → Prop
  /-- There is nothing more to be fetched. -/
  | nothing {now offset ended : Nat} (hlater : now < ended) (hend : (held ended).length ≤ offset) :
    Fetched held now offset [] ended
  /-- One more portion is fetched. -/
  | more {now offset moment ended : Nat} {portion : Bytes} {rest : List Bytes}
    (hlater : now < moment) (hne : portion ≠ [])
    (hfits : portion.length ≤ Reader.bufferSize)
    (hportion : portion <+: (held moment).drop offset)
    (hrest : Fetched held moment (offset + portion.length) rest ended) :
    Fetched held now offset (portion :: rest) ended

namespace Fetched

variable {held : Nat → Bytes} {now offset ended : Nat} {portions : List Bytes}

theorem lt (h : Fetched held now offset portions ended) : now < ended := by
  induction h with
  | nothing hlater _ => exact hlater
  | more hlater _ _ _ _ ih => exact Nat.lt_trans hlater ih

/-- A reader with these portions is read in one go for each of them. -/
theorem drain (h : Fetched held now offset portions ended) :
    Reader.drain ⟨portions, none⟩ = ⟨portions.flatten, none⟩ := by
  induction h with
  | nothing _ _ => exact Reader.drain_of_read_nil rfl
  | @more now offset moment ended portion rest _ hne hfits _ _ ih =>
    have hread : Reader.read ⟨portion :: rest, none⟩ = .ok (portion, ⟨rest, none⟩) := if_pos hfits
    rw [Reader.drain_of_read hne hread, ih]
    rfl

/-- **A file that stands still is read as it is.** -/
theorem flatten_eq (h : Fetched held now offset portions ended) {content : Bytes}
    (hheld : ∀ moment, now < moment → moment ≤ ended → held moment = content) :
    portions.flatten = content.drop offset := by
  induction h with
  | nothing hlater hend =>
    rw [hheld _ hlater (Nat.le_refl _)] at hend
    exact (List.drop_of_length_le hend).symm
  | @more now offset moment ended portion rest hlater _ _ hportion hrest ih =>
    obtain ⟨tail, htail⟩ := hportion
    rw [hheld moment hlater (Nat.le_of_lt hrest.lt)] at htail
    rw [List.flatten_cons, ih fun later hlater' => hheld later (Nat.lt_trans hlater hlater'),
      ← htail, ← List.drop_drop, ← htail, List.drop_left]

end Fetched

/-- How a file is read to its end that was opened at some moment. -/
structure FileReading (opened : Nat) where
  /-- What the open file holds at each moment. -/
  held : Nat → Bytes
  /-- The portions that are fetched. -/
  portions : List Bytes
  /-- The moment of the last read. -/
  ended : Nat
  /-- The portions are fetched from the beginning of the file. -/
  fetched : Fetched held opened 0 portions ended

namespace FileReading

/-- A content cut into portions that fit a buffer, so many at most. -/
def slices : Nat → Bytes → List Bytes
  | 0, _ => []
  | count + 1, content =>
    if content = [] then []
    else content.take Reader.bufferSize :: slices count (content.drop Reader.bufferSize)

theorem fetched_slices (content : Bytes) {count : Nat} (now offset : Nat)
    (h : (content.drop offset).length ≤ count) :
    Fetched (fun _ => content) now offset (slices count (content.drop offset))
      (now + (slices count (content.drop offset)).length + 1) := by
  induction count generalizing now offset with
  | zero =>
    rw [List.length_drop] at h
    exact .nothing (by omega) (by omega)
  | succ count ih =>
    rw [slices]
    split_ifs with hnil
    · exact .nothing (by omega) (List.drop_eq_nil_iff.1 hnil)
    · have hpos : 0 < (content.drop offset).length := List.length_pos_iff.2 hnil
      have htake : 0 < ((content.drop offset).take Reader.bufferSize).length := by
        rw [List.length_take, Reader.bufferSize]
        omega
      refine .more (Nat.lt_succ_self now) (List.length_pos_iff.1 htake) (List.length_take_le _ _)
        (List.take_prefix _ _) ?_
      -- What the next portion begins with is what this one has left.
      have hrest : (content.drop offset).drop Reader.bufferSize =
          content.drop (offset + ((content.drop offset).take Reader.bufferSize).length) := by
        rw [List.drop_drop, List.length_take]
        rcases Nat.le_total Reader.bufferSize (content.drop offset).length with hle | hle
        · rw [Nat.min_eq_left hle]
        · rw [Nat.min_eq_right hle, List.drop_of_length_le (by rw [List.length_drop] at hle; omega),
            List.drop_of_length_le (by rw [List.length_drop]; omega)]
      rw [hrest, List.length_cons, show ∀ n, now + (n + 1) + 1 = now + 1 + n + 1 by omega]
      refine ih (now + 1) _ ?_
      rw [← hrest, List.length_drop]
      rw [Reader.bufferSize] at htake ⊢
      omega

/-- A file that nobody writes to while it is open. -/
def ofContent (content : Bytes) (opened : Nat) : FileReading opened where
  held _ := content
  portions := slices content.length content
  ended := opened + (slices content.length content).length + 1
  fetched := fetched_slices content opened 0 (Nat.le_refl _)

end FileReading

/-! ### Timelines -/

/-- **A world that goes on changing**, and how files are read in it. -/
structure Timeline where
  /-- The world at each moment. -/
  world : Nat → World
  /-- How what a path leads to is read, if it is a file and is opened at this moment. -/
  reading : (opened : Nat) → Path → FileReading opened
  /-- A file holds its content when it is opened. -/
  held_opened : ∀ opened p content modified,
    (world opened).find true p = .ok (.file content modified) →
      (reading opened p).held opened = content

namespace Timeline

/-- A timeline in which nobody writes to an open file. -/
def ofWorlds (world : Nat → World) : Timeline where
  world := world
  reading opened p :=
    match (world opened).find true p with
    | .ok (.file content _) => .ofContent content opened
    | _ => .ofContent [] opened
  held_opened opened p content modified h := by
    rw [h]
    rfl

theorem held_ofWorlds {world : Nat → World} {opened : Nat} {p : Path} {content : Bytes}
    {modified : Timestamp} (h : (world opened).find true p = .ok (.file content modified))
    (moment : Nat) :
    ((ofWorlds world).reading opened p).held moment = content := by
  unfold ofWorlds
  dsimp only
  rw [h]
  rfl

/-! ### A store in a timeline -/

/-- How far a store has come. -/
structure Stage (σ : Type) where
  /-- The moment of the next system call. -/
  now : Nat
  /-- What the store keeps. -/
  kept : σ

/-- The stage after a moment in which nothing is kept. -/
abbrev Stage.next {σ : Type} (s : Stage σ) : Stage σ := { s with now := s.now + 1 }

variable {σ : Type} (tl : Timeline) (M : Mirror σ)

/-- Asks the system for something, which takes a moment. -/
def ask {α : Type} (answer : World → α) : StateM (Stage σ) α := fun s =>
  (answer (tl.world s.now), s.next)

/-- Opens what a path leads to. What is to be read later is known then, and the clock moves on to
after the last read. -/
def openReader (p : Path) : StateM (Stage σ) (Except OsError Reader) := fun s =>
  match (tl.world s.now).find true p with
  | .ok (.file _ _) =>
    (.ok ⟨(tl.reading s.now p).portions, none⟩, { s with now := (tl.reading s.now p).ended + 1 })
  | _ => tl.ask (·.openReader p) s

/-- The system calls in a timeline. -/
def calls : Calls (StateM (Stage σ)) where
  workingDirectory := tl.ask World.workingDirectory
  stat p := tl.ask (·.stat p)
  linkStat p := tl.ask (·.linkStat p)
  list p := tl.ask (·.list p)
  identify p := tl.ask (·.locate true p)
  openReader p := tl.openReader p

/-- Does something with what is kept, which takes no time. -/
def keeping {α : Type} (act : StateM σ α) : StateM (Stage σ) α := fun s =>
  ((act s.kept).1, { s with kept := (act s.kept).2 })

/-- **A store at work in a timeline**, which keeps its values in a mirror. -/
def host : Host (StateM (Stage σ)) where
  calls := tl.calls
  stat := Host.statBy tl.calls
  hasher := .sha256 tl.calls
  entries := ⟨fun key => keeping (M.lookUpEntry key), fun _ e => keeping (M.putEntry e)⟩
  trees := ⟨fun key => keeping (M.lookUpTree key), fun _ t => keeping (M.putTree t)⟩
  aggregates :=
    ⟨fun key => keeping (M.lookUpAggregate key), fun key a => keeping (M.putAggregate key a)⟩
  intern _ := return
  keeping _ act := act
  exclusively _ _ act := act

/-! ### What is read -/

/-- **What is read of what a path leads to**, opened at one moment and read to its end at
another. -/
inductive Reads (p : Path) (opened : Nat) : Nat → Bytes → Prop
  /-- A file is read in portions. -/
  | file {content : Bytes} {modified : Timestamp}
    (hnode : (tl.world opened).find true p = .ok (.file content modified)) :
    Reads p opened (tl.reading opened p).ended (tl.reading opened p).portions.flatten
  /-- Of what is neither a file nor a directory there is nothing to be read. -/
  | other {node : Node} (hnode : (tl.world opened).find true p = .ok node)
    (hfile : node.kind ≠ .file) (hdirectory : node.kind ≠ .directory) : Reads p opened opened []

variable {tl M} {p : Path}

theorem Reads.le {opened ended : Nat} {bytes : Bytes} (h : tl.Reads p opened ended bytes) :
    opened ≤ ended := by
  cases h with
  | file => exact Nat.le_of_lt (tl.reading opened p).fetched.lt
  | other => exact Nat.le_refl _

/-- A file that stands still while it is read is read as it is. -/
theorem Reads.eq_of_held {opened ended : Nat} {bytes content : Bytes} {modified : Timestamp}
    (h : tl.Reads p opened ended bytes)
    (hnode : (tl.world opened).find true p = .ok (.file content modified))
    (hheld : ∀ moment, opened < moment → moment ≤ ended →
      (tl.reading opened p).held moment = content) :
    bytes = content := by
  cases h with
  | file => exact (tl.reading opened p).fetched.flatten_eq hheld
  | other hnode' hfile =>
    rw [hnode] at hnode'
    cases hnode'
    exact absurd rfl hfile

/-- What comes of hashing what a path leads to. -/
inductive Hashes (tl : Timeline) (p : Path) (s : Stage σ) : Except Error Digest × Stage σ → Prop
  /-- It cannot be opened. -/
  | refused {e : OsError} (hfind : (tl.world s.now).find true p = .error e) :
    Hashes tl p s (.error (.ofOs p.display e), s.next)
  /-- It is a directory and cannot be read. -/
  | directory {modified : Timestamp}
    (hfind : (tl.world s.now).find true p = .ok (.directory modified)) :
    Hashes tl p s (.error (.ofOs p.display .isDirectory), s.next)
  /-- It is read to its end. -/
  | read {ended : Nat} {bytes : Bytes} (hreads : tl.Reads p s.now ended bytes) :
    Hashes tl p s (.ok (.ofMessage bytes), { s with now := ended + 1 })

theorem Hashes.le {s s' : Stage σ} {r : Except Error Digest} (h : tl.Hashes p s (r, s')) :
    s.now ≤ s'.now := by
  cases h with
  | refused => exact Nat.le_succ _
  | directory => exact Nat.le_succ _
  | read hreads => exact Nat.le_succ_of_le hreads.le

/-- The digest of a file that stands still while it is read is that of its content. -/
theorem Hashes.eq_of_file {s s' : Stage σ} {r : Except Error Digest} (h : tl.Hashes p s (r, s'))
    {content : Bytes} {modified : Timestamp}
    (hnode : (tl.world s.now).find true p = .ok (.file content modified))
    (hheld : ∀ moment, s.now < moment → (tl.reading s.now p).held moment = content) :
    r = .ok (.ofMessage content) := by
  cases h with
  | refused hfind =>
    rw [hnode] at hfind
    cases hfind
  | directory hfind =>
    rw [hnode] at hfind
    cases hfind
  | read hreads => rw [hreads.eq_of_held hnode fun moment hlt _ => hheld moment hlt]

theorem run_liftM {ε α : Type} (x : StateM (Stage σ) α) (s : Stage σ) :
    (liftM x : ExceptT ε (StateM (Stage σ)) α).run s = (.ok (x s).1, (x s).2) := rfl

theorem run_openFile (s : Stage σ) :
    (openFile tl.calls p).run s =
      ((tl.openReader p s).1.mapError (Error.ofOs p.display), (tl.openReader p s).2) := by
  unfold openFile
  rw [run_bind_of_ok (run_liftM (tl.calls.openReader p) s)]
  dsimp only [calls]
  rcases (tl.openReader p s).1 with e | reader
  · rfl
  · rfl

/-- **Hashing takes the content from after the moment at which the file is opened.** -/
theorem hash_cases (seen : Metadata) (s : Stage σ) :
    tl.Hashes p s (((Hasher.sha256 tl.calls).file p seen) s) := by
  have hrun : ∀ r s', tl.openReader p s = (.ok r, s') →
      ((Hasher.sha256 tl.calls).file p seen) s = (r.digest p.display, s') := by
    intro r s' hopen
    have hread : (openFile tl.calls p).run s = (.ok r, s') := by
      rw [run_openFile, hopen]
      rfl
    exact (run_bind_of_ok hread).trans rfl
  have hask : ∀ (answer : Except OsError Reader), (∀ content modified,
      (tl.world s.now).find true p ≠ .ok (.file content modified)) →
      (tl.world s.now).openReader p = answer →
      tl.openReader p s = (answer, s.next) := by
    rintro answer hfile rfl
    unfold openReader
    split
    · exact absurd ‹_› (hfile _ _)
    · rfl
  rcases hfind : (tl.world s.now).find true p with e | node
  · have hopen := hask (.error e) (by simp [hfind]) (by rw [World.openReader, hfind]; rfl)
    have hread : (openFile tl.calls p).run s = (.error (.ofOs p.display e), s.next) := by
      rw [run_openFile, hopen]
      rfl
    rw [show ((Hasher.sha256 tl.calls).file p seen) s = _ from run_bind_of_error hread]
    exact .refused hfind
  · cases node with
    | file content modified =>
      have hopen : tl.openReader p s = (.ok ⟨(tl.reading s.now p).portions, none⟩,
          { s with now := (tl.reading s.now p).ended + 1 }) := by
        unfold openReader
        rw [hfind]
      rw [hrun _ _ hopen, Reader.digest, (tl.reading s.now p).fetched.drain]
      exact .read (.file hfind)
    | directory modified =>
      rw [hrun _ _ (hask _ (by simp [hfind]) (by rw [World.openReader, hfind]; rfl)), Reader.digest,
        Reader.drain_of_read_error rfl]
      exact .directory hfind
    | link target =>
      rw [hrun _ _ (hask _ (by simp [hfind]) (by rw [World.openReader, hfind]; rfl)),
        Reader.digest_ofBytes]
      exact .read (.other hfind (by rintro ⟨⟩) (by rintro ⟨⟩))
    | special modified =>
      rw [hrun _ _ (hask _ (by simp [hfind]) (by rw [World.openReader, hfind]; rfl)),
        Reader.digest_ofBytes]
      exact .read (.other hfind (by rintro ⟨⟩) (by rintro ⟨⟩))

/-! ### Keys and what is kept -/

variable (tl M)

theorem run_key (p : Path) (s : Stage σ) :
    ((tl.host M).key p).run s = ((tl.world s.now).keyOf p, s.next) := by
  unfold Host.key
  rw [run_bind_of_ok (run_liftM (tl.host M).calls.workingDirectory s)]
  dsimp only [host, calls, ask, World.keyOf]
  rcases p.canonical (tl.world s.now).workingDirectory with e | key
  · rfl
  · rfl

theorem now_keeping {α : Type} (put : α → StateM σ Unit) (_ : String) (a : α) (s : Stage σ) :
    (keeping (put a) s).2.now = s.now := rfl

/-- A value is found at the first or the second of two lookups. -/
def Offered {α : Type} (lookUp : StateM σ (Option α)) (kept : σ) (a : α) : Prop :=
  (lookUp kept).1 = some a ∨ (lookUp (lookUp kept).2).1 = some a

/-- **What is answered is kept already or computed now.** Either way the clock shows what it
should. -/
theorem run_cached_cases {α : Type} (lookUp : String → StateM σ (Option α))
    {store : String → α → StateM (Stage σ) Unit} (hstore : ∀ key a s, (store key a s).2.now = s.now)
    (production : Production) (key : String) (compute : ExceptT Failure (StateM (Stage σ)) α)
    (s : Stage σ) :
    (∃ a s', Offered (lookUp key) s.kept a ∧ s'.now = s.now ∧
      ((tl.host M).cached ⟨fun key => keeping (lookUp key), store⟩ production key compute).run s
        = (.ok a, s')) ∨
      ∃ s₁ r s₂ s', s₁.now = s.now ∧ s'.now = s₂.now ∧ compute.run s₁ = (r, s₂) ∧
        ((tl.host M).cached ⟨fun key => keeping (lookUp key), store⟩ production key compute).run s
          = (r, s') := by
  rw [Host.run_cached fun _ => rfl]
  dsimp only [keeping]
  rcases hfirst : lookUp key s.kept with ⟨_ | a, kept⟩
  · dsimp only
    rcases hsecond : lookUp key kept with ⟨_ | a, kept'⟩
    · dsimp only
      right
      rcases hrun : compute.run { s with kept := kept' } with ⟨e | a, s₂⟩
      · exact ⟨{ s with kept := kept' }, .error e, s₂, s₂, rfl, rfl, hrun, rfl⟩
      · exact ⟨{ s with kept := kept' }, .ok a, s₂, (store key a s₂).2, rfl, hstore key a s₂,
          hrun, rfl⟩
    · refine Or.inl ⟨a, { s with kept := kept' }, Or.inr ?_, rfl, rfl⟩
      rw [hfirst]
      exact congrArg Prod.fst hsecond
  · exact Or.inl ⟨a, { s with kept := kept }, Or.inl (congrArg Prod.fst hfirst), rfl, rfl⟩

end Timeline

end SnapStore
