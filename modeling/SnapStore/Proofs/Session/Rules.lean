import SnapStore.Proofs.Session.Still

/-!
# Sessions with rules

The rules of a session make looks and digests fail, or answer otherwise than the world would. What
is computed in such a session is still a function: of the world and the rules. The
`SnapStore.Session.plainHost` of a session computes it and keeps nothing.

A session goes on like another one (`SnapStore.Session.IsLike`) as long as nobody changes its world
or sets a rule. A rule that has a snapshot taken before a look is dropped when it is obeyed, and
this makes no difference in what is seen (`SnapStore.Session.ruledStat_clear`). What does make a
difference is the snapshot, if it stores something. So of the two hosts of a session it is the inner
one that computes as the plain host does, whatever is known of the cache
(`SnapStore.Session.alikeHosts_innerHost`).
-/

namespace SnapStore.Session

/-! ### What is computed by the rules -/

/-- What is seen of a path by the rules. A rule that has a snapshot taken first changes nothing in
that. -/
def ruledStat (s : Session) (p : Path) : Except Failure Metadata :=
  if s.isWatched then
    match s.statRules.lookup p with
    | some (.answer seen) => .ok seen
    | some (.fail e) => .error (.error e)
    | _ => s.world.bareHost.stat p
  else s.world.bareHost.stat p

/-- What comes of a digest by the rules. -/
def ruledDigest (s : Session) (what : String) (digest : Except Error Digest) :
    Except Error Digest :=
  if s.isWatched then (s.hashRules.lookup what).elim digest .error else digest

/-- The hasher that goes by the rules. -/
def ruledHasher (s : Session) : Hasher Id where
  content what r := s.ruledDigest what (s.world.bareHost.hasher.content what r)
  file p seen := s.ruledDigest p.display (s.world.bareHost.hasher.file p seen)

/-- **The host that computes by the rules of a session** and keeps nothing. -/
def plainHost (s : Session) : Host Id :=
  { s.world.bareHost with stat := s.ruledStat, hasher := s.ruledHasher }

/-- What a computation of an entry gives. -/
def computedEntry (s : Session) (key : String) : Except Failure Entry :=
  (s.plainHost.observe key).run

/-- What a walk of a whole tree gives, from the path by which it is asked for. -/
def computedTree (s : Session) (key : String) (p : Path) : Except Failure TreeSnapshot :=
  (s.plainHost.walk (some key) ((DirectoryTree.all p).visit s.plainHost.calls.lift)).run

/-- A session is another one as far as it goes what is computed. Of its cache this is known. -/
structure IsLike (s₀ : Session) (P : Cache → Prop) (s : Session) : Prop where
  /-- The world is the same. -/
  world : s.world = s₀.world
  /-- Lookups are hidden from both or from none. -/
  isBlind : s.isBlind = s₀.isBlind
  /-- Both are watched, or none. -/
  isWatched : s.isWatched = s₀.isWatched
  /-- The same is seen. -/
  ruledStat : ∀ p, s.ruledStat p = s₀.ruledStat p
  /-- The same digests fail. -/
  hashRules : s.hashRules = s₀.hashRules
  /-- What is known of the cache. -/
  cache : P s.cache

variable {s₀ s : Session} {P : Cache → Prop} {c : Cache}

theorem isLike_self (h : P s.cache) : IsLike s P s := ⟨rfl, rfl, rfl, fun _ => rfl, rfl, h⟩

theorem IsLike.mono {Q : Cache → Prop} (hs : IsLike s₀ P s) (h : P s.cache → Q s.cache) :
    IsLike s₀ Q s :=
  ⟨hs.world, hs.isBlind, hs.isWatched, hs.ruledStat, hs.hashRules, h hs.cache⟩

/-- Counts, shared keys and what is held have no part in it, and the cache is as it may be. -/
theorem IsLike.update {Q : Cache → Prop} (hs : IsLike s₀ P s) {cache : Cache} (h : Q cache)
    (lookups : Nat) (interner : Interner) (held : List String) (asked : CallCounts) :
    IsLike s₀ Q { s with cache, lookups, interner, held, asked } :=
  ⟨hs.world, hs.isBlind, hs.isWatched, hs.ruledStat, hs.hashRules, h⟩

/-! ### Looks and digests -/

theorem isLike_now : (holding (IsLike s₀ P)).Rel now s₀.world := fun _ hs => ⟨hs.world, hs⟩

theorem alikeCalls_isLike : (holding (IsLike s₀ P)).AlikeCalls systemCalls (.still s₀.world) :=
  Relator.calls_live isLike_now

theorem isLike_look (p : Path) :
    (holding (IsLike s₀ P)).Rel (look p) (s₀.world.bareHost.stat p) :=
  Relator.statBy alikeCalls_isLike p

/-- A session that is set is the session from then on. -/
theorem run_stateSet (s' s : Session) : (StateT.set s' : Run PUnit) s = (⟨⟩, s') := rfl

/-- A look by the rules, step by step. -/
theorem run_watchedLook (before : Path → Run (Except Failure Unit)) (p : Path) (s : Session) :
    watchedLook before p s =
      if s.isWatched then
        let s' := { s with asked := { s.asked with looks := s.asked.looks + 1 } }
        match s.statRules.lookup p with
        | none => look p s'
        | some (.answer seen) => (.ok seen, s')
        | some (.fail e) => (.error (.error e), s')
        | some .reenter =>
          match before p (clearStatRule p s').2 with
          | (.ok (), s'') => look p s''
          | (.error e, s'') => (.error e, s'')
      else look p s := by
  obtain ⟨world, cache, isBlind, lookups, interner, held, isWatched, asked, statRules,
    hashRules⟩ := s
  cases isWatched with
  | false => rfl
  | true =>
    rcases hrule : statRules.lookup p with _ | ⟨seen⟩ | e | _
    all_goals
      simp only [watchedLook, bind, StateT.bind, get, getThe, MonadStateOf.get, StateT.get, pure,
        Bool.not_true, Bool.false_eq_true, if_false, if_true, set, MonadStateOf.set, run_stateSet,
        hrule]
    · rfl
    · rfl
    · rcases clearStatRule p _ with ⟨_, s₁⟩
      dsimp only
      rcases before p s₁ with ⟨_ | _, s₂⟩ <;> rfl

/-- So is a digest. -/
theorem run_watchedDigest (what : String) (compute : Run (Except Error Digest)) (s : Session) :
    watchedDigest what compute s =
      if s.isWatched then
        let s' := { s with asked := { s.asked with digests := s.asked.digests + 1 } }
        match s.hashRules.lookup what with
        | none => compute s'
        | some e => (.error e, s')
      else compute s := by
  obtain ⟨world, cache, isBlind, lookups, interner, held, isWatched, asked, statRules,
    hashRules⟩ := s
  cases isWatched with
  | false => rfl
  | true =>
    rcases hrule : hashRules.lookup what with _ | e
    all_goals
      simp only [watchedDigest, bind, StateT.bind, get, getThe, MonadStateOf.get, StateT.get, pure,
        Bool.not_true, Bool.false_eq_true, if_false, if_true, set, MonadStateOf.set, run_stateSet,
        hrule]
    rfl

/-- A rule that has a snapshot taken first can be dropped, and the same is seen. -/
theorem ruledStat_clear {p : Path} (hrule : s.statRules.lookup p = some .reenter) (q : Path) :
    (clearStatRule p s).2.ruledStat q = s.ruledStat q := by
  have hlookup : (clearStatRule p s).2.statRules.lookup q =
      if q = p then none else s.statRules.lookup q := by
    change (s.statRules.filter (·.1 ≠ p)).lookup q = _
    clear hrule
    induction s.statRules with
    | nil => simp
    | cons r rules ih =>
      by_cases hr : r.1 = p
      · rw [List.filter_cons_of_neg (by simpa using hr), ih, List.lookup_cons, hr]
        split_ifs with hq
        · rfl
        · rw [beq_false_of_ne hq]
      · rw [List.filter_cons_of_pos (by simpa using hr), List.lookup_cons, List.lookup_cons, ih]
        split_ifs with hq
        · rw [hq, beq_false_of_ne (Ne.symm hr)]
        · rfl
  unfold ruledStat
  rw [hlookup, show (clearStatRule p s).2.world = s.world from rfl,
    show (clearStatRule p s).2.isWatched = s.isWatched from rfl]
  by_cases hq : q = p
  · rw [if_pos hq, hq, hrule]
  · rw [if_neg hq]

/-- **A look goes by the rules**, if nothing is done before it. -/
theorem isLike_watchedLook (p : Path) :
    (holding (IsLike s₀ P)).Rel (watchedLook (fun _ => return .ok ()) p) (s₀.ruledStat p) := by
  intro s hs
  have hcount : ∀ asked, IsLike s₀ P { s with asked := asked } :=
    fun asked => hs.update hs.cache s.lookups s.interner s.held asked
  have hlook : (holding (IsLike s₀ P)).Rel (look p) (s.world.bareHost.stat p) := by
    rw [hs.world]
    exact isLike_look p
  rw [run_watchedLook, ← hs.ruledStat p, ruledStat]
  by_cases hwatched : s.isWatched = true
  · rw [if_pos hwatched, if_pos hwatched]
    rcases hrule : s.statRules.lookup p with _ | ⟨seen⟩ | e | _
    · exact hlook _ (hcount _)
    · exact ⟨rfl, hcount _⟩
    · exact ⟨rfl, hcount _⟩
    · refine hlook _ ?_
      have hclear :=
        ruledStat_clear (s := { s with asked := ⟨s.asked.looks + 1, s.asked.digests⟩ }) hrule
      exact ⟨hs.world, hs.isBlind, hs.isWatched, fun q => (hclear q).trans (hs.ruledStat q),
        hs.hashRules, hs.cache⟩
  · rw [if_neg hwatched, if_neg hwatched]
    exact hlook s hs

theorem isLike_watchedDigest (what : String) {compute : Run (Except Error Digest)}
    {digest : Except Error Digest} (h : (holding (IsLike s₀ P)).Rel compute digest) :
    (holding (IsLike s₀ P)).Rel (watchedDigest what compute) (s₀.ruledDigest what digest) := by
  intro s hs
  have hcount : ∀ asked, IsLike s₀ P { s with asked := asked } :=
    fun asked => hs.update hs.cache s.lookups s.interner s.held asked
  rw [run_watchedDigest, ruledDigest, ← hs.isWatched, ← hs.hashRules]
  by_cases hwatched : s.isWatched = true
  · rw [if_pos hwatched, if_pos hwatched]
    rcases s.hashRules.lookup what with _ | e
    · exact h _ (hcount _)
    · exact ⟨rfl, hcount _⟩
  · rw [if_neg hwatched, if_neg hwatched]
    exact h s hs

theorem alikeHashers_isLike : (holding (IsLike s₀ P)).AlikeHashers hasher s₀.ruledHasher where
  content what r := isLike_watchedDigest what ((Relator.sha256 alikeCalls_isLike).content what r)
  file p seen := isLike_watchedDigest _ ((Relator.sha256 alikeCalls_isLike).file p seen)

/-- **Whatever the cache holds, a host computes as the plain one does**, if its looks do nothing
else. -/
theorem alikeHosts_innerHost : (holding (IsLike s₀ P)).AlikeHosts innerHost s₀.plainHost where
  calls := alikeCalls_isLike
  stat := isLike_watchedLook
  hasher := alikeHashers_isLike
  intern _ := fun s hs => ⟨rfl, hs.update hs.cache s.lookups _ _ s.asked⟩

end SnapStore.Session
