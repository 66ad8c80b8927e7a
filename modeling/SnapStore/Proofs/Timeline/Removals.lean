import SnapStore.Proofs.Timeline.Leftovers

/-!
# Walks while things are removed

Between any two system calls of a walk others may remove files, links and whole directories, the
root of the walk included. The walk does not fail. Whatever it does not find any more it passes
over, and a file that is gone when it is to be hashed is reported as missing. What is answered is
left of the tree of the world at the beginning, and this is
`SnapStore.Timeline.snapshotTree_survives`.

The walk is compared with its own course in the world at the beginning, step by step
(`SnapStore.Timeline.Survives`). A step may collect less than the course reports, never more, and in
the same order. It survives for one of two reasons. What it comes upon has vanished, and then it is
passed over whatever the course has there; or the system answers as it did at the beginning, and
then the step does what the course does, which comes to its end without a failure. The second is why
no loop is found either that was not there before: a link and the directories that the walk is
inside of are where they were, or are gone (`SnapStore.Timeline.finds_arrive`).
-/

namespace SnapStore.Timeline

open DirectoryTree World

variable {σ : Type} {tl : Timeline} {M : Mirror σ} {s : Stage σ} {start : Nat} {α β γ : Type}

/-! ### Steps of a walk -/

/-- **A step of a walk survives removals**, with this value. If the course does not fail, and
makes an entry of every report, then the step collects what is left of these entries. -/
def Survives (tl : Timeline) (start : Nat) (x : ExceptT Failure (Collecting (StateM (Stage σ))) α)
    (a : α) (c : Course) : Prop :=
  c.ending = none → (∀ r ∈ c.reports, ∃ e, r.IsSettled (tl.world start) e) →
    ∀ s : Stage σ, start ≤ s.now → Comes x s fun r new s' =>
      r = .ok a ∧ s.now ≤ s'.now ∧ new.SublistForall₂ (tl.Leftover start s'.now) c.reports

theorem sublistForall₂_imp {R S : α → β → Prop} (hRS : ∀ a b, R a b → S a b) {xs : List α}
    {ys : List β} (h : xs.SublistForall₂ R ys) : xs.SublistForall₂ S ys := by
  obtain ⟨kept, hkept, hsub⟩ := List.sublistForall₂_iff.1 h
  exact List.sublistForall₂_iff.2 ⟨kept, hkept.imp hRS, hsub⟩

theorem sublistForall₂_trans {R : α → β → Prop} {S : β → γ → Prop} {T : α → γ → Prop}
    (hT : ∀ a b c, R a b → S b c → T a c) {xs : List α} {ys : List β} {zs : List γ}
    (h : xs.SublistForall₂ R ys) (h' : List.Forall₂ S ys zs) : xs.SublistForall₂ T zs := by
  induction h generalizing zs with
  | nil => exact .nil
  | cons hab _ ih =>
    obtain ⟨c, zs, hbc, hys, rfl⟩ := List.forall₂_cons_left_iff.1 h'
    exact .cons (hT _ _ _ hab hbc) (ih hys)
  | cons_right _ ih =>
    obtain ⟨c, zs, -, hys, rfl⟩ := List.forall₂_cons_left_iff.1 h'
    exact .cons_right (ih hys)

theorem sublistForall₂_append {R : α → β → Prop} {xs xs' : List α} {ys ys' : List β}
    (h : xs.SublistForall₂ R ys) (h' : xs'.SublistForall₂ R ys') :
    (xs ++ xs').SublistForall₂ R (ys ++ ys') := by
  obtain ⟨kept, hkept, hsub⟩ := List.sublistForall₂_iff.1 h
  obtain ⟨kept', hkept', hsub'⟩ := List.sublistForall₂_iff.1 h'
  exact List.sublistForall₂_iff.2 ⟨kept ++ kept', List.rel_append hkept hkept', hsub.append hsub'⟩

namespace Survives

variable {x : ExceptT Failure (Collecting (StateM (Stage σ))) α}
  {f : α → ExceptT Failure (Collecting (StateM (Stage σ))) β} {a : α} {b : β} {c d : Course}

/-- Whatever was to be reported, nothing is left of it. -/
theorem pure (a : α) (c : Course) :
    Survives tl start (Pure.pure a : ExceptT Failure (Collecting (StateM (Stage σ))) α) a c :=
  fun _ _ _ _ => .pure ⟨rfl, Nat.le_refl _, .nil⟩

theorem bind (hx : Survives tl start x a c) (hf : Survives tl start (f a) b d) :
    Survives tl start (x >>= f) b (c.andThen d) := by
  intro hending hsettled s hs
  obtain ⟨hc, hd⟩ := Course.ending_andThen.1 hending
  rw [Course.andThen_of_ending hc] at hsettled ⊢
  obtain ⟨hcs, hds⟩ := List.forall_mem_append.1 hsettled
  refine (hx hc hcs s hs).bind ?_ ?_
  · rintro _ new s' ⟨ha, hle, hnew⟩
    cases ha
    refine (hf hd hds s' (Nat.le_trans hs hle)).imp ?_
    rintro r more s'' ⟨hr, hle', hmore⟩
    exact ⟨hr, Nat.le_trans hle hle',
      sublistForall₂_append (sublistForall₂_imp (fun _ _ h => h.mono hle') hnew) hmore⟩
  · rintro _ _ _ ⟨ha, -⟩
    cases ha

/-- A part of the course may be left out. -/
theorem skip (c : Course) (hx : Survives tl start x a d) : Survives tl start x a (c.andThen d) := by
  have h : Survives tl start ((Pure.pure () : ExceptT Failure _ Unit) >>= fun _ => x) a
      (c.andThen d) :=
    (pure () c).bind hx
  rwa [pure_bind] at h

/-- A system call sees a world in which less is left. -/
theorem ask (answer : World → α)
    (hf : ∀ i, start ≤ i → Survives tl start (f (answer (tl.world i))) b c) :
    Survives tl start ((liftM (StateT.lift (tl.ask answer) : Collecting (StateM (Stage σ)) α) :
      ExceptT Failure (Collecting (StateM (Stage σ))) α) >>= f) b c := by
  intro hending hsettled s hs
  refine Comes.bind_quiet (.lift ⟨rfl, _, rfl, ?_⟩)
  refine (hf s.now hs hending hsettled s.next (Nat.le_succ_of_le hs)).imp ?_
  rintro r new s' ⟨hr, hle, hnew⟩
  exact ⟨hr, Nat.le_of_succ_le hle, hnew⟩

/-- What has vanished is passed over, whatever was to be reported. -/
theorem vanished {t : DirectoryTree} {fault : WalkFault} (h : fault.isVanished = true)
    (c : Course) :
    Survives tl start
      (t.raise fault : ExceptT Failure (Collecting (StateM (Stage σ))) Unit) () c := by
  unfold raise
  rw [if_pos h]
  exact .pure () c

/-- A fault that the course has as well is one of something that has vanished. -/
theorem raise (t : DirectoryTree) (fault : WalkFault) :
    Survives tl start (t.raise fault : ExceptT Failure (Collecting (StateM (Stage σ))) Unit) ()
      (t.faultCourse fault) := by
  by_cases h : fault.isVanished = true
  · exact vanished h _
  · intro hending
    rw [faultCourse, if_neg h] at hending
    cases hending

/-- Some of the names are left, and the walk goes through them in order. -/
theorem forM {xs ys : List α} (hsub : xs.Sublist ys)
    {f : α → ExceptT Failure (Collecting (StateM (Stage σ))) Unit} {g : α → Course}
    (hf : ∀ y ∈ ys, Survives tl start (f y) () (g y)) :
    Survives tl start (xs.forM f) () (.all (ys.map g)) := by
  induction hsub with
  | slnil => exact pure () _
  | cons y _ ih =>
    exact skip (g y) (ih fun y' hy' => hf y' (List.mem_cons_of_mem _ hy'))
  | cons_cons y _ ih =>
    exact (hf y (by simp)).bind (ih fun y' hy' => hf y' (List.mem_cons_of_mem _ hy'))

end Survives

/-! ### Links -/

/-- **A link is resolved as at the beginning**, or else something on the way has vanished. Nothing
is collected meanwhile. -/
def Finds (start : Nat) (x : ExceptT WalkFault (Collecting (StateM (Stage σ))) α)
    (y : Except WalkFault α) : Prop :=
  ∀ s : Stage σ, start ≤ s.now → Comes x s fun r new s' =>
    new = [] ∧ s.now ≤ s'.now ∧ (r = y ∨ ∃ fault, r = .error fault ∧ fault.isVanished = true)

namespace Finds

variable {x : ExceptT WalkFault (Collecting (StateM (Stage σ))) α}
  {f : α → ExceptT WalkFault (Collecting (StateM (Stage σ))) β} {y : Except WalkFault α}
  {z : Except WalkFault β}

theorem pure (a : α) :
    Finds start (Pure.pure a : ExceptT WalkFault (Collecting (StateM (Stage σ))) α) (.ok a) :=
  fun _ _ => .pure ⟨rfl, Nat.le_refl _, Or.inl rfl⟩

theorem throw (fault : WalkFault) :
    Finds start (throw fault : ExceptT WalkFault (Collecting (StateM (Stage σ))) α)
      (.error fault) :=
  fun _ _ => .throw ⟨rfl, Nat.le_refl _, Or.inl rfl⟩

theorem vanished {fault : WalkFault} (h : fault.isVanished = true) (y : Except WalkFault α) :
    Finds start (MonadExcept.throw fault : ExceptT WalkFault (Collecting (StateM (Stage σ))) α) y :=
  fun _ _ => .throw ⟨rfl, Nat.le_refl _, Or.inr ⟨fault, rfl, h⟩⟩

theorem map (hx : Finds start x y) (b : β) :
    Finds start (x >>= fun _ => Pure.pure b) (y.map fun _ => b) := by
  refine fun s hs => (hx s hs).bind ?_ ?_
  · rintro a new s' ⟨rfl, hle, hy | ⟨_, ha, -⟩⟩
    · exact .pure ⟨rfl, hle, Or.inl (by rw [← hy]; rfl)⟩
    · cases ha
  · rintro fault new s' ⟨rfl, hle, hy | ⟨fault', he, hfault⟩⟩
    · exact ⟨rfl, hle, Or.inl (by rw [← hy]; rfl)⟩
    · cases he
      exact ⟨rfl, hle, Or.inr ⟨fault, rfl, hfault⟩⟩

theorem ask (answer : World → α) (hf : ∀ i, start ≤ i → Finds start (f (answer (tl.world i))) z) :
    Finds start ((liftM (StateT.lift (tl.ask answer) : Collecting (StateM (Stage σ)) α) :
      ExceptT WalkFault (Collecting (StateM (Stage σ))) α) >>= f) z := by
  intro s hs
  refine Comes.bind_quiet (.lift ⟨rfl, _, rfl, ?_⟩)
  refine (hf s.now hs s.next (Nat.le_succ_of_le hs)).imp ?_
  rintro r new s' ⟨hnew, hle, hr⟩
  exact ⟨hnew, Nat.le_of_succ_le hle, hr⟩

end Finds

/-- The step that follows is taken after the link was resolved, or after something was found to have
vanished. -/
theorem Survives.found {x : ExceptT WalkFault (Collecting (StateM (Stage σ))) α}
    {y : Except WalkFault α} (hx : Finds start x y)
    {f : Except WalkFault α → ExceptT Failure (Collecting (StateM (Stage σ))) β} {b : β}
    {c : Course}
    (hvanished : ∀ fault, fault.isVanished = true → Survives tl start (f (.error fault)) b c)
    (hfound : Survives tl start (f y) b c) :
    Survives tl start
      ((liftM x.run : ExceptT Failure (Collecting (StateM (Stage σ))) _) >>= f) b c := by
  intro hending hsettled s hs
  refine Comes.bind_quiet (.run ((hx s hs).imp ?_))
  rintro found new s' ⟨rfl, hle, hy⟩
  have hlater : Survives tl start (f found) b c := by
    rcases hy with rfl | ⟨fault, rfl, hfault⟩
    · exact hfound
    · exact hvanished fault hfault
  refine ⟨rfl, found, rfl, (hlater hending hsettled s' (Nat.le_trans hs hle)).imp ?_⟩
  rintro r more s'' ⟨hr, hle', hmore⟩
  exact ⟨hr, Nat.le_trans hle hle', hmore⟩

section Walking

variable (htl : tl.OnlyRemoves start)

include htl

theorem finds_findLoop (child : Path) (spot : Spot) {inside : List Path}
    (hinside : ∀ a ∈ inside, a.isAbsolute = true) :
    Finds start (findLoop (tl.walkCalls σ) child spot inside)
      (findLoop (.still (tl.world start)) child spot inside).run := by
  induction inside with
  | nil => exact .pure ()
  | cons a inside ih =>
    obtain ⟨ha, hinside⟩ := List.forall_mem_cons.1 hinside
    have hidentify : (Calls.still (tl.world start)).identify a =
      (Pure.pure ((tl.world start).locate true a) : Id _) := rfl
    rw [findLoop, findLoop, hidentify, liftM_pure, pure_bind]
    refine .ask (·.locate true a) fun i hi => ?_
    rcases (htl.isLeftOf hi).locate ha true with heq | hgone
    · rw [heq]
      rcases (tl.world start).locate true a with e | other
      · exact .throw _
      · dsimp only
        split_ifs
        · exact .throw _
        · exact ih hinside
    · rw [hgone]
      exact .vanished rfl _

theorem finds_arrive {inside : List Path} (hinside : ∀ a ∈ inside, a.isAbsolute = true)
    {path : Path} (hpath : path.isAbsolute = true) (listed : Kind) :
    Finds start (arrive (tl.walkCalls σ) inside path listed)
      (arrive (.still (tl.world start)) inside path listed).run := by
  rw [run_arrive]
  unfold arrive
  split_ifs
  · exact .pure _
  · refine .ask (·.stat path) fun i hi => ?_
    have hstat := (htl.isLeftOf hi).stat hpath
    generalize (tl.world i).stat path = answer' at hstat
    generalize (tl.world start).stat path = answer at hstat
    cases hstat with
    | gone => exact .vanished rfl _
    | refused e => exact .throw _
    | @found seen' seen hkind =>
      dsimp only
      rw [hkind]
      split_ifs
      · refine .ask (·.locate true path) fun j hj => ?_
        rcases (htl.isLeftOf hj).locate hpath true with heq | hgone
        · rw [heq]
          rcases (tl.world start).locate true path with e | spot
          · exact .throw _
          · exact (finds_findLoop htl path spot hinside).map _
        · rw [hgone]
          exact .vanished rfl _
      · exact .pure _

/-- What is reported of an entry of the whole tree. -/
theorem survives_report (root : Path) {e : Reached} (he : e.path.isAbsolute = true) :
    Survives tl start (report (tl.walkCalls σ) (.all root) (tl.host M).collector e)
      ((all root).enters e)
      (if (all root).shows e then (tl.world start).entryCourse e else .nothing) := by
  intro hending hsettled s hs
  refine comes_report (fun hshown => ?_) fun hhidden => ⟨rfl, Nat.le_refl _, .nil⟩
  rw [if_pos hshown] at hending hsettled ⊢
  rw [shows_all] at hshown
  rw [enters_all, hshown]
  rcases (htl.isLeftOf hs).entryCourse he hending with hgone |
    ⟨r, n', n, seen', hcourse, hcourse', hpath, hseen, hseen', hfind, hres⟩
  · rw [hgone, Course.replay_nothing]
    exact .pure ⟨rfl, Nat.le_succ _, .nil⟩
  · rw [hcourse', Course.replay_one]
    rw [hcourse] at hsettled ⊢
    obtain ⟨e₀, hr⟩ := hsettled r (List.mem_singleton_self r)
    have hmakes : ∀ {made s'}, tl.Makes { r with seen := seen' } s.next made s' →
        ∃ e, made = .ok e ∧ e.IsLeftOf tl start s'.now e₀ := fun h =>
      h.isLeftOf htl hr hs (Nat.lt_succ_self _) (hpath ▸ hfind) hres hseen hseen'
    refine comes_tell (fun e' s' h => ?_) fun err s' h => ?_
    · obtain ⟨_, he', hleft⟩ := hmakes h
      cases he'
      exact ⟨rfl, Nat.le_of_succ_le h.le, .cons ⟨e₀, hr, hleft⟩ .nil⟩
    · obtain ⟨_, he', -⟩ := hmakes h
      cases he'

/-- **So does the walk below a directory**, through the names that are left in it. -/
theorem survives_visitBelow (root : Path) {levels : Nat} {inside : List Path}
    (hinside : ∀ a ∈ inside, a.isAbsolute = true) {here : Path} (hhere : here.isAbsolute = true)
    {names : List Bytes} {listing' listing : Listing}
    (hlisting : Dwindled (fun listed' listed => (inOrder listed').Sublist (inOrder listed)) listing'
      listing) :
    Survives tl start
      (visitBelow (tl.walkCalls σ) (.all root) (tl.host M).collector levels inside here
        names listing') ()
      ((tl.world start).belowCourse (.all root) levels inside here names listing) := by
  induction levels generalizing inside here names listing' listing with
  | zero => exact .pure () _
  | succ levels ih =>
    cases hlisting with
    | gone => exact .vanished rfl _
    | refused e => exact .raise _ _
    | found hsub =>
      -- Names that are gone drop out, and of the others each is compared with itself.
      refine .forM hsub fun entry _ => ?_
      have hpath : (here.child entry.1).isAbsolute = true := by
        rw [Path.isAbsolute_child _ entry.1]
        · exact hhere
        · rintro hnil
          simp [Path.isAbsolute, hnil] at hhere
      refine .found (finds_arrive htl hinside hpath entry.2) (fun fault h => .vanished h _) ?_
      unfold reach
      rcases (arrive (.still (tl.world start)) inside (here.child entry.1) entry.2).run with
        fault | ⟨kind, isFollowed⟩
      · exact .raise _ _
      · -- A directory is listed before it is reported, so the listing is of an earlier world than
        -- the report.
        have hlater : ∀ listing', (kind = .directory → Dwindled
              (fun listed' listed => (inOrder listed').Sublist (inOrder listed)) listing'
              ((tl.world start).list (here.child entry.1))) → Survives tl start (do
            let goOn ← report (tl.walkCalls σ) (.all root) (tl.host M).collector
              ⟨here.child entry.1, names ++ [entry.1], kind, isFollowed⟩
            if kind = .directory && goOn then
              visitBelow (tl.walkCalls σ) (.all root) (tl.host M).collector levels
                (here.child entry.1 :: inside) (here.child entry.1)
                (names ++ [entry.1]) listing') ()
            ((tl.world start).reachedCourse (.all root)
              (fun e => (tl.world start).belowCourse (.all root) levels (e.path :: inside) e.path
                e.names ((tl.world start).list e.path))
              (.ok ⟨here.child entry.1, names ++ [entry.1], kind, isFollowed⟩)) := by
          intro listing' hlisting'
          refine (survives_report htl root hpath).bind ?_
          split_ifs with hdeeper
          · exact ih (List.forall_mem_cons.2 ⟨hpath, hinside⟩) hpath
              (hlisting' (by simpa using (Bool.and_eq_true_iff.1 hdeeper).1))
          · exact .pure () _
        dsimp only
        split_ifs with hkind
        · exact .ask (·.list (here.child entry.1)) fun i hi =>
            hlater _ fun _ => (htl.isLeftOf hi).list hpath
        · rw [pure_bind]
          exact hlater _ fun h => absurd h hkind

/-- **So does the walk through a directory**, which may be removed itself. -/
theorem survives_visitDirectory {root : Path} (hroot : root.isAbsolute = true) :
    Survives tl start (visitDirectory (tl.walkCalls σ) (.all root) (tl.host M).collector) ()
      ((tl.world start).directoryCourse (.all root)) := by
  refine .ask (·.linkStat root) fun i hi => ?_
  have hstat := (htl.isLeftOf hi).linkStat hroot
  unfold directoryCourse
  rw [show (all root).root = root from rfl]
  generalize (tl.world i).linkStat root = answer' at hstat ⊢
  generalize (tl.world start).linkStat root = answer at hstat ⊢
  cases hstat with
  | gone => exact .vanished rfl _
  | refused e => exact .raise _ _
  | @found seen' seen hkind =>
    dsimp only
    rw [hkind]
    refine .found (finds_arrive htl (List.forall_mem_nil _) hroot seen.kind)
      (fun fault h => .vanished h _) ?_
    rcases (arrive (.still (tl.world start)) [] root seen.kind).run with fault | ⟨kind, isFollowed⟩
    · exact .raise _ _
    · dsimp only
      split_ifs
      · exact .ask (·.list root) fun j hj =>
          survives_visitBelow htl root (List.forall_mem_singleton.2 hroot) hroot
            ((htl.isLeftOf hj).list hroot)
      · exact .pure () _

/-- **A walk survives removals** if it begins at what was a directory. -/
theorem survives_visit {root : Path} (hroot : root.isAbsolute = true)
    (hkind : ∀ seen, (tl.world start).stat root = .ok seen → seen.kind ≠ .file) :
    Survives tl start ((all root).visit (tl.walkCalls σ) (tl.host M).collector) ()
      ((tl.world start).course (.all root)) := by
  have hcourse : (tl.world start).course (.all root) =
      (tl.world start).directoryCourse (.all root) := by
    unfold course
    rw [show (all root).root = root from rfl]
    rcases hstat : (tl.world start).stat root with e | seen
    · rfl
    · exact if_neg (hkind seen hstat)
  rw [hcourse]
  refine .ask (·.stat root) fun i hi => ?_
  have hstat := (htl.isLeftOf hi).stat hroot
  generalize (tl.world i).stat root = answer' at hstat
  generalize (tl.world start).stat root = answer at hstat hkind
  cases hstat with
  | gone => exact survives_visitDirectory htl hroot
  | refused e => exact survives_visitDirectory htl hroot
  | @found seen' seen hsame =>
    dsimp only
    rw [if_neg (hsame ▸ hkind seen rfl)]
    exact survives_visitDirectory htl hroot

end Walking

/-! ### Trees -/

/-- What is below a directory is reported under different paths, and makes entries. -/
theorem settled_course {w : World} (hw : w.IsWellNamed) {c : String}
    (hc : (Path.ofString c).canonical w.workingDirectory = .ok c) {node : Node}
    (hnode : w.find true (.ofString c) = .ok node) (hkind : node.kind = .directory) :
    (∀ r ∈ (w.course (.all (.ofString c))).reports, ∃ e, r.IsSettled w e) ∧
      ((w.course (.all (.ofString c))).reports.map Report.path).Nodup := by
  have hcovers :=
    covers_course hw (Path.toString?_ofString c ▸ rfl) (leadsToPlace_of_canonical hc) hnode hkind
  have hnames : ∀ r ∈ (w.course (.all (.ofString c))).reports,
      r.IsOf w (.ofString c) r.relative.names ∧ ∀ n ∈ r.relative.names, n.IsName := by
    intro r hr
    obtain ⟨ns, ⟨-, hreaches⟩, hof⟩ := hcovers.sound r hr
    rw [hof.relative]
    exact ⟨hof, isName_of_reaches hw hreaches⟩
  refine ⟨fun r hr => Report.IsSettled.of_isOf hc (hnames r hr).2 (hnames r hr).1, ?_⟩
  obtain ⟨ms, hms, -, -⟩ := Path.exists_names_of_canonical hc
  refine List.pairwise_map.2 (hcovers.sorted.imp_of_mem fun {a b} ha hb hab heq => ?_)
  -- Names that are joined on can be told from the path.
  rw [(hnames a ha).1.path, (hnames b hb).1.path] at heq
  have hbelow := Path.absoluteNames_below hms (hnames a ha).2
  rw [heq, Path.absoluteNames_below hms (hnames b hb).2, Except.ok.injEq,
    List.append_cancel_left_eq] at hbelow
  have hself : compare a.relative.names a.relative.names = .eq := Std.ReflCmp.compare_self
  rw [hbelow, hself] at hab
  cases hab

/-- **Removals never make a walk fail.** If the tree of a directory could be made of the world at
the beginning, and from then on things are only removed, then a store answers with a tree that it
has kept or with one that is left of that tree. -/
theorem snapshotTree_survives (M : Mirror σ) (htl : tl.OnlyRemoves s.now)
    (hw : (tl.world s.now).IsWellNamed) {c : String}
    (hc : (Path.ofString c).canonical (tl.world s.now).workingDirectory = .ok c) {node : Node}
    (hnode : (tl.world s.now).find true (.ofString c) = .ok node) (hkind : node.kind = .directory)
    {t₀ : TreeSnapshot}
    (h₀ : ((tl.world s.now).bareHost.snapshotTree (.all (.ofString c))).run = .ok t₀) :
    ∃ t s', ((tl.host M).snapshotTree (.all (.ofString c))).run s = (.ok t, s') ∧
      (Offered (M.lookUpTree c) s.kept t ∨ t.IsLeftOf tl s.now s'.now t₀) := by
  rw [World.bareHost_snapshotTree_of_canonical _ hc] at h₀
  obtain ⟨hending, hbase, hentries⟩ := of_treeOf _ h₀
  obtain ⟨hsettled, hdistinct⟩ := settled_course hw hc hnode hkind
  have hstat : ∀ seen, (tl.world s.now).stat (.ofString c) = .ok seen → seen.kind ≠ .file := by
    intro seen hseen
    rw [World.stat, hnode] at hseen
    cases hseen
    rw [node.kind_status, hkind]
    decide
  have hmade := Report.IsSettled.forall₂_of_mapM hsettled hentries
  have hvisit : ∀ s₁ : Stage σ, s₁.now = s.now + 1 →
      Comes ((all (.ofString c)).visit (tl.walkCalls σ) (tl.host M).collector) s₁ fun r new s' =>
        r = .ok () ∧ new.SublistForall₂ (Entry.IsLeftOf tl s.now s'.now) t₀.entries := by
    intro s₁ hnow
    refine (survives_visit htl (Path.isAbsolute_of_canonical hc) hstat hending hsettled s₁
      (by omega)).imp ?_
    rintro r new s' ⟨hr, -, hnew⟩
    -- The entries that the reports would have made are those of the tree.
    refine ⟨hr, sublistForall₂_trans ?_ hnew hmade⟩
    rintro e r e₀ ⟨e₀', hr', hleft⟩ hr
    rwa [hr.eq hr']
  have hdistinct' : (t₀.entries.map Entry.path).Nodup := by
    have hpaths : ((tl.world s.now).course (all (.ofString c))).reports.map Report.path =
        (t₀.entries.map Entry.path).map Path.ofString := by
      rw [List.map_map, ← List.forall₂_eq_eq_eq, List.forall₂_map_left_iff,
        List.forall₂_map_right_iff]
      exact hmade.imp fun _ _ h => h.path_eq
    rw [hpaths] at hdistinct
    exact hdistinct.of_map _
  rcases snapshotTree_cases hvisit with ⟨e, s', hkey, -⟩ | ⟨key, hkey, hrest⟩
  · change (Path.ofString c).canonical _ = _ at hkey
    rw [hc] at hkey
    cases hkey
  · change (Path.ofString c).canonical _ = _ at hkey
    rw [hc] at hkey
    cases hkey
    rcases hrest with ⟨kept, s', -, hoffered, hrun⟩ | ⟨r, new, s', s'', ⟨rfl, hnew⟩, hnow, hrun⟩
    · exact ⟨kept, s', hrun, Or.inl hoffered⟩
    · rw [← hnow] at hnew
      exact ⟨⟨some c, new⟩, s'', hrun, Or.inr (.of_sublist hbase.symm hdistinct' hnew)⟩

/-- In worlds of which each is left of the one before, nobody writing to an open file. -/
theorem onlyRemoves_ofWorlds {world : Nat → World}
    (h : ∀ i, start ≤ i → (world (i + 1)).IsLeftOf (world i)) :
    (ofWorlds world).OnlyRemoves start where
  step := h
  held opened p i _ _ := by
    unfold ofWorlds
    dsimp only
    split <;> rfl

/-- A walk whose root is removed while it is under way, with all that is in it. If this happens
before the metadata of the file is read, the file is left out, and if it happens after that, the
file is missing. -/
theorem snapshotTree_survives_of_lost_root :
    let before := (World.empty.apply (.write (.ofString "/d/a/f") [97] .epoch)).world
    let after := (before.apply (.remove (.ofString "/d"))).world
    let tl (k : Nat) : Timeline := .ofWorlds fun i => if i < k then before else after
    let answer (k : Nat) := ((tl k).host Cache.mirror |>.snapshotTree (.all (.ofString "/d"))).run
      ⟨0, .empty .all⟩
    let kinds (t : TreeSnapshot) := t.entries.map fun e => (e.path, e.fileType)
    ∃ t₀, (before.bareHost.snapshotTree (.all (.ofString "/d"))).run = .ok t₀ ∧
      kinds t₀ = [("/d/a", .directory), ("/d/a/f", .regularFile)] ∧
      (∀ k, 0 < k → ∃ t s', answer k = (.ok t, s') ∧ t.IsLeftOf (tl k) 0 s'.now t₀) ∧
      (answer 7).1.toOption.map kinds = some [("/d/a", .directory)] ∧
      (answer 9).1.toOption.map kinds = some [("/d/a", .directory), ("/d/a/f", .missing)] := by
  intro before after tl answer kinds
  have hkept : ∀ t, ¬ Offered (Cache.mirror.lookUpTree "/d") (.empty .all) t := by
    rintro t (h | h) <;> cases h
  have htl : ∀ k, (tl k).OnlyRemoves 0 := by
    refine fun k => onlyRemoves_ofWorlds fun i _ => ?_
    split_ifs
    · exact .refl before
    · omega
    · exact before.isLeftOf_remove _
    · exact .refl after
  have hw : before.IsWellNamed := World.isWellNamed_empty.apply _
  have hc : ∀ cwd, (Path.ofString "/d").canonical cwd = .ok "/d" := fun _ => rfl
  have hnode : before.find true (.ofString "/d") = .ok (.directory .epoch) := by
    decide +kernel
  have hstart : (before.bareHost.snapshotTree (.all (.ofString "/d"))).run.toOption.map kinds =
      some [("/d/a", .directory), ("/d/a/f", .regularFile)] := by
    decide +kernel
  rcases h₀ : (before.bareHost.snapshotTree (.all (.ofString "/d"))).run with e | t₀
  · rw [h₀] at hstart
    cases hstart
  · rw [h₀] at hstart
    refine ⟨t₀, rfl, Option.some.inj hstart, fun k hk => ?_, ?_, ?_⟩
    · have hworld : (tl k).world 0 = before := if_pos hk
      rw [← hworld] at hw hnode h₀
      obtain ⟨t, s', hrun, hleft⟩ :=
        snapshotTree_survives (s := ⟨0, .empty .all⟩) Cache.mirror (htl k) hw (hc _) hnode rfl h₀
      exact ⟨t, s', hrun, hleft.resolve_left (hkept t)⟩
    · decide +kernel
    · decide +kernel

end SnapStore.Timeline
