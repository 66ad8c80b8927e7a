import SnapStore.Proofs.Timeline.Collect
import SnapStore.Proofs.Tree.Filtered
import SnapStore.Proofs.World.Child

/-!
# Of what moment a file entry is

An entry of a file holds a digest and a modification time. They come from different system calls.
The time is what a metadata call saw, and the file is opened and read after that, so the digest is
of what the file held at later moments (`SnapStore.FileSnapshot.IsTaken`). In between the file may
be written, replaced or touched, and then there need not have been any moment at which it had that
content and that time together. If the file stands still from the metadata call to the last read,
the digest and the time are both its own (`SnapStore.FileSnapshot.IsTaken.eq_of_still`).

`SnapStore.Timeline.snapshots_observed` says this of all that a store computes in a timeline,
whether a path is asked for itself or comes up in the walk through a tree. Of the steps of a walk it
is shown one by one that they collect only such entries (`SnapStore.Timeline.Observes`).
-/

namespace SnapStore

/-- **A digest and a modification time that were taken of one path**: the time from the metadata of
one moment, the digest from what was read after the path had been opened at a later one. -/
structure FileSnapshot.IsTaken (tl : Timeline) (p : Path) (followLast : Bool)
    (seen opened ended : Nat) (f : FileSnapshot) : Prop where
  /-- The file is opened after its metadata was read. -/
  seen_lt : seen < opened
  /-- This is when it had been changed last, as seen then. -/
  modified : ∃ node, (tl.world seen).find followLast p = .ok node ∧
    f.modified = node.status.modified.text
  /-- This is what was read. -/
  digest : ∃ bytes, tl.Reads p opened ended bytes ∧ f.digest = .ofMessage bytes

/-- **A file that stands still** from the metadata call to the last read has both the digest and the
modification time. -/
theorem FileSnapshot.IsTaken.eq_of_still {tl : Timeline} {p : Path} {followLast : Bool}
    {seen opened ended : Nat} {f : FileSnapshot} (h : f.IsTaken tl p followLast seen opened ended)
    {content : Bytes} {modified : Timestamp}
    (hnode : ∀ i, seen ≤ i → i ≤ ended →
      (tl.world i).find followLast p = .ok (.file content modified))
    (hheld : ∀ i, opened < i → i ≤ ended → (tl.reading opened p).held i = content) :
    f = ⟨.ofMessage content, modified.text⟩ := by
  obtain ⟨digest, time⟩ := f
  obtain ⟨hlt, ⟨node, hseen, htime⟩, bytes, hreads, hdigest⟩ := h
  have hopened := hreads.le
  rw [hnode seen (Nat.le_refl _) (by omega)] at hseen
  cases hseen
  have hfind : (tl.world opened).find true p = .ok (.file content modified) := by
    cases followLast with
    | true => exact hnode opened (by omega) hopened
    | false => exact World.find_true (hnode opened (by omega) hopened) nofun
  rw [show digest = _ from hdigest, hreads.eq_of_held hfind hheld, show time = _ from htime]
  rfl

/-- **An entry that was computed between two moments.** If it is of a file, its digest and its
modification time were taken of a path that has the path of the entry as its canonical form. -/
def Entry.IsObserved (tl : Timeline) (start until' : Nat) : Entry → Prop
  | .file key _ _ f => ∃ p followLast seen opened ended, start ≤ seen ∧ ended < until' ∧
      (∃ i, start ≤ i ∧ i < until' ∧ p.canonical (tl.world i).workingDirectory = .ok key) ∧
      f.IsTaken tl p followLast seen opened ended
  | _ => True

theorem Entry.IsObserved.mono {tl : Timeline} {start start' until' until'' : Nat} {e : Entry}
    (h : e.IsObserved tl start until') (hstart : start' ≤ start) (huntil : until' ≤ until'') :
    e.IsObserved tl start' until'' := by
  cases e with
  | missing => trivial
  | directory => trivial
  | file =>
    obtain ⟨p, followLast, seen, opened, ended, hseen, hended, ⟨i, hi, hi', hkey⟩, htaken⟩ := h
    exact ⟨p, followLast, seen, opened, ended, by omega, by omega, ⟨i, by omega, by omega, hkey⟩,
      htaken⟩

/-- What is reported of a path was seen of it between two moments. -/
def Report.IsSeen (tl : Timeline) (start until' : Nat) (r : Report) : Prop :=
  ∃ followLast seen node, start ≤ seen ∧ seen < until' ∧
    (tl.world seen).find followLast r.path = .ok node ∧ Metadata.ofStatus node.status = .ok r.seen

theorem Report.IsSeen.mono {tl : Timeline} {start until' until'' : Nat} {r : Report}
    (h : r.IsSeen tl start until') (hle : until' ≤ until'') : r.IsSeen tl start until'' := by
  obtain ⟨followLast, seen, node, hstart, hlt, hnode⟩ := h
  exact ⟨followLast, seen, node, hstart, Nat.lt_of_lt_of_le hlt hle, hnode⟩

theorem Metadata.modified_of_ofStatus {s : Status} {seen : Metadata} (h : ofStatus s = .ok seen) :
    seen.modified = s.modified.text := by
  obtain ⟨-, rfl⟩ := ofStatus_eq_ok_iff.1 h
  exact s.modified_metadata _

namespace Timeline

variable {σ : Type} {tl : Timeline} {M : Mirror σ} {s : Stage σ} {ε α β : Type}

/-- What is hashed after it was looked at is observed. -/
theorem isObserved_of_hashes {p : Path} {followLast : Bool} {start seen : Nat} {node : Node}
    (hstart : start ≤ seen) (hseen : seen < s.now)
    (hnode : (tl.world seen).find followLast p = .ok node) {key : String}
    (hkey : ∃ i, start ≤ i ∧ i < s.now ∧ p.canonical (tl.world i).workingDirectory = .ok key)
    {digest : Digest} {s' : Stage σ} (hhash : tl.Hashes p s (.ok digest, s'))
    {relative : RelativePath} {isRoot : Bool} :
    (Entry.file key relative isRoot ⟨digest, node.status.modified.text⟩).IsObserved
      tl start s'.now := by
  cases hhash with
  | @read ended bytes hreads =>
    have hopened := hreads.le
    obtain ⟨i, hi, hi', hkey⟩ := hkey
    exact ⟨p, followLast, seen, s.now, ended, hstart, Nat.lt_succ_self _,
      ⟨i, hi, Nat.lt_succ_of_le (by omega), hkey⟩, hseen, ⟨node, hnode, rfl⟩, bytes, hreads, rfl⟩

/-- The entry that is made of a report of what was seen is observed. -/
theorem Makes.isObserved {r : Report} {e : Entry} {s' : Stage σ} (h : tl.Makes r s (.ok e) s')
    {start : Nat} (hr : r.IsSeen tl start s.now) : e.IsObserved tl start s'.now := by
  obtain ⟨followLast, seen, node, hstart, hseen, hnode, hmeta⟩ := hr
  generalize hmade : (Except.ok e : Except Failure Entry) = made at h
  cases h with
  | unkeyed => cases hmade
  | directory =>
    cases hmade
    trivial
  | @file key hashed s' hkind hkey hhash =>
    rcases hashed with err | digest
    · cases err <;> cases hmade
      trivial
    · cases hmade
      rw [Metadata.modified_of_ofStatus hmeta]
      exact isObserved_of_hashes hstart (Nat.lt_succ_of_lt hseen) hnode
        ⟨s.now, by omega, Nat.lt_succ_self _, hkey⟩ hhash

/-! ### Steps of a walk -/

/-- **All that a step collects it has observed.** -/
def Observes (tl : Timeline) (x : ExceptT ε (Collecting (StateM (Stage σ))) α) : Prop :=
  ∀ s, Comes x s fun _ new s' => s.now ≤ s'.now ∧ ∀ e ∈ new, e.IsObserved tl s.now s'.now

namespace Observes

variable {x : ExceptT ε (Collecting (StateM (Stage σ))) α}
  {f : α → ExceptT ε (Collecting (StateM (Stage σ))) β}

theorem pure (a : α) : Observes tl (Pure.pure a : ExceptT ε (Collecting (StateM (Stage σ))) α) :=
  fun _ => .pure ⟨Nat.le_refl _, nofun⟩

theorem throw (e : ε) :
    Observes tl (throw e : ExceptT ε (Collecting (StateM (Stage σ))) α) :=
  fun _ => .throw ⟨Nat.le_refl _, nofun⟩

/-- After a step that has observed what it collects the walk goes on from a later moment. -/
theorem bind (hx : Observes tl x) (hf : ∀ a, Observes tl (f a)) : Observes tl (x >>= f) := by
  refine fun s => (hx s).bind ?_ fun _ _ _ h => h
  rintro a new s' ⟨hle, hnew⟩
  refine (hf a s').imp ?_
  rintro r more s'' ⟨hle', hmore⟩
  refine ⟨Nat.le_trans hle hle', fun e he => ?_⟩
  rcases List.mem_append.1 he with he | he
  · exact (hnew e he).mono (Nat.le_refl _) hle'
  · exact (hmore e he).mono hle (Nat.le_refl _)

/-- A system call collects nothing. -/
theorem call {y : StateM (Stage σ) α} (hy : ∀ s, s.now ≤ (y s).2.now) :
    Observes tl (liftM (StateT.lift y : Collecting (StateM (Stage σ)) α) :
      ExceptT ε (Collecting (StateM (Stage σ))) α) :=
  fun s => .lift ⟨hy s, nofun⟩

theorem run {ε' : Type} {y : ExceptT ε' (Collecting (StateM (Stage σ))) α} (hy : Observes tl y) :
    Observes tl (liftM y.run : ExceptT ε (Collecting (StateM (Stage σ))) (Except ε' α)) :=
  fun s => .run (hy s)

theorem forM {xs : List α} {f : α → ExceptT ε (Collecting (StateM (Stage σ))) Unit}
    (hf : ∀ x ∈ xs, Observes tl (f x)) : Observes tl (xs.forM f) := by
  induction xs with
  | nil => exact pure ()
  | cons x xs ih =>
    exact (hf x (by simp)).bind fun _ => ih fun y hy => hf y (List.mem_cons_of_mem _ hy)

end Observes

theorem le_now_ask (answer : World → α) (s : Stage σ) : s.now ≤ (tl.ask answer s).2.now :=
  Nat.le_succ _

/-- What is told after it was seen is observed from then on. -/
theorem comes_forM_tell {reports : List Report} (start : Nat) (hstart : start ≤ s.now)
    (hseen : ∀ r ∈ reports, r.IsSeen tl start s.now) :
    Comes (reports.forM (·.tell (tl.walkCalls σ) (tl.host M).collector)) s fun _ new s' =>
      s.now ≤ s'.now ∧ ∀ e ∈ new, e.IsObserved tl start s'.now := by
  induction reports generalizing s with
  | nil => exact .pure ⟨Nat.le_refl _, nofun⟩
  | cons r reports ih =>
    have htell : Comes (r.tell (tl.walkCalls σ) (tl.host M).collector) s fun _ new s' =>
        s.now ≤ s'.now ∧ ∀ e ∈ new, e.IsObserved tl start s'.now := by
      refine comes_tell (fun e s' hmakes => ⟨hmakes.le, ?_⟩) fun _ s' hmakes => ⟨hmakes.le, nofun⟩
      exact List.forall_mem_singleton.2 (hmakes.isObserved (hseen r (by simp)))
    refine htell.bind ?_ fun _ _ _ h => h
    rintro _ new s' ⟨hle, hnew⟩
    have hrest := ih (Nat.le_trans hstart hle)
      fun r' hr' => (hseen r' (List.mem_cons_of_mem _ hr')).mono hle
    refine hrest.imp ?_
    rintro r' more s'' ⟨hle', hmore⟩
    refine ⟨Nat.le_trans hle hle', List.forall_mem_append.2 ⟨fun e he => ?_, hmore⟩⟩
    exact (hnew e he).mono (Nat.le_refl _) hle'

/-- So it is if the course breaks off in the end. -/
theorem comes_replay {c : Course} (start : Nat) (hstart : start ≤ s.now)
    (hc : ∀ r ∈ c.reports, r.IsSeen tl start s.now) :
    Comes (c.replay (tl.walkCalls σ) (tl.host M).collector) s fun _ new s' =>
      s.now ≤ s'.now ∧ ∀ e ∈ new, e.IsObserved tl start s'.now := by
  obtain ⟨reports, ending⟩ := c
  refine (comes_forM_tell start hstart hc).bind ?_ fun _ _ _ h => h
  rintro _ new s' ⟨hle, hnew⟩
  cases ending with
  | none => exact .pure ⟨hle, by simpa using hnew⟩
  | some e => exact .throw ⟨hle, by simpa using hnew⟩

section Walking

open DirectoryTree

theorem observes_findLoop (child : Path) (spot : Spot) (inside : List Path) :
    Observes tl (findLoop (tl.walkCalls σ) child spot inside) := by
  induction inside with
  | nil => exact .pure ()
  | cons ancestor outer ih =>
    refine Observes.bind (.call (le_now_ask _)) fun found => ?_
    rcases found with e | other
    · exact .throw _
    · dsimp only
      split_ifs
      · exact .throw _
      · exact ih

theorem observes_arrive (inside : List Path) (path : Path) (listed : Kind) :
    Observes tl (arrive (tl.walkCalls σ) inside path listed) := by
  unfold arrive
  split_ifs
  · exact .pure _
  · refine Observes.bind (.call (le_now_ask _)) fun found => ?_
    rcases found with e | seen
    · exact .throw _
    · dsimp only
      split_ifs
      · refine Observes.bind (.call (le_now_ask _)) fun found => ?_
        rcases found with e | spot
        · exact (Observes.throw _).bind fun _ => .pure _
        · exact (observes_findLoop path spot inside).bind fun _ => .pure _
      · exact .pure _

theorem observes_raise (t : DirectoryTree) (fault : WalkFault) :
    Observes tl (t.raise fault : ExceptT Failure (Collecting (StateM (Stage σ))) Unit) := by
  unfold raise
  split_ifs
  · exact .pure _
  · exact .throw _

/-- What is reported of an entry is seen when the entry is looked at. -/
theorem isSeen_of_mem_entryCourse {e : Reached} {seen : Nat} {r : Report}
    (h : r ∈ ((tl.world seen).entryCourse e).reports) : r.IsSeen tl seen (seen + 1) := by
  obtain ⟨status, metadata, relative, hlook, hmeta, -, -, rfl⟩ := World.exists_of_mem_entryCourse h
  rw [World.look_eq_map] at hlook
  rcases hnode : (tl.world seen).find e.isFollowed e.path with err | node
  · rw [hnode] at hlook
    cases hlook
  · rw [hnode] at hlook
    cases hlook
    exact ⟨e.isFollowed, seen, node, Nat.le_refl _, Nat.lt_succ_self _, hnode, hmeta⟩

theorem observes_report (t : DirectoryTree) (e : Reached) :
    Observes tl (report (tl.walkCalls σ) t (tl.host M).collector e) := by
  refine fun s => comes_report (fun _ => ?_) fun _ => ⟨Nat.le_refl _, nofun⟩
  refine (comes_replay s.now (Nat.le_succ _) fun r hr => isSeen_of_mem_entryCourse hr).imp ?_
  exact fun _ _ _ h => ⟨Nat.le_trans (Nat.le_succ _) h.1, h.2⟩

theorem observes_visitBelow (t : DirectoryTree) (levels : Nat) (inside : List Path) (here : Path)
    (names : List Bytes) (listing : Listing) :
    Observes tl
      (visitBelow (tl.walkCalls σ) t (tl.host M).collector levels inside here names listing) := by
  induction levels generalizing inside here names listing with
  | zero => exact .pure ()
  | succ levels ih =>
    cases listing with
    | error e => exact observes_raise t _
    | ok listed =>
      refine .forM fun entry _ => ?_
      refine (Observes.run (observes_arrive inside _ entry.2)).bind fun arrived => ?_
      rcases arrived with fault | ⟨kind, isFollowed⟩
      · exact observes_raise t fault
      · have hlater : ∀ listing : Listing, Observes tl (do
            let goOn ← report (tl.walkCalls σ) t (tl.host M).collector
              ⟨here.child entry.1, names ++ [entry.1], kind, isFollowed⟩
            if kind = .directory && goOn then
              visitBelow (tl.walkCalls σ) t (tl.host M).collector levels
                (here.child entry.1 :: inside) (here.child entry.1) (names ++ [entry.1])
                listing) := by
          refine fun listing => (observes_report t _).bind fun goOn => ?_
          split_ifs
          · exact ih _ _ _ _
          · exact .pure ()
        dsimp only
        split_ifs
        · exact Observes.bind (.call (le_now_ask _)) hlater
        · exact (Observes.pure _).bind hlater

theorem observes_visitDirectory (t : DirectoryTree) :
    Observes tl (visitDirectory (tl.walkCalls σ) t (tl.host M).collector) := by
  refine Observes.bind (.call (le_now_ask _)) fun found => ?_
  rcases found with e | seen
  · exact observes_raise t _
  · refine (Observes.run (observes_arrive [] t.root seen.kind)).bind fun arrived => ?_
    rcases arrived with fault | ⟨kind, isFollowed⟩
    · exact observes_raise t fault
    · dsimp only
      split_ifs
      · exact Observes.bind (.call (le_now_ask _)) fun listing =>
          observes_visitBelow t _ _ _ _ listing
      · exact .pure ()

/-- **A walk has observed all that it collects.** -/
theorem observes_visit (t : DirectoryTree) :
    Observes tl (t.visit (tl.walkCalls σ) (tl.host M).collector) := by
  intro s
  -- A root that is a file is told of with what this first call has seen.
  refine Comes.bind_quiet (.lift ⟨rfl, _, rfl, ?_⟩)
  have hlater : Comes (visitDirectory (tl.walkCalls σ) t (tl.host M).collector)
      s.next fun _ new s' =>
        s.now ≤ s'.now ∧ ∀ e ∈ new, e.IsObserved tl s.now s'.now := by
    refine (observes_visitDirectory t _).imp ?_
    rintro r new s' ⟨hle, hnew⟩
    exact ⟨Nat.le_of_succ_le hle, fun e he => (hnew e he).mono (Nat.le_succ _) (Nat.le_refl _)⟩
  dsimp only [calls, ask]
  rcases hstat : (tl.world s.now).stat t.root with e | status
  · exact hlater
  · dsimp only
    split_ifs
    · rw [visitFile_eq_replay]
      refine (comes_replay s.now (Nat.le_succ _) fun r hr => ?_).imp
        fun _ _ _ h => ⟨Nat.le_of_succ_le h.1, h.2⟩
      obtain ⟨hpath, hseen⟩ := World.mem_reports_fileCourse hr
      obtain ⟨node, hnode, rfl⟩ := World.exists_find_of_stat hstat
      exact ⟨true, s.now, node, Nat.le_refl _, Nat.lt_succ_self _, hpath ▸ hnode, hseen⟩
    · exact hlater

end Walking

/-! ### Single paths -/

theorem run_statBy (p : Path) (s : Stage σ) :
    Host.statBy tl.calls p s = (Host.seenAt p ((tl.world s.now).stat p), s.next) := by
  rw [Host.statBy_eq]
  rfl

/-- What an entry of a file is made of, given what hashing has come to. -/
def entryOfHash (key : String) (seen : Metadata) : Except Error Digest → Except Failure Entry
  | .ok digest => (RelativePath.ofPath true
      (.ofString (((Path.ofString key).fileName?.map Utf8.repair).getD ""))).mapError .error |>.map
        fun relative => .file key relative true ⟨digest, seen.modified⟩
  | .error (.notFound _) =>
    .ok (.missing key (((Path.ofString key).fileName?.map Utf8.repair).getD ""))
  | .error e => .error (.error e)

/-- A path that leads to a file when it is looked at is hashed next. -/
theorem run_observe_of_file {key : String} {content : Bytes} {modified : Timestamp}
    (hnode : (tl.world s.now).find true (.ofString key) = .ok (.file content modified))
    {seen : Metadata} (hseen : Metadata.ofStatus (Node.file content modified).status = .ok seen) :
    ∃ hashed s', tl.Hashes (.ofString key) s.next (hashed, s') ∧
      ((tl.host M).observe key).run s = (entryOfHash key seen hashed, s') := by
  have hlook : (ExceptT.mk ((tl.host M).stat (.ofString key))).run s = _ :=
    run_statBy (.ofString key) s
  rw [World.stat, hnode] at hlook
  change _ = (Metadata.ofStatus (Node.file content modified).status, s.next) at hlook
  rw [hseen] at hlook
  have hhash : tl.Hashes (.ofString key) s.next _ := hash_cases seen s.next
  rcases hrun : (Hasher.sha256 tl.calls).file (.ofString key) seen s.next with ⟨hashed, s'⟩
  rw [hrun] at hhash
  have hlift : (ExceptT.lift ((tl.host M).hasher.file (.ofString key) seen) :
      ExceptT Failure (StateM (Stage σ)) (Except Error Digest)).run s.next = (.ok hashed, s') :=
    congrArg (fun x : Except Error Digest × Stage σ => (Except.ok x.1, x.2)) hrun
  refine ⟨hashed, s', hhash, ?_⟩
  obtain ⟨-, rfl⟩ := Metadata.ofStatus_eq_ok_iff.1 hseen
  unfold Host.observe
  rw [run_bind_of_ok hlook]
  refine (run_bind_of_ok hlift).trans ?_
  rcases hashed with err | digest
  · cases err <;> rfl
  · unfold entryOfHash
    dsimp only
    rcases RelativePath.ofPath true
      (.ofString (((Path.ofString key).fileName?.map Utf8.repair).getD "")) with err | relative
    · rfl
    · rfl

/-- Of a path that is looked at there is an entry only if what it leads to has a time with a
date. -/
theorem isDated_of_observe {key : String} {e : Entry} {s' : Stage σ}
    (h : ((tl.host M).observe key).run s = (.ok e, s')) :
    (tl.world s.now).IsDated (.ofString key) := by
  intro node hnode
  by_contra hdated
  have hlook : (ExceptT.mk ((tl.host M).stat (.ofString key))).run s = _ :=
    run_statBy (.ofString key) s
  rw [World.stat, hnode] at hlook
  change _ = (Metadata.ofStatus node.status, s.next) at hlook
  rw [Metadata.ofStatus_of_not_representable hdated] at hlook
  unfold Host.observe at h
  rw [run_bind_of_error hlook] at h
  cases h

/-- A path that leads to no file when it is looked at has no entry of a file. -/
theorem fileType_of_observe {key : String}
    (hnode : ∀ content modified,
      (tl.world s.now).find true (.ofString key) ≠ .ok (.file content modified)) {e : Entry}
    {s' : Stage σ} (h : ((tl.host M).observe key).run s = (.ok e, s')) :
    e.fileType ≠ .regularFile := by
  have hdated := isDated_of_observe h
  have hlook : (ExceptT.mk ((tl.host M).stat (.ofString key))).run s = _ :=
    run_statBy (.ofString key) s
  unfold Host.observe at h
  rw [World.stat] at hlook
  rcases hfind : (tl.world s.now).find true (.ofString key) with err | node
  · rw [hfind] at hlook
    cases err with
    | notFound =>
      rw [run_bind_of_ok hlook] at h
      cases h
      nofun
    | _ =>
      rw [run_bind_of_error hlook] at h
      cases h
  · rw [hfind] at hlook
    change _ = (Metadata.ofStatus node.status, s.next) at hlook
    rw [Metadata.ofStatus_of_representable (hdated node hfind)] at hlook
    rw [run_bind_of_ok hlook] at h
    cases node with
    | file content modified => exact absurd hfind (hnode content modified)
    | link target => cases h
    | special modified => cases h
    | directory modified =>
      dsimp only [Status.metadata, Node.status] at h
      rcases hrelative : RelativePath.ofPath false
          (.ofString (((Path.ofString key).fileName?.map Utf8.repair).getD "")) with err | relative
      · rw [hrelative] at h
        cases h
      · rw [hrelative] at h
        cases h
        nofun

/-- **The entry of a path** is made of what is seen there first and of what is read there later. -/
theorem isObserved_of_observe {key : String} {start : Nat} (hstart : start ≤ s.now)
    (hkey : ∃ i, start ≤ i ∧ i < s.now ∧
      (Path.ofString key).canonical (tl.world i).workingDirectory = .ok key)
    {e : Entry} {s' : Stage σ} (h : ((tl.host M).observe key).run s = (.ok e, s')) :
    e.IsObserved tl start s'.now := by
  by_cases hfile : ∃ content modified,
      (tl.world s.now).find true (.ofString key) = .ok (.file content modified)
  · obtain ⟨content, modified, hnode⟩ := hfile
    obtain ⟨hashed, s'', hhash, hrun⟩ := run_observe_of_file (M := M) hnode
      (Metadata.ofStatus_of_representable (isDated_of_observe h _ hnode))
    rw [h] at hrun
    obtain ⟨i, hi, hi', hkey⟩ := hkey
    rcases hashed with err | digest
    · cases err <;> cases hrun
      trivial
    · unfold entryOfHash at hrun
      rcases hrelative : RelativePath.ofPath true
          (.ofString (((Path.ofString key).fileName?.map Utf8.repair).getD "")) with err | relative
      · rw [hrelative] at hrun
        cases hrun
      · rw [hrelative] at hrun
        cases hrun
        exact isObserved_of_hashes hstart (Nat.lt_succ_self _) hnode
          ⟨i, hi, Nat.lt_succ_of_lt hi', hkey⟩ hhash
  · have hother :=
      fileType_of_observe (fun content modified hnode => hfile ⟨content, modified, hnode⟩) h
    cases e with
    | missing => trivial
    | directory => trivial
    | file => exact absurd rfl hother

/-- **An entry is kept already or observed now**, after the moment that it takes to find its key. -/
theorem snapshotSelf_cases (M : Mirror σ) (p : Path) (s : Stage σ) :
    (∃ e s', p.canonical (tl.world s.now).workingDirectory = .error e ∧
      ((tl.host M).snapshotSelf p).run s = (.error (.error e), s')) ∨
    ∃ key, p.canonical (tl.world s.now).workingDirectory = .ok key ∧
      ((∃ kept s', Offered (M.lookUpEntry key) s.kept kept ∧
        ((tl.host M).snapshotSelf p).run s = (.ok kept, s')) ∨
      ∃ s₁ r s₂ s', s₁.now = s.now + 1 ∧ s'.now = s₂.now ∧
        ((tl.host M).observe key).run s₁ = (r, s₂) ∧
        ((tl.host M).snapshotSelf p).run s = (r, s')) := by
  have hkey := run_key tl M p s
  unfold Host.snapshotSelf
  rcases hcanonical : p.canonical (tl.world s.now).workingDirectory with e | key
  · rw [World.keyOf_of_error hcanonical] at hkey
    exact Or.inl ⟨e, _, rfl, run_bind_of_error hkey⟩
  · rw [World.keyOf_eq_ok_iff.2 hcanonical] at hkey
    refine Or.inr ⟨key, rfl, ?_⟩
    rw [run_bind_of_ok hkey]
    rcases run_cached_cases tl M M.lookUpEntry (now_keeping M.putEntry) .entry key
      ((tl.host M).observe key) s.next with ⟨kept, s', hoffered, -, hrun⟩ | hcomputed
    · exact Or.inl ⟨kept, s', hoffered, hrun⟩
    · exact Or.inr hcomputed

/-! ### What a store computes -/

/-- **The digest and the modification time of a file are taken at different moments.** Whatever a
store computes in a timeline, an entry of a file that is not kept already has the modification time
that a metadata call has seen in the course of the request, and the digest of what was read later
on. The two belong together if the file stands still from the one call to the last read. -/
theorem snapshots_observed (tl : Timeline) (M : Mirror σ) (s : Stage σ) :
    (∀ p e s', ((tl.host M).snapshotSelf p).run s = (.ok e, s') →
      (∃ key, p.canonical (tl.world s.now).workingDirectory = .ok key ∧
        Offered (M.lookUpEntry key) s.kept e) ∨ e.IsObserved tl s.now s'.now) ∧
    (∀ t tree s', ((tl.host M).snapshotTree t).run s = (.ok tree, s') →
      (∃ key, t.root.canonical (tl.world s.now).workingDirectory = .ok key ∧
        Offered (M.lookUpTree key) s.kept tree) ∨
      ∀ e ∈ tree.entries, e.IsObserved tl s.now s'.now) ∧
    ∀ (f : FileSnapshot) p followLast seen opened ended,
      f.IsTaken tl p followLast seen opened ended →
      ∀ content modified,
        (∀ i, seen ≤ i → i ≤ ended →
          (tl.world i).find followLast p = .ok (.file content modified)) →
        (∀ i, opened < i → i ≤ ended → (tl.reading opened p).held i = content) →
        f = ⟨.ofMessage content, modified.text⟩ := by
  refine ⟨fun p e s' h => ?_, fun t tree s' h => ?_, ?_⟩
  · rcases snapshotSelf_cases M p s with ⟨err, s'', -, hrun⟩ | ⟨key, hkey, hrest⟩
    · rw [hrun] at h
      cases h
    · rcases hrest with ⟨kept, s'', hoffered, hrun⟩ | ⟨s₁, r, s₂, s'', hnow, hnow', hobserve, hrun⟩
      · rw [hrun] at h
        cases h
        exact Or.inl ⟨key, hkey, hoffered⟩
      · rw [hrun] at h
        cases h
        rw [hnow']
        refine Or.inr
          (isObserved_of_observe (by omega) ⟨s.now, Nat.le_refl _, by omega, ?_⟩ hobserve)
        exact Path.canonical_ofString hkey _
  · have hvisit : ∀ s₁ : Stage σ, s₁.now = s.now + 1 →
        Comes (t.visit (tl.walkCalls σ) (tl.host M).collector) s₁ fun _ new s' =>
          ∀ e ∈ new, e.IsObserved tl s.now s'.now := by
      refine fun s₁ hnow => (observes_visit t s₁).imp fun r new s' h e he => ?_
      exact (h.2 e he).mono (by omega) (Nat.le_refl _)
    rcases snapshotTree_cases hvisit with ⟨err, s'', -, hrun⟩ | ⟨key, hkey, hrest⟩
    · rw [hrun] at h
      cases h
    · rcases hrest with ⟨kept, s'', -, hoffered, hrun⟩ | ⟨r, new, s₂, s'', hnew, hnow, hrun⟩
      · rw [hrun] at h
        cases h
        exact Or.inl ⟨key, hkey, hoffered⟩
      · rw [hrun] at h
        rcases r with err | _
        · cases h
        · cases h
          rw [hnow]
          exact Or.inr hnew
  · exact fun f p followLast seen opened ended h content modified hnode hheld =>
      h.eq_of_still hnode hheld

/-- **A file that is changed between the two calls is taken apart**: its entry has the digest of the
new content and the modification time of the old. -/
theorem snapshotSelf_of_changed {p : Path} {key : String}
    (hkey : p.canonical (tl.world s.now).workingDirectory = .ok key)
    (hkept : ∀ e, ¬ Offered (M.lookUpEntry key) s.kept e) {content content' : Bytes}
    {modified modified' : Timestamp}
    (hseen : (tl.world (s.now + 1)).find true (.ofString key) = .ok (.file content modified))
    (hdated : modified.Representable)
    (hopened : (tl.world (s.now + 2)).find true (.ofString key) = .ok (.file content' modified'))
    (hheld : ∀ i, s.now + 2 < i → (tl.reading (s.now + 2) (.ofString key)).held i = content')
    {relative : RelativePath} (hrelative : RelativePath.ofPath true
      (.ofString (((Path.ofString key).fileName?.map Utf8.repair).getD "")) = .ok relative) :
    ∃ s', ((tl.host M).snapshotSelf p).run s =
      (.ok (.file key relative true ⟨.ofMessage content', modified.text⟩), s') := by
  rcases snapshotSelf_cases M p s with ⟨err, s', hkey', -⟩ | ⟨key', hkey', hrest⟩
  · rw [hkey] at hkey'
    cases hkey'
  · rw [hkey] at hkey'
    cases hkey'
    rcases hrest with ⟨kept, s', hoffered, -⟩ | ⟨s₁, r, s₂, s', hnow, -, hobserve, hrun⟩
    · exact absurd hoffered (hkept kept)
    · rw [← hnow] at hseen
      obtain ⟨hashed, s₂', hhash, hobserve'⟩ := run_observe_of_file (M := M) hseen
        (Metadata.ofStatus_of_representable hdated)
      have hnext : s₁.next.now = s.now + 2 := congrArg (· + 1) hnow
      rw [hhash.eq_of_file (hnext ▸ hopened) (hnext ▸ hheld), entryOfHash, hrelative, hobserve,
        Prod.mk.injEq] at hobserve'
      rw [hobserve'.1] at hrun
      exact ⟨s', hrun⟩

/-- A file that is written anew just before it is opened. Its entry has the digest of the one
content and the modification time of the other, and at no moment it had both. -/
theorem snapshots_observed_of_torn :
    let before := (World.empty.apply (.write (.ofString "/f") [97] .epoch)).world
    let after := (World.empty.apply (.write (.ofString "/f") [98] ⟨1000000000⟩)).world
    let tl (k : Nat) : Timeline := .ofWorlds fun i => if i < k then before else after
    let s : Stage Cache := ⟨0, .empty .all⟩
    (∃ f s', (((tl 2).host Cache.mirror).snapshotSelf (.ofString "/f")).run s =
        (.ok (.file "/f" ⟨true, ["f"]⟩ true f), s') ∧
      (Entry.file "/f" ⟨true, ["f"]⟩ true f).IsObserved (tl 2) 0 s'.now ∧
      ∀ i content modified,
        ((tl 2).world i).find true (.ofString "/f") = .ok (.file content modified) →
          f ≠ ⟨.ofMessage content, modified.text⟩) ∧
    ∃ tree s', (((tl 5).host Cache.mirror).snapshotTree (.all (.ofString "/"))).run s =
        (.ok tree, s') ∧ tree.entries.map Entry.path = ["/f"] ∧
      ∀ e ∈ tree.entries, e.IsObserved (tl 5) 0 s'.now := by
  intro before after tl s
  have hbefore : before.find true (.ofString "/f") = .ok (.file [97] .epoch) := by
    decide +kernel
  have hafter : after.find true (.ofString "/f") = .ok (.file [98] ⟨1000000000⟩) := by
    decide +kernel
  have hentry : ∀ e, ¬ Offered (Cache.mirror.lookUpEntry "/f") s.kept e := by
    rintro e (h | h) <;> cases h
  have htree : ∀ t, ¬ Offered (Cache.mirror.lookUpTree "/") s.kept t := by
    rintro t (h | h) <;> cases h
  have hdigest : Digest.ofMessage [97] ≠ Digest.ofMessage [98] := by
    intro h
    have hbytes : Sha256.digest [97] = Sha256.digest [98] := congrArg Digest.bytes h
    rw [Sha256.digest_of_block (by decide +kernel),
      Sha256.digest_of_block (by decide +kernel)] at hbytes
    revert hbytes
    decide +kernel
  refine ⟨?_, ?_⟩
  · obtain ⟨s', hrun⟩ : ∃ s', (((tl 2).host Cache.mirror).snapshotSelf (.ofString "/f")).run s =
        (.ok (.file "/f" ⟨true, ["f"]⟩ true ⟨.ofMessage [98], Timestamp.epoch.text⟩), s') :=
      snapshotSelf_of_changed rfl hentry hbefore (by decide) hafter
        (fun i _ => held_ofWorlds hafter i)
        (by decide +kernel)
    refine ⟨_, s', hrun, ?_, ?_⟩
    · refine ((snapshots_observed (tl 2) Cache.mirror s).1 _ _ _ hrun).resolve_left ?_
      rintro ⟨key, hkey, hoffered⟩
      cases hkey
      exact hentry _ hoffered
    · intro i content modified hnode hf
      change (if i < 2 then before else after).find true _ = _ at hnode
      split_ifs at hnode
      · rw [hbefore] at hnode
        cases hnode
        exact hdigest (congrArg FileSnapshot.digest hf).symm
      · rw [hafter] at hnode
        cases hnode
        exact absurd (congrArg FileSnapshot.modified hf) (by decide +kernel)
  · have hanswer : ((((tl 5).host Cache.mirror).snapshotTree (.all (.ofString "/"))).run
        s).1.toOption.map (fun tree => tree.entries.map Entry.path) = some ["/f"] := by
      decide +kernel
    rcases hrun : (((tl 5).host Cache.mirror).snapshotTree (.all (.ofString "/"))).run s
      with ⟨e | tree, s'⟩
    · rw [hrun] at hanswer
      cases hanswer
    · rw [hrun] at hanswer
      refine ⟨tree, s', rfl, Option.some.inj hanswer, ?_⟩
      refine ((snapshots_observed (tl 5) Cache.mirror s).2.1 _ _ _ hrun).resolve_left ?_
      rintro ⟨key, hkey, hoffered⟩
      cases hkey
      exact htree _ hoffered

end Timeline

end SnapStore
