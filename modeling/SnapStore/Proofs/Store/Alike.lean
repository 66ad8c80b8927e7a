import SnapStore.Proofs.Relator
import SnapStore.Store.Snapshotter

/-!
# Snapshots that are taken alike in two monads

What `SnapStore.Relator` says of tree sources goes on to the computations of a snapshot store:
two hosts whose calls, looks and hashers are alike observe paths alike
(`SnapStore.Relator.observe`) and walk alike (`SnapStore.Relator.walk`). Nothing is said here of
what the hosts keep. It is what a host keeps that makes its answers differ from those of another,
and that is the business of the files that use this one.
-/

namespace SnapStore.Relator

variable {m n : Type → Type} [Monad m] [Monad n] {R : Relator m n}

/-! ### Working below a state -/

section State

variable {c : Calls m} {d : Calls n} {σ : Type}

theorem calls_lift (hc : R.AlikeCalls c d) : (R.state σ).AlikeCalls c.lift d.lift where
  workingDirectory := liftState hc.workingDirectory
  stat p := liftState (hc.stat p)
  linkStat p := liftState (hc.linkStat p)
  list p := liftState (hc.list p)
  identify p := liftState (hc.identify p)
  openReader p := liftState (hc.openReader p)

theorem hasher_lift {h : Hasher m} {k : Hasher n} (hh : R.AlikeHashers h k) :
    (R.state σ).AlikeHashers h.lift k.lift where
  content what r := liftState (hh.content what r)
  file p seen := liftState (hh.file p seen)

end State

/-! ### Hosts -/

variable (R)

/-- Hosts that compute alike, whatever they keep. -/
structure AlikeHosts (h : Host m) (k : Host n) : Prop where
  /-- System calls. -/
  calls : R.AlikeCalls h.calls k.calls
  /-- Looks at paths. -/
  stat : ∀ p, R.Rel (h.stat p) (k.stat p)
  /-- Digests. -/
  hasher : R.AlikeHashers h.hasher k.hasher
  /-- Sharing of keys. -/
  intern : ∀ key, R.Rel (h.intern key) (k.intern key)

variable {R}

theorem statBy {c : Calls m} {d : Calls n} (hc : R.AlikeCalls c d) (p : Path) :
    R.Rel (Host.statBy c p) (Host.statBy d p) := by
  refine R.bind (hc.stat p) fun r => ?_
  rcases r with e | s
  · cases e <;> exact R.pure _
  · exact R.pure _

section Hosts

variable {h : Host m} {k : Host n} (hk : R.AlikeHosts h k)

include hk

theorem key (p : Path) : (R.except Failure).Rel (h.key p) (k.key p) := by
  refine (R.except Failure).bind (lift hk.calls.workingDirectory) fun cwd => ?_
  refine (R.except Failure).bind (liftExcept _) fun key => ?_
  exact (R.except Failure).bind (lift (hk.intern key)) fun _ => (R.except Failure).pure key

omit hk in
/-- What is seen and hashed at the path of a key is all that its entry is made of. -/
theorem observe_of_stat {key : String}
    (hstat : R.Rel (h.stat (.ofString key)) (k.stat (.ofString key)))
    (hhasher : R.AlikeHashers h.hasher k.hasher) :
    (R.except Failure).Rel (h.observe key) (k.observe key) := by
  refine (R.except Failure).bind (show (R.except Failure).Rel _ _ from hstat) fun seen => ?_
  cases seen.fileType with
  | missing => exact (R.except Failure).pure _
  | directory =>
    exact (R.except Failure).bind (liftExcept _) fun relative => (R.except Failure).pure _
  | regularFile =>
    refine (R.except Failure).bind (lift (hhasher.file _ seen)) fun hashed => ?_
    rcases hashed with e | digest
    · cases e <;> first | exact (R.except Failure).pure _ | exact throw _
    · exact (R.except Failure).bind (liftExcept _) fun relative => (R.except Failure).pure _
  | other => exact throw _

theorem observe (key : String) : (R.except Failure).Rel (h.observe key) (k.observe key) :=
  observe_of_stat (hk.stat _) hk.hasher

theorem collector : (R.state (List Entry)).AlikeVisitors h.collector k.collector := by
  have hkey : ∀ p, ((R.state (List Entry)).except Failure).Rel
      (ExceptT.mk (StateT.lift (h.key p).run)) (ExceptT.mk (StateT.lift (k.key p).run)) :=
    fun p => liftState (key hk p)
  have hcollect : ∀ e, ((R.state (List Entry)).except Failure).Rel
      (Host.collect e : ExceptT Failure (Collecting m) Unit)
      (Host.collect e : ExceptT Failure (Collecting n) Unit) :=
    fun e => lift (show (R.state (List Entry)).Rel _ _ from fun s => R.pure ((), e :: s))
  constructor
  · intro d e hd
    change ((R.state (List Entry)).except Failure).Rel (_ >>= _) (_ >>= _)
    rw [hd.path, hd.relative]
    exact ((R.state _).except Failure).bind (hkey _) fun path => hcollect _
  · intro d e hd
    change ((R.state (List Entry)).except Failure).Rel (_ >>= _) (_ >>= _)
    rw [hd.path, hd.relative, hd.modified]
    refine ((R.state _).except Failure).bind (hkey _) fun path => ?_
    refine ((R.state _).except Failure).bind
      (lift (hd.digest _ _ (hasher_lift hk.hasher))) fun hashed => ?_
    rcases hashed with e | digest
    · cases e <;> first | exact hcollect _ | exact throw _
    · exact hcollect _

/-- **Walks are collected alike** if the sources are alike. -/
theorem walk (base : Option String) {s : TreeSource (Collecting m)}
    {t : TreeSource (Collecting n)} (hst : (R.state (List Entry)).AlikeSources s t) :
    (R.except Failure).Rel (h.walk base s) (k.walk base t) := by
  refine (R.except Failure).bind (lift (hst _ _ (collector hk) [])) fun r => ?_
  rcases r with ⟨ending, entries⟩
  cases ending with
  | ok _ => exact (R.except Failure).pure _
  | error e => exact throw e

end Hosts

end SnapStore.Relator
