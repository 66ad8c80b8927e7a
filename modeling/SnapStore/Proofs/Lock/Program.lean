import Mathlib.Algebra.GroupWithZero.Nat
import SnapStore.Proofs.Lock.Alone

/-!
# Sections inside sections

A `SnapStore.Program` is what one thread does with a table of locks: it ends in some way, or it does
another program in the section of a key and goes on with what came of that. What it goes on with may
be anything, so a program can react to each outcome in its own way. A panic that is not caught where
a section ends is one with which the program around it ends as well; it can be caught around that
one, or further out.

The outcome of a program, and what the callers of its sections get to see, are plain recursions in
which the locks play no part (`SnapStore.Program.outcome`, `SnapStore.Program.calls`). What a thread
does is a different matter: it takes the steps of `SnapStore.Crowd` one by one, with a stack of
those who wait for the outcome of a section (`SnapStore.Performance.step?`).

The two agree (`SnapStore.Program.performed_exact`). The thread is never kept from going on and has
come to its end after five steps for every section, whatever keys they are for; each caller has got
what came of its own section; and between any two steps the keys in flight are those of the sections
that have begun and have not been left, counted once each.
-/

namespace SnapStore

/-- What comes of something that a thread does. -/
inductive Outcome (α : Type)
  /-- It returns a value. -/
  | returned (a : α)
  /-- It fails. -/
  | failed (e : α)
  /-- It panics. -/
  | panicked
  deriving DecidableEq

/-- **What a thread does under locks.** -/
inductive Program (κ α : Type)
  /-- It ends. -/
  | done (o : Outcome α)
  /-- It does something in the section of a key, and goes on with what comes of it. -/
  | within (key : κ) (inner : Program κ α) (next : Outcome α → Program κ α)

/-- Somebody who waits for what comes of a section. -/
structure Caller (κ α : Type) where
  /-- The key of the section. -/
  key : κ
  /-- How the caller goes on. -/
  next : Outcome α → Program κ α

namespace Program

variable {κ α : Type}

/-! ### Without locks -/

/-- What comes of a program. -/
def outcome : Program κ α → Outcome α
  | .done o => o
  | .within _ inner next => (next inner.outcome).outcome

/-- What the callers of the sections get to see, with the keys, in the order in which the sections
end. -/
def calls : Program κ α → List (κ × Outcome α)
  | .done _ => []
  | .within key inner next => inner.calls ++ (key, inner.outcome) :: (next inner.outcome).calls

/-- The outcome of a program and of those who wait for it, and what callers get to see until
then. -/
def conclusion (program : Program κ α) : List (Caller κ α) → Outcome α × List (κ × Outcome α)
  | [] => (program.outcome, program.calls)
  | caller :: callers =>
    let rest := (caller.next program.outcome).conclusion callers
    (rest.1, program.calls ++ (caller.key, program.outcome) :: rest.2)

/-- Doing something in a section is doing it while the caller waits. -/
theorem conclusion_within (key : κ) (inner : Program κ α) (next : Outcome α → Program κ α)
    (callers : List (Caller κ α)) :
    (within key inner next).conclusion callers = inner.conclusion (⟨key, next⟩ :: callers) := by
  cases callers <;> simp [conclusion, outcome, calls]

/-- Everybody who waits gets to see something. -/
theorem length_le_conclusion (program : Program κ α) (callers : List (Caller κ α)) :
    callers.length + program.calls.length ≤ (program.conclusion callers).2.length := by
  induction callers generalizing program with
  | nil => simp [conclusion]
  | cons caller callers ih =>
    have hrest := ih (caller.next program.outcome)
    simp only [conclusion, List.length_cons, List.length_append]
    omega

end Program

/-! ### With locks -/

/-- **A program that is being done.** -/
structure Performance (κ α : Type) where
  /-- The locks, and the sections that the thread is in. -/
  crowd : Crowd κ
  /-- What it has still to do in the innermost of them. -/
  program : Program κ α
  /-- Who waits for what comes of them, the innermost first. -/
  callers : List (Caller κ α)
  /-- What callers have got to see so far. -/
  seen : List (κ × Outcome α)

variable {κ α : Type} [DecidableEq κ]

namespace Performance

/-- **The next step of the thread.** If it is to begin a section, then it goes on in the one that it
is in as long as it waits for the lock of that. If it is done, then it leaves the section that it is
in, and with the last step its caller goes on. -/
def step? (thread : Nat) (p : Performance κ α) : Option (Performance κ α) :=
  match p.program with
  | .within key inner next =>
    match p.crowd.enter? thread key with
    | some c => some ⟨c, inner, ⟨key, next⟩ :: p.callers, p.seen⟩
    | none => (p.crowd.advance? thread).map fun c => { p with crowd := c }
  | .done o =>
    match p.crowd.leases, p.callers with
    | l :: _, caller :: callers =>
      if l.stage = .retired then
        (p.crowd.advance? thread).map
          (⟨·, caller.next o, callers, p.seen ++ [(caller.key, o)]⟩)
      else (p.crowd.advance? thread).map fun c => { p with crowd := c }
    | _, _ => none

/-- **The ways in which a performance goes on.** -/
inductive Goes (thread : Nat) (p : Performance κ α) : Performance κ α → Prop
  /-- It begins a section. -/
  | enter {key : κ} {inner : Program κ α} {next : Outcome α → Program κ α} {c : Crowd κ}
    (hprogram : p.program = .within key inner next) (hc : p.crowd.enter? thread key = some c) :
    Goes thread p ⟨c, inner, ⟨key, next⟩ :: p.callers, p.seen⟩
  /-- It takes a step in the section that it is in: it takes the lock, or it is on its way out. -/
  | goOn {c : Crowd κ} {l : Lease κ} (hl : l ∈ p.crowd.leases.head?)
    (hstage : l.stage = .waiting ∨ (∃ o, p.program = .done o) ∧ l.stage ≠ .retired)
    (hc : p.crowd.advance? thread = some c) :
    Goes thread p { p with crowd := c }
  /-- The section is over, and the caller goes on. -/
  | deliver {o : Outcome α} {caller : Caller κ α} {callers : List (Caller κ α)} {c : Crowd κ}
    {l : Lease κ} (hprogram : p.program = .done o) (hcallers : p.callers = caller :: callers)
    (hl : l ∈ p.crowd.leases.head?) (hstage : l.stage = .retired)
    (hc : p.crowd.advance? thread = some c) :
    Goes thread p ⟨c, caller.next o, callers, p.seen ++ [(caller.key, o)]⟩

end Performance

/-- A program after some steps of the thread. -/
def Program.performed (program : Program κ α) (thread : Nat) : Nat → Option (Performance κ α)
  | 0 => some ⟨.empty, program, [], []⟩
  | n + 1 => (program.performed thread n).bind (Performance.step? thread)

namespace Stage

/-- The number of steps that a thread has taken in a section. -/
def number : Stage → Nat
  | .waiting => 1
  | .inside => 2
  | .leaving => 3
  | .retired => 4

@[simp] theorem number_waiting : number .waiting = 1 := rfl

@[simp] theorem number_retired : number .retired = 4 := rfl

theorem number_le (s : Stage) : s.number ≤ 4 := by
  cases s <;> simp [number]

theorem exists_next? {s : Stage} (h : s ≠ .retired) :
    ∃ s', s.next? = some s' ∧ s'.number = s.number + 1 := by
  cases s <;> simp_all [next?, number]

end Stage

namespace Performance

/-- **What is true of a performance at all times**, after `n` steps of a thread. -/
structure IsOf (program : Program κ α) (thread n : Nat) (p : Performance κ α) : Prop where
  /-- Only this thread is in sections. -/
  isAlone : p.crowd.IsAlone thread
  /-- For each of them somebody waits. -/
  keys : p.crowd.leases.map (·.key) = p.callers.map (·.key)
  /-- It leaves a section only if it is done with it. -/
  isDone : ∀ l ∈ p.crowd.leases, l.stage = .leaving ∨ l.stage = .retired → ∃ o, p.program = .done o
  /-- What is still to come is what is still to come without locks. -/
  conclusion : (program.outcome, program.calls) =
    ((p.program.conclusion p.callers).1, p.seen ++ (p.program.conclusion p.callers).2)
  /-- Every step counts. -/
  steps : n = 5 * p.seen.length + (p.crowd.leases.map (·.stage.number)).sum

variable {program : Program κ α} {thread n : Nat} {p p' : Performance κ α}

/-- A thread that has to go on before it can begin a section waits for a lock. -/
theorem IsOf.goes (h : p.IsOf program thread n) (hstep : p.step? thread = some p') :
    Goes thread p p' := by
  unfold step? at hstep
  rcases hprogram : p.program with o | ⟨key, inner, next⟩
  · rcases hleases : p.crowd.leases with _ | ⟨l, ls⟩
    · simp [hprogram, hleases] at hstep
    · rcases hcallers : p.callers with _ | ⟨caller, callers⟩
      · simp [hprogram, hleases, hcallers] at hstep
      · simp only [hprogram, hleases, hcallers] at hstep
        split_ifs at hstep with hstage
        · obtain ⟨c, hc, rfl⟩ := Option.map_eq_some_iff.1 hstep
          exact .deliver hprogram hcallers (by simp [hleases]) hstage hc
        · obtain ⟨c, hc, rfl⟩ := Option.map_eq_some_iff.1 hstep
          have hp : Goes thread p { p with crowd := c } :=
            .goOn (by simp [hleases]) (Or.inr ⟨⟨o, hprogram⟩, hstage⟩) hc
          simpa [hprogram, hcallers] using hp
  · rcases henter : p.crowd.enter? thread key with _ | c
    · simp only [hprogram, henter] at hstep
      obtain ⟨c, hc, rfl⟩ := Option.map_eq_some_iff.1 hstep
      obtain ⟨l, ls, hleases, -⟩ := h.isAlone.exists_leases_of_advance? hc
      have hinside : ∀ m ∈ ls, m.stage = .inside :=
        fun m hm => h.isAlone.inside m (by simp [hleases, hm])
      -- It is not inside, and not on its way out either.
      have hne : l.stage ≠ .inside := by
        intro hl
        have hready : ∀ m ∈ p.crowd.leases, m.stage = .inside := by
          simpa [hleases] using ⟨hl, hinside⟩
        simp [← h.isAlone.isSome_enter?_iff key, henter] at hready
      have hwaiting : l.stage = .waiting := by
        have hdone := h.isDone l (by simp [hleases])
        rcases hstage : l.stage <;> simp_all
      have hp : Goes thread p { p with crowd := c } :=
        .goOn (by simp [hleases]) (Or.inl hwaiting) hc
      simpa [hprogram] using hp
    · simp only [hprogram, henter] at hstep
      cases hstep
      exact .enter hprogram henter

/-! ### What every step preserves -/

theorem isOf_start (program : Program κ α) (thread : Nat) :
    IsOf program thread 0 ⟨.empty, program, [], []⟩ where
  isAlone := Crowd.isAlone_empty thread
  keys := by simp [Crowd.empty]
  isDone := by simp [Crowd.empty]
  conclusion := by simp [Program.conclusion]
  steps := by simp [Crowd.empty]

/-- A section that has begun waits for its lock, and its caller for what comes of it. -/
theorem IsOf.enter (h : p.IsOf program thread n) {key : κ} {inner : Program κ α}
    {next : Outcome α → Program κ α} {c : Crowd κ} (hprogram : p.program = .within key inner next)
    (hc : p.crowd.enter? thread key = some c) :
    IsOf program thread (n + 1) ⟨c, inner, ⟨key, next⟩ :: p.callers, p.seen⟩ := by
  have hleases := Crowd.IsAlone.leases_of_enter? hc
  have hinside := (h.isAlone.isSome_enter?_iff key).1 (Option.isSome_of_mem hc)
  refine ⟨h.isAlone.enter? hc, ?_, ?_, ?_, ?_⟩
  · simpa [hleases] using h.keys
  · rw [hleases]
    rintro m hm hstage
    rcases List.mem_cons.1 hm with rfl | hm
    · simp at hstage
    · simp [hinside m hm] at hstage
  · have hconclusion := h.conclusion
    rwa [hprogram, Program.conclusion_within] at hconclusion
  · have hsteps := h.steps
    simp only [hleases, List.map_cons, List.sum_cons, Stage.number_waiting]
    omega

/-- A section that goes on is still to come to its end. -/
theorem IsOf.goOn (h : p.IsOf program thread n) {c : Crowd κ} {l : Lease κ}
    (hl : l ∈ p.crowd.leases.head?)
    (hstage : l.stage = .waiting ∨ (∃ o, p.program = .done o) ∧ l.stage ≠ .retired)
    (hc : p.crowd.advance? thread = some c) :
    IsOf program thread (n + 1) { p with crowd := c } := by
  obtain ⟨m, ls, hleases, hleases'⟩ := h.isAlone.exists_leases_of_advance? hc
  obtain rfl : m = l := by simpa [hleases] using hl
  have hne : m.stage ≠ .retired := by
    rcases hstage with hwaiting | ⟨-, hne⟩
    · simp [hwaiting]
    · exact hne
  obtain ⟨stage, hnext, hnumber⟩ := Stage.exists_next? hne
  rw [hnext] at hleases'
  have hinside : ∀ m ∈ ls, m.stage = .inside :=
    fun m hm => h.isAlone.inside m (by simp [hleases, hm])
  refine ⟨h.isAlone.advance? hc, ?_, ?_, h.conclusion, ?_⟩
  · simpa [hleases, hleases'] using h.keys
  · intro n hn hout
    rcases hstage with hwaiting | ⟨hdone, -⟩
    · -- The thread has taken the lock, and is inside of all sections now.
      rw [hwaiting] at hnext
      cases hnext
      have hn' : n = { m with stage := .inside } ∨ n ∈ ls := by simpa [hleases'] using hn
      rcases hn' with rfl | hn'
      · simp at hout
      · simp [hinside n hn'] at hout
    · exact hdone
  · have hsteps := h.steps
    simp only [hleases, List.map_cons, List.sum_cons] at hsteps
    simp only [hleases', Option.map_some, Option.toList_some, List.cons_append, List.nil_append,
      List.map_cons, List.sum_cons, hnumber]
    omega

/-- A section that is over has its caller see what came of it. -/
theorem IsOf.deliver (h : p.IsOf program thread n) {o : Outcome α} {caller : Caller κ α}
    {callers : List (Caller κ α)} {c : Crowd κ} {l : Lease κ} (hprogram : p.program = .done o)
    (hcallers : p.callers = caller :: callers) (hl : l ∈ p.crowd.leases.head?)
    (hstage : l.stage = .retired) (hc : p.crowd.advance? thread = some c) :
    IsOf program thread (n + 1) ⟨c, caller.next o, callers, p.seen ++ [(caller.key, o)]⟩ := by
  obtain ⟨m, ls, hleases, hleases'⟩ := h.isAlone.exists_leases_of_advance? hc
  obtain rfl : m = l := by simpa [hleases] using hl
  have hnext : m.stage.next? = none := by simp [hstage, Stage.next?]
  rw [hnext] at hleases'
  have hls : c.leases = ls := by simpa using hleases'
  refine ⟨h.isAlone.advance? hc, ?_, ?_, ?_, ?_⟩
  · have hkeys := h.keys
    rw [hleases, hcallers] at hkeys
    rw [hls]
    exact (List.cons.inj hkeys).2
  · intro n hn hout
    rw [hls] at hn
    simp [h.isAlone.inside n (by simp [hleases, hn])] at hout
  · simpa [hprogram, hcallers, Program.conclusion, Program.outcome, Program.calls]
      using h.conclusion
  · have hsteps := h.steps
    simp only [hleases, List.map_cons, List.sum_cons, hstage, Stage.number_retired] at hsteps
    simp only [hls, List.length_append, List.length_singleton]
    omega

/-- **A step brings the thread one step further** on the way that it would take without locks. -/
theorem IsOf.step (h : p.IsOf program thread n) (hgoes : Goes thread p p') :
    p'.IsOf program thread (n + 1) := by
  rcases hgoes with ⟨hprogram, hc⟩ | ⟨hl, hstage, hc⟩ | ⟨hprogram, hcallers, hl, hstage, hc⟩
  · exact h.enter hprogram hc
  · exact h.goOn hl hstage hc
  · exact h.deliver hprogram hcallers hl hstage hc

theorem isOf_performed (h : program.performed thread n = some p) : p.IsOf program thread n := by
  induction n generalizing p with
  | zero =>
    obtain rfl : ⟨.empty, program, [], []⟩ = p := by simpa [Program.performed] using h
    exact isOf_start program thread
  | succ n ih =>
    obtain ⟨before, hbefore, hstep⟩ := Option.bind_eq_some_iff.1 h
    exact (ih hbefore).step ((ih hbefore).goes hstep)

/-- The leases that have not been dropped are those of all sections, or of all but the innermost
one, which is over. -/
theorem IsOf.openKeys_cases (h : p.IsOf program thread n) :
    p.crowd.openKeys = p.callers.map (·.key) ∨
      (∃ o, p.program = .done o) ∧ p.crowd.openKeys = p.callers.tail.map (·.key) := by
  rw [List.map_tail, ← h.keys]
  rcases hleases : p.crowd.leases with _ | ⟨l, ls⟩
  · simp [Crowd.openKeys, hleases]
  · have hopen : ls.filter (·.stage ≠ .retired) = ls :=
      List.filter_eq_self.2 fun m hm => by simp [h.isAlone.inside m (by simp [hleases, hm])]
    by_cases hstage : l.stage = .retired
    · refine Or.inr ⟨h.isDone l (by simp [hleases]) (Or.inr hstage), ?_⟩
      rw [Crowd.openKeys, hleases, List.filter_cons_of_neg (by simpa using hstage), hopen,
        List.map_cons, List.tail_cons]
    · left
      rw [Crowd.openKeys, hleases, List.filter_cons_of_pos (by simpa using hstage), hopen]

/-! ### The end -/

/-- **The thread stops only at its end**: when it is in no section and there is nothing left to
do. -/
theorem IsOf.step?_eq_none_iff (h : p.IsOf program thread n) :
    p.step? thread = none ↔ p.crowd.leases = [] ∧ ∃ o, p.program = .done o := by
  have hlength : p.crowd.leases.length = p.callers.length := by
    simpa using congrArg List.length h.keys
  constructor
  · intro hnone
    unfold step? at hnone
    rcases hprogram : p.program with o | ⟨key, inner, next⟩
    · rcases hleases : p.crowd.leases with _ | ⟨l, ls⟩
      · simp
      · have hcan := h.isAlone.isSome_advance? (by simp [hleases])
        rcases hcallers : p.callers with _ | ⟨caller, callers⟩
        · simp [hleases, hcallers] at hlength
        · simp only [hprogram, hleases, hcallers] at hnone
          split_ifs at hnone <;> simp_all
    · rcases henter : p.crowd.enter? thread key with _ | c
      · -- A thread that cannot begin a section is in one, and goes on in it.
        have hleases : p.crowd.leases ≠ [] := by
          intro hnil
          have hready := (h.isAlone.isSome_enter?_iff key).2 (by simp [hnil])
          simp [henter] at hready
        have hcan := h.isAlone.isSome_advance? hleases
        simp only [hprogram, henter, Option.map_eq_none_iff] at hnone
        simp [hnone] at hcan
      · simp [hprogram, henter] at hnone
  · rintro ⟨hleases, o, hprogram⟩
    simp [step?, hprogram, hleases]

/-- What a performance has come to when it stops. -/
theorem IsOf.of_stopped (h : p.IsOf program thread n) (hstop : p.step? thread = none) :
    n = 5 * program.calls.length ∧ p.program = .done program.outcome ∧ p.callers = [] ∧
      p.seen = program.calls ∧ p.crowd.table.inFlight = 0 := by
  obtain ⟨hleases, o, hprogram⟩ := h.step?_eq_none_iff.1 hstop
  have hcallers : p.callers = [] := by simpa [hleases] using h.keys.symm
  have hconclusion : program.outcome = o ∧ program.calls = p.seen := by
    simpa [hprogram, hcallers, Program.conclusion, Program.outcome, Program.calls]
      using h.conclusion
  have hsteps := h.steps
  refine ⟨?_, ?_, hcallers, hconclusion.2.symm, ?_⟩
  · rw [hconclusion.2]
    simpa [hleases] using hsteps
  · rw [hprogram, hconclusion.1]
  · rw [h.isAlone.inFlight_eq]
    simp [Crowd.openKeys, hleases]

/-- There are five steps for every section that callers have yet to see the end of, and fewer for
one that has begun. -/
theorem IsOf.steps_le (h : p.IsOf program thread n) :
    n + p.callers.length + 5 * p.program.calls.length ≤ 5 * program.calls.length := by
  have hsum : (p.crowd.leases.map (·.stage.number)).sum ≤ 4 * p.crowd.leases.length := by
    induction p.crowd.leases with
    | nil => simp
    | cons l ls ih =>
      have hl := l.stage.number_le
      simp only [List.map_cons, List.sum_cons, List.length_cons]
      omega
  have hlength : p.crowd.leases.length = p.callers.length := by
    simpa using congrArg List.length h.keys
  have hcalls : program.calls.length =
      p.seen.length + (p.program.conclusion p.callers).2.length := by
    rw [(Prod.mk.inj h.conclusion).2, List.length_append]
  have hrest := p.program.length_le_conclusion p.callers
  have hsteps := h.steps
  omega

theorem IsOf.step?_eq_none_of_eq (h : p.IsOf program thread n)
    (hn : n = 5 * program.calls.length) : p.step? thread = none := by
  have hle := h.steps_le
  have hcallers : p.callers = [] := List.length_eq_zero_iff.1 (by omega)
  have hleases : p.crowd.leases = [] := by simpa [hcallers] using h.keys
  have hcalls : p.program.calls = [] := List.length_eq_zero_iff.1 (by omega)
  refine h.step?_eq_none_iff.2 ⟨hleases, ?_⟩
  rcases hprogram : p.program with o | ⟨key, inner, next⟩
  · exact ⟨o, rfl⟩
  · simp [hprogram, Program.calls] at hcalls

end Performance

open Performance in
/-- **Sections inside sections are done exactly**, whatever their keys are and however they end. The
thread is not kept from taking the next step until five steps have been taken for each of them;
between any two steps the keys in flight are those of the sections that are open, which are all for
which a caller waits, or all but the innermost if that is over and its caller is about to go on; and
in the end all callers, and the thread itself, have got what they would have got without locks, and
no key is in flight. -/
theorem Program.performed_exact (program : Program κ α) (thread : Nat) :
    (∀ n ≤ 5 * program.calls.length, ∃ p, program.performed thread n = some p ∧
      p.crowd.table.inFlight = p.crowd.openKeys.toFinset.card ∧
      (p.crowd.openKeys = p.callers.map (·.key) ∨
        (∃ o, p.program = .done o) ∧ p.crowd.openKeys = p.callers.tail.map (·.key))) ∧
    ∃ p, program.performed thread (5 * program.calls.length) = some p ∧ p.step? thread = none ∧
      p.program = .done program.outcome ∧ p.callers = [] ∧ p.seen = program.calls ∧
      p.crowd.table.inFlight = 0 := by
  have hperformed : ∀ n ≤ 5 * program.calls.length, ∃ p, program.performed thread n = some p := by
    intro n hn
    induction n with
    | zero => exact ⟨_, rfl⟩
    | succ n ih =>
      obtain ⟨p, hp⟩ := ih (by omega)
      rcases hstep : p.step? thread with _ | p'
      · have hend := ((isOf_performed hp).of_stopped hstep).1
        omega
      · exact ⟨p', by rw [performed, hp, Option.bind_some, hstep]⟩
  constructor
  · intro n hn
    obtain ⟨p, hp⟩ := hperformed n hn
    have h := isOf_performed hp
    exact ⟨p, hp, h.isAlone.inFlight_eq, h.openKeys_cases⟩
  · obtain ⟨p, hp⟩ := hperformed _ (le_refl _)
    have hstop := (isOf_performed hp).step?_eq_none_of_eq rfl
    exact ⟨p, hp, hstop, ((isOf_performed hp).of_stopped hstop).2⟩

/-- A panic goes through three sections, two of them under one key, and is caught around the
outermost. After eight steps the innermost lease has been dropped, and its key is still in
flight. -/
example :
    let program : Program Nat Nat :=
      .within 1 (.within 2 (.within 1 (.done .panicked) .done) .done) fun o =>
        .done (if o = .panicked then .returned 5 else o)
    program.outcome = .returned 5 ∧
      program.calls = [(1, .panicked), (2, .panicked), (1, .panicked)] ∧
      (program.performed 0 8).map (·.crowd.openKeys) = some [2, 1] ∧
      (program.performed 0 8).map (·.crowd.table.inFlight) = some 2 ∧
      (program.performed 0 15).map (·.seen) = some program.calls := by
  decide

end SnapStore
