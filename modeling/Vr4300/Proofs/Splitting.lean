import Vr4300.Proofs.MappedCode
import Vr4300.Proofs.SideBySide
import Vr4300.Proofs.Undated

/-!
# `Proofs.Splitting` — splitting a run does not change it

A run sets an event for its end, takes turns until the event has fallen due, and takes the event out again. Two
runs in a row do so twice, and the boundary between them may fall anywhere: on a match of the timer, in a delay
slot, in front of an interrupt.

Without breakpoints, fragments and skipped cycles a turn is a single step (`turn_eq_step`), and a step commutes
with taking the deadline away (`step_undated`). So the turns of a run are as many steps as it has cycles, from the
machine without a deadline (`loop_eq_steps`), and a run is so many steps (`Waits.run_eq`). Steps add up
(`steps_add`), and runs with them.

## Contents

* `Machine.undated`: `step_undated`, for machines that only interpret (`Machine.Interprets`);
* `Machine.Stepped`: the deadline along a single step; `Machine.steps`, `steps_undated`, `steps_add`;
* `turn_eq_step`, `loop_eq_steps`; `Machine.Waits`, `Waits.run_eq`, `Waits.runs_eq`;
* `splitting_unnoticed`, and a run that is split at an interrupt.
-/

namespace Vr4300

/-! ## Caches that are switched off -/

namespace FragmentCache

/-- The cache without a memory of the last exit. -/
def withoutExit (x : FragmentCache) : FragmentCache := { x with lastExit := none }

theorem withoutExit_forget (x : FragmentCache) (entry : UInt64) :
    x.withoutExit.forget entry = (x.forget entry).withoutExit := by
  unfold forget withoutExit dropCompiled
  dsimp only
  rw [show ({ x with lastExit := none } : FragmentCache).compiled? entry = x.compiled? entry from rfl]
  cases x.compiled? entry with
  | none => rfl
  | some id =>
    dsimp only
    cases x.store.get? id <;> rfl

theorem withoutExit_forgetAll (entries : List UInt64) :
    ∀ x : FragmentCache, x.withoutExit.forgetAll entries =
      ((x.forgetAll entries).1, (x.forgetAll entries).2.withoutExit) := by
  intro x
  refine Prod.ext rfl ?_
  show entries.foldl forget x.withoutExit = (entries.foldl forget x).withoutExit
  induction entries generalizing x with
  | nil => rfl
  | cons entry rest ih =>
    rw [List.foldl_cons, List.foldl_cons, withoutExit_forget]
    exact ih (x.forget entry)

end FragmentCache

namespace Machine

/-! ## Machines without a deadline -/

/-- The machine as a run leaves it: it remembers no breakpoint to pass, and no exit. -/
def afresh (m : Machine) : Machine := { m with resumeAt := none, cache := m.cache.withoutExit }

/-- The machine without a deadline. -/
def undated (m : Machine) : Machine := m.afresh.onCpu Cpu.undated

/-- **Only single instructions are executed**: no fragments are run, nothing is stopped at, and no cycles are
skipped. -/
structure Interprets (m : Machine) : Prop where
  /-- The recompiler is off. -/
  off : m.cache.enabled = false
  /-- There are no breakpoints. -/
  unbroken : m.breakpoints = []
  /-- Idle loops are gone through. -/
  stays : m.cpu.settings.idleLoopSkip = false
  /-- Nothing is due. -/
  timed : m.cpu.Timed

variable {m : Machine}

theorem invalidateCode_undated (m : Machine) (address len : UInt64) :
    m.undated.invalidateCode address len = (m.invalidateCode address len).undated := by
  unfold invalidateCode FragmentCache.invalidate
  dsimp only
  rw [show m.undated.cache = m.cache.withoutExit from rfl, show m.cache.withoutExit.index = m.cache.index from rfl,
    show m.cache.withoutExit.recorderTouches address len = m.cache.recorderTouches address len from rfl,
    FragmentCache.withoutExit_forgetAll]
  rfl

theorem invalidateMapped_undated (m : Machine) : m.undated.invalidateMapped = m.invalidateMapped.undated := by
  unfold invalidateMapped FragmentCache.invalidateMapped
  dsimp only
  rw [show m.undated.cache = m.cache.withoutExit from rfl, FragmentCache.withoutExit_forgetAll]
  rfl

theorem drain_undated (m : Machine) : m.undated.drain = m.drain.undated := by
  have hranges (ranges : List (UInt64 × UInt64)) : ∀ k : Machine,
      ranges.foldl (fun m range => m.invalidateCode range.1 range.2) k.undated =
        (ranges.foldl (fun m range => m.invalidateCode range.1 range.2) k).undated := by
    induction ranges with
    | nil => intro k; rfl
    | cons range rest ih =>
      intro k
      rw [List.foldl_cons, List.foldl_cons, invalidateCode_undated]
      exact ih _
  unfold drain
  rw [show m.undated.cpu.codeInvalidations = m.cpu.codeInvalidations from rfl,
    show m.undated.cpu.tlbDirty = m.cpu.tlbDirty from rfl]
  dsimp only
  split
  · rfl
  · let reset := m.onCpu fun c => { c with codeInvalidations := [], tlbDirty := false }
    have hreset := hranges m.cpu.codeInvalidations reset
    split
    · exact (congrArg invalidateMapped hreset).trans (invalidateMapped_undated _)
    · exact hreset

theorem takeInterrupt_undated (m : Machine) : m.undated.takeInterrupt = m.takeInterrupt.undated := by
  show m.afresh.onCpu (fun c => c.undated.takePending) = m.afresh.onCpu (fun c => c.takePending.undated)
  simp only [Cpu.takePending_undated]

theorem interpret_undated (hT : m.cpu.Timed) (hstays : m.cpu.settings.idleLoopSkip = false) :
    m.undated.interpret = (m.interpret.1, m.interpret.2.undated) := by
  have hstep : m.undated.tandem.cpu.step = (m.tandem.cpu.step.1, m.tandem.cpu.step.2.undated) :=
    Cpu.step_undated hT hstays
  unfold interpret
  dsimp only
  rw [hstep]
  rcases m.tandem.cpu.step with ⟨r, cpu⟩
  cases r with
  | error x => rfl
  | ok retired =>
    refine Prod.ext rfl ?_
    show m.undated.withTandem (interpreted cpu.undated m.tandem.vector) =
      (m.withTandem (interpreted cpu m.tandem.vector)).undated
    unfold interpreted Tandem.count Tandem.onCpu Tandem.stepVector
    dsimp only
    cases m.tandem.vector.drive (m.tandem.vector.steps + 1) <;> rfl

/-- **A single step** does what it would do without a deadline. -/
theorem step_undated (h : m.Interprets) : m.undated.step = (m.step.1, m.step.2.undated) := by
  have htake : Chain m.cpu [] m.takeInterrupt.cpu := m.cpu.chain_takePending
  have hstays : m.takeInterrupt.cpu.settings.idleLoopSkip = false := by
    rw [htake.same Cpu.settings (fun _ _ hq => hq.settings) (by simp)]
    exact h.stays
  have hinterpret := interpret_undated (m := m.takeInterrupt) (htake.timed h.timed) hstays
  unfold step
  rw [takeInterrupt_undated, hinterpret]
  rcases m.takeInterrupt.interpret with ⟨r, k⟩
  cases r with
  | error x => rfl
  | ok retired => exact Prod.ext rfl (drain_undated k)

/-! ## Single steps -/

/-- The processor in front of the instruction of a single step. -/
theorem chain_nextExecution_step (m : Machine) : Chain m.cpu [] m.takeInterrupt.cpu.nextExecution.before :=
  m.cpu.chain_takePending.append (.single (Cpu.quiet_nextExecution m.takeInterrupt.cpu))

/-- A single step leaves the machine with single instructions. -/
theorem Interprets.step (h : m.Interprets) : m.step.2.Interprets := by
  have hbefore : m.takeInterrupt.cpu.nextExecution.before.Timed := m.chain_nextExecution_step.timed h.timed
  have hmachine : m.step.2.cache.enabled = m.cache.enabled ∧ m.step.2.breakpoints = m.breakpoints := by
    obtain ⟨t, hstep | hstep⟩ := m.step_snd
    · rw [hstep]
      exact ⟨rfl, rfl⟩
    · rw [hstep, enabled_drain, breakpoints_drain]
      exact ⟨rfl, rfl⟩
  refine ⟨hmachine.1.trans h.off, hmachine.2.trans h.unbroken, ?_, ?_⟩
  · rw [m.chain_step.same Cpu.settings (fun _ _ hq => hq.settings) (by simp), Execution.settings_after hbefore,
      m.chain_nextExecution_step.same Cpu.settings (fun _ _ hq => hq.settings) (by simp)]
    exact h.stays
  · exact m.chain_step.timed (Execution.timed_after hbefore)

/-- A single step answers what its instruction does. -/
theorem step_fst (m : Machine) : m.step.1 = m.takeInterrupt.cpu.nextExecution.outcome.1 := by
  rcases he : m.takeInterrupt.cpu.nextExecution.outcome with ⟨r, cpu⟩
  have hstep : m.takeInterrupt.tandem.cpu.step = (r, cpu) := (Cpu.step_eq _).trans he
  unfold step interpret
  dsimp only
  rw [hstep]
  cases r <;> rfl

/-- How a single step leaves the run that it is part of. -/
inductive Stepped (m : Machine) : Except FatalError Retired × Machine → Prop where
  /-- It stops the machine, and the deadline is where it was. -/
  | fatal {x : FatalError} {k : Machine} (hdead : k.cpu.deadline? = m.cpu.deadline?)
      (hbreak : k.cpu.breakout = m.cpu.breakout) : Stepped m (.error x, k)
  /-- The deadline is a cycle closer, and still ahead. -/
  | closer {retired : Retired} {k : Machine}
      (hdead : k.cpu.deadline? = m.cpu.deadline?.map (fun left : Int => left - 1))
      (hahead : m.cpu.deadline? ≠ some 1) (hbreak : k.cpu.breakout = m.cpu.breakout) : Stepped m (.ok retired, k)
  /-- The deadline is reached. -/
  | reached {retired : Retired} {k : Machine} (hlast : m.cpu.deadline? = some 1)
      (hbreak : k.cpu.breakout = some (m.cpu.breakout.getD .budgetExhausted)) : Stepped m (.ok retired, k)

/-- **A single step brings the deadline closer** by a cycle, unless it stops the machine. -/
theorem Interprets.stepped (h : m.Interprets) : m.Stepped m.step := by
  let e := m.takeInterrupt.cpu.nextExecution
  have htake := m.chain_nextExecution_step
  have hbefore : e.before.Timed := htake.timed h.timed
  have hdead : e.before.deadline? = m.cpu.deadline? := htake.deadline?_nil rfl
  have hbreak : e.before.breakout = m.cpu.breakout := htake.same Cpu.breakout (fun _ _ hq => hq.breakout) (by simp)
  have hstays : e.before.settings.idleLoopSkip = false := by
    rw [htake.same Cpu.settings (fun _ _ hq => hq.settings) (by simp)]
    exact h.stays
  have hdead' : m.step.2.cpu.deadline? = e.after.deadline? := m.chain_step.deadline?_nil rfl
  have hbreak' : m.step.2.cpu.breakout = e.after.breakout :=
    m.chain_step.same Cpu.breakout (fun _ _ hq => hq.breakout) (by simp)
  have hfst := m.step_fst
  generalize m.step = out at hdead' hbreak' hfst ⊢
  obtain ⟨r, k⟩ := out
  rcases he : e.outcome with ⟨r', cpu⟩
  obtain rfl : r = r' := hfst.trans (congrArg Prod.fst he)
  cases r with
  | error x =>
    have hsame : e.after = e.before := (congrArg Prod.snd he).trans (Execution.eq_before_of_error he)
    rw [hsame] at hdead' hbreak'
    exact .fatal (hdead'.trans hdead) (hbreak'.trans hbreak)
  | ok retired =>
    obtain ⟨w, hw⟩ := Execution.exists_worked he
    rcases Execution.deadline?_after hw hbefore with ⟨hleft, hkept⟩ | ⟨hone, -, hspent⟩
    · rw [Execution.idleCycles_of_stays hstays, hdead] at hleft
      have hcloser : e.after.deadline? = m.cpu.deadline?.map (fun left : Int => left - 1) := by
        rw [hleft]
        simp
      refine .closer (hdead'.trans hcloser) ?_ (hbreak'.trans (hkept.trans hbreak))
      -- what is due is not ahead
      intro hone
      rw [hone] at hcloser
      have hahead := (Execution.timed_after hbefore).agenda
      have hmem := (Schedule.until?_eq_some_iff hahead.distinct).mp hcloser
      exact absurd (hahead.ahead _ hmem).1 (by decide)
    · exact .reached (hdead.symm.trans hone) (hbreak'.trans (hspent.trans (by rw [hbreak])))

/-- So many single steps, up to the first fatal error. -/
def steps : Nat → Machine → Except FatalError Unit × Machine
  | 0, m => (.ok (), m)
  | n + 1, m =>
    match m.step with
    | (.error x, k) => (.error x, k)
    | (.ok _, k) => steps n k

theorem steps_of_error {x : FatalError} {k : Machine} (h : m.step = (.error x, k)) (n : Nat) :
    steps (n + 1) m = (.error x, k) := by
  rw [steps, h]

theorem steps_of_ok {retired : Retired} {k : Machine} (h : m.step = (.ok retired, k)) (n : Nat) :
    steps (n + 1) m = steps n k := by
  rw [steps, h]

/-- **Single steps** do what they would do without a deadline. -/
theorem steps_undated (n : Nat) :
    ∀ {m : Machine}, m.Interprets → steps n m.undated = ((steps n m).1, (steps n m).2.undated) := by
  induction n with
  | zero => intro m _; rfl
  | succ n ih =>
    intro m h
    have hundated := step_undated h
    have hnext := h.step
    rcases hstep : m.step with ⟨r, k⟩
    rw [hstep] at hundated hnext
    cases r with
    | error x => rw [steps_of_error hstep, steps_of_error hundated]
    | ok retired =>
      rw [steps_of_ok hstep, steps_of_ok hundated]
      exact ih hnext

/-- Single steps go on where others stopped. -/
theorem steps_add (a b : Nat) :
    ∀ m : Machine, steps (a + b) m =
      match steps a m with
      | (.error x, k) => (.error x, k)
      | (.ok _, k) => steps b k := by
  induction a with
  | zero => intro m; rw [Nat.zero_add]; rfl
  | succ a ih =>
    intro m
    rw [Nat.succ_add]
    rcases hstep : m.step with ⟨r, k⟩
    cases r with
    | error x => rw [steps_of_error hstep, steps_of_error hstep]
    | ok retired =>
      rw [steps_of_ok hstep, steps_of_ok hstep]
      exact ih k

/-! ## Runs -/

/-- Without fragments and breakpoints, **a turn is a single step**. -/
theorem turn_eq_step (h : m.Interprets) (hb : m.cpu.breakout = none) (hr : m.resumeAt = none)
    (resumeAt : Option UInt64) :
    m.turn resumeAt =
      match m.afresh.step with
      | (.error x, k) => (some (.error x), k)
      | (.ok _, k) => (none, k) := by
  have hstay := atBreakpoint_of_unbroken (m := m.takeInterrupt) h.unbroken resumeAt
  obtain ⟨hl, hsnd⟩ := lookup_of_disabled (m := m.takeInterrupt) h.off
  have hafresh : m.takeInterrupt.lookup.2 = m.afresh.takeInterrupt := by
    rw [hsnd]
    unfold afresh
    rw [← hr]
    rfl
  rcases he : m.takeInterrupt.cpu.nextExecution.outcome with ⟨r, cpu⟩
  have hstep : m.afresh.takeInterrupt.tandem.cpu.step = (r, cpu) := (Cpu.step_eq _).trans he
  unfold step interpret
  dsimp only
  rw [hstep]
  cases r with
  | error x =>
    rw [(turn_proceed hb hstay).1 _ _ (proceed_fatal hl he), hafresh]
    rfl
  | ok retired =>
    rw [(turn_proceed hb hstay).2 _ (proceed_interpret hl he), hafresh,
      observe_of_disabled (m := m.afresh.takeInterrupt.withTandem _) h.off]
    rfl

/-- What a run has forgotten stays forgotten in single steps. -/
theorem afresh_step (h : m.afresh = m) : m.step.2.afresh = m.step.2 := by
  have htake (t : Tandem) : (m.takeInterrupt.withTandem t).afresh = m.takeInterrupt.withTandem t :=
    congrArg (fun k : Machine => k.takeInterrupt.withTandem t) h
  obtain ⟨t, hstep | hstep⟩ := m.step_snd
  · rw [hstep]
    exact htake t
  · obtain ⟨n, cache, heq, hcache⟩ := drain_eq (P := fun x => x.withoutExit = x)
      (fun x entry hx => by rw [← FragmentCache.withoutExit_forget, hx])
      (m := m.takeInterrupt.withTandem t) (congrArg (fun k : Machine => k.cache) (htake t))
    have hresume : m.resumeAt = none := (congrArg (fun k : Machine => k.resumeAt) h).symm
    rw [hstep, heq]
    unfold afresh
    dsimp only
    rw [hcache, ← hresume]
    rfl

/-- The end of a run that is without a deadline already, but for its event. -/
theorem onCpu_finish (hT : m.cpu.Timed) (hb : m.cpu.breakout = none) (h : m.afresh = m) :
    m.onCpu finish = m.undated := by
  have hfinish : finish m.cpu = m.cpu.undated := Cpu.finish_eq_undated hT hb
  show m.withTandem ⟨finish m.cpu, m.tandem.vector⟩ = m.afresh.withTandem ⟨m.cpu.undated, m.tandem.vector⟩
  rw [hfinish, h]

/-- **The turns of a run** are single steps, one for each cycle, from the machine without a deadline. -/
theorem loop_eq_steps (limit : Nat) :
    ∀ {m : Machine} {n : Nat} (resumeAt : Option UInt64), n + 2 ≤ limit → m.Interprets → m.resumeAt = none →
      m.cpu.breakout = none → m.cpu.deadline? = some ((n : Int) + 1) →
      (loop limit resumeAt m).1 = some ((steps (n + 1) m.undated).1.map fun _ => .budgetExhausted) ∧
        (loop limit resumeAt m).2.onCpu finish = (steps (n + 1) m.undated).2 := by
  induction limit with
  | zero => intro m n resumeAt hlimit; omega
  | succ limit ih =>
    intro m n resumeAt hlimit h hresume hb hdead
    have hafresh : m.afresh.Interprets := ⟨h.off, h.unbroken, h.stays, h.timed⟩
    have hturn := turn_eq_step h hb hresume resumeAt
    have hundated : m.undated.step = (m.afresh.step.1, m.afresh.step.2.undated) := step_undated hafresh
    have hnext := hafresh.step
    have hforgets := afresh_step (m := m.afresh) rfl
    have hstepped := hafresh.stepped
    generalize m.afresh.step = out at hturn hundated hnext hforgets hstepped
    cases hstepped with
    | @fatal x k _ hbreak =>
      rw [loop_of_some hturn, steps_of_error hundated]
      exact ⟨rfl, onCpu_finish hnext.timed (hbreak.trans hb) hforgets⟩
    | @closer retired k hcloser hahead hbreak =>
      have hne : n ≠ 0 := by
        rintro rfl
        exact hahead hdead
      obtain ⟨n, rfl⟩ := Nat.exists_eq_succ_of_ne_zero hne
      rw [loop_of_none hturn, steps_of_ok hundated]
      refine ih none (by omega) hnext (congrArg (·.resumeAt) hforgets).symm (hbreak.trans hb) ?_
      rw [hcloser, show m.afresh.cpu.deadline? = _ from hdead, Option.map_some]
      push_cast
      rw [Int.add_sub_cancel]
    | @reached retired k hlast hbreak =>
      obtain rfl : n = 0 := by
        have hone : (n : Int) + 1 = 1 := Option.some.inj (hdead.symm.trans hlast)
        omega
      obtain ⟨limit, rfl⟩ := Nat.exists_eq_succ_of_ne_zero (show limit ≠ 0 by omega)
      rw [show m.afresh.cpu.breakout = none from hb] at hbreak
      rw [loop_of_none hturn, loop_of_some (turn_stop hbreak none).2, steps_of_ok hundated]
      refine ⟨rfl, ?_⟩
      -- the reason to stop is cleared, so what is left is the machine without a deadline
      exact onCpu_finish (m := k.onCpu fun c => { c with breakout := none })
        (hnext.timed.of_events rfl) rfl (congrArg (·.onCpu fun c => { c with breakout := none }) hforgets)

/-- **Between two runs** of a machine that only interprets. -/
structure Waits (m : Machine) : Prop extends Interprets m where
  /-- No halt was requested. -/
  unhalted : m.cpu.breakout = none
  /-- No run has a deadline. -/
  unbounded : m.cpu.deadline? = none

theorem Waits.undated_eq (h : m.Waits) : m.undated = m.afresh := by
  have hcpu : m.cpu.undated = m.cpu := Cpu.undated_of_free h.timed h.unbounded h.unhalted
  show m.afresh.withTandem ⟨m.cpu.undated, m.tandem.vector⟩ = m.afresh
  rw [hcpu]
  rfl

theorem Waits.afresh (h : m.Waits) : m.afresh.Waits :=
  { h.toInterprets with unhalted := h.unhalted, unbounded := h.unbounded }

theorem Waits.step (h : m.Waits) : m.step.2.Waits := by
  have hstepped := h.stepped
  have hnext := h.toInterprets.step
  generalize m.step = out at hstepped hnext
  cases hstepped with
  | fatal hdead hbreak =>
    exact { hnext with unhalted := hbreak.trans h.unhalted, unbounded := hdead.trans h.unbounded }
  | closer hdead _ hbreak =>
    refine { hnext with unhalted := hbreak.trans h.unhalted, unbounded := ?_ }
    rw [hdead, h.unbounded]
    rfl
  | reached hlast _ =>
    rw [h.unbounded] at hlast
    cases hlast

theorem Waits.steps (n : Nat) : ∀ {m : Machine}, m.Waits → (Machine.steps n m).2.Waits := by
  induction n with
  | zero => intro m h; exact h
  | succ n ih =>
    intro m h
    have hnext := h.step
    rcases hstep : m.step with ⟨r, k⟩
    rw [hstep] at hnext
    cases r with
    | error x =>
      rw [steps_of_error hstep]
      exact hnext
    | ok retired =>
      rw [steps_of_ok hstep]
      exact ih hnext

/-- What a run forgets makes no difference to single steps. -/
theorem Waits.steps_afresh (h : m.Waits) (n : Nat) :
    Machine.steps n m.afresh = ((Machine.steps n m).1, (Machine.steps n m).2.afresh) := by
  rw [← h.undated_eq, steps_undated n h.toInterprets, (h.steps n).undated_eq]

/-- The answer of a run whose single steps end so, and the machine behind it. -/
def spent (out : Except FatalError Unit × Machine) : Option (Except FatalError Exit) × Machine :=
  (some (out.1.map fun _ => .budgetExhausted), out.2.afresh)

/-- **A run is as many single steps** as it has cycles. -/
theorem Waits.run_eq (h : m.Waits) {budget : UInt64} (h0 : budget ≠ 0) :
    m.run budget = spent (Machine.steps (cyclesOf budget) m) := by
  have hcpu := cpu_prepare h0 h.unbounded
  have htimed := timed_prepare h0 h.timed h.unbounded
  have hbreak : (m.prepare budget).cpu.breakout = none := by rw [hcpu]; exact h.unhalted
  have hinterprets : (m.prepare budget).Interprets :=
    ⟨h.off, h.unbroken, by rw [hcpu]; exact h.stays, htimed⟩
  -- the deadline that was set is the one that is taken away
  have hundated : (m.prepare budget).undated = m.undated := by
    show m.afresh.withTandem ⟨(m.prepare budget).cpu.undated, m.tandem.vector⟩ = _
    rw [Cpu.undated_prepare h.timed h.unbounded h0]
    rfl
  obtain ⟨n, hn⟩ : ∃ n, cyclesOf budget = n + 1 := Nat.exists_eq_succ_of_ne_zero (cyclesOf_pos h0).ne'
  have hturns : n + 2 ≤ (m.prepare budget).turnsToEnd := by
    rw [turnsToEnd_prepare h0 h.timed h.unbounded]
    omega
  have hdead : (m.prepare budget).cpu.deadline? = some ((n : Int) + 1) := by
    rw [deadline?_prepare h0 h.timed h.unbounded, hn]
    push_cast
    rfl
  obtain ⟨hresult, hmachine⟩ :=
    loop_eq_steps (m.prepare budget).turnsToEnd m.resumeAt hturns hinterprets rfl hbreak hdead
  rw [hundated, ← hn, h.undated_eq, h.steps_afresh] at hresult hmachine
  rw [Machine.run_eq m h0]
  exact Prod.ext hresult hmachine

/-- Runs in a row, up to the first fatal error. -/
def runs : List UInt64 → Machine → Option (Except FatalError Exit) × Machine
  | [], m => (some (.ok .budgetExhausted), m)
  | budget :: rest, m =>
    match m.run budget with
    | (some (.ok _), k) => runs rest k
    | (r, k) => (r, k)

/-- **Runs in a row** are as many single steps as they have cycles together. -/
theorem Waits.runs_eq (budgets : List UInt64) :
    ∀ {m : Machine} {budget : UInt64}, m.Waits → (∀ b ∈ budget :: budgets, b ≠ 0) →
      runs (budget :: budgets) m = spent (Machine.steps ((budget :: budgets).map cyclesOf).sum m) := by
  induction budgets with
  | nil =>
    intro m budget h h0
    rw [List.map_singleton, List.sum_singleton, runs, h.run_eq (h0 budget List.mem_cons_self)]
    rcases Machine.steps (cyclesOf budget) m with ⟨r, k⟩
    cases r <;> rfl
  | cons next rest ih =>
    intro m budget h h0
    have hsteps := h.steps (cyclesOf budget)
    rw [List.map_cons, List.sum_cons, steps_add, runs, h.run_eq (h0 budget List.mem_cons_self)]
    rcases hout : Machine.steps (cyclesOf budget) m with ⟨r, k⟩
    rw [hout] at hsteps
    cases r with
    | error x => rfl
    | ok done =>
      refine (ih hsteps.afresh fun b hb => h0 b (List.mem_cons_of_mem _ hb)).trans ?_
      rw [Waits.steps_afresh hsteps]
      rfl

end Machine

/-! ## Splitting -/

/-- **Splitting a run does not change it**, where nothing but single instructions is executed. From any state that
a host can reach, with any vector unit on the line, runs in a row give what single steps give, one for each of
their cycles: the same answer, which is the first fatal error if there is one, and the same machine, wherever a
run ends and the next one starts. So two runs in a row do what one does with both budgets. (Each run is cut at
`longestRun` cycles, and so is the one with both.) -/
theorem splitting_unnoticed (config : Configuration) (bus : Bus) (vector : VectorUnit)
    (operations : List Operation) (horderly : ∀ o ∈ operations, o.Orderly) :
    let m := (Machine.create config bus vector).operate operations
    m.cache.enabled = false → m.breakpoints = [] → m.cpu.settings.idleLoopSkip = false → m.cpu.breakout = none →
      (∀ budgets : List UInt64, budgets ≠ [] → (∀ b ∈ budgets, b ≠ 0) →
          m.runs budgets = Machine.spent (m.steps (budgets.map Machine.cyclesOf).sum)) ∧
        ∀ a b : UInt64, a ≠ 0 → b ≠ 0 → a.toNat + b.toNat ≤ Machine.longestRun →
          m.runs [a, b] = m.run (a + b) ∧ m.run (a + b) = Machine.spent (m.steps (a.toNat + b.toNat)) := by
  intro m hoff hunbroken hstays hunhalted
  have hcreate := Machine.atRest_create config bus vector
  have hfree : m.cpu.Free := Machine.free_operate operations ⟨hcreate.ticking.timed, hcreate.free⟩ horderly
  have hwaits : m.Waits := ⟨⟨hoff, hunbroken, hstays, hfree.timed⟩, hunhalted, hfree.unbounded⟩
  have hall (budgets : List UInt64) (hne : budgets ≠ []) (h0 : ∀ b ∈ budgets, b ≠ 0) :
      m.runs budgets = Machine.spent (m.steps (budgets.map Machine.cyclesOf).sum) := by
    obtain ⟨budget, rest, rfl⟩ := List.exists_cons_of_ne_nil hne
    exact Machine.Waits.runs_eq rest hwaits h0
  refine ⟨hall, ?_⟩
  intro a b ha hb hlong
  have hsum : (a + b).toNat = a.toNat + b.toNat := by
    unfold Machine.longestRun at hlong
    rw [UInt64.toNat_add, Nat.mod_eq_of_lt (by omega)]
  have hcycles : Machine.cyclesOf a + Machine.cyclesOf b = a.toNat + b.toNat ∧
      Machine.cyclesOf (a + b) = a.toNat + b.toNat := by
    unfold Machine.cyclesOf
    rw [hsum]
    omega
  have htwo : m.runs [a, b] = Machine.spent (m.steps (a.toNat + b.toNat)) := by
    have hruns := hall [a, b] (by simp) (by simp [ha, hb])
    simpa [hcycles.1] using hruns
  have hone : m.run (a + b) = Machine.spent (m.steps (a.toNat + b.toNat)) := by
    have hne : a + b ≠ 0 := by
      intro hzero
      rw [hzero] at hsum
      have hpos : a.toNat ≠ 0 := fun h => ha (UInt64.toNat_inj.mp h)
      have hnone : (0 : UInt64).toNat = 0 := rfl
      omega
    rw [Machine.Waits.run_eq hwaits hne, hcycles.2]
  exact ⟨htwo.trans hone.symm, hone⟩

/-- A machine in front of a program that waits for a match of the timer in a loop. Its vector unit drives the line. -/
def ringing : Machine :=
  (Machine.create
    { general := { startPc := 0xFFFFFFFF80000000, idleLoopSkip := false }, memory := { ramSize := 512 }
      recompiler := { enabled := false } } {} { drive := fun n => some (n == 7) }).operate
    [.loadProgram 0 [0x24010005, 0x40815800, 0x24028001, 0x40826000, 0x1000FFFF, 0]]

/-- The first of two runs ends with the match, in front of the delay slot of the loop; the second one begins with
the interrupt. -/
theorem splitting_unnoticed_ringing :
    let first := (ringing.run 5).2.cpu
    first.inDelaySlot = true ∧ first.cp0.values.read Control.cause = Control.causeIP7 ∧
      (ringing.runs [5, 1]).2.cpu.pc = 0xFFFFFFFFBFC00384 ∧
      ringing.runs [5, 4] = ringing.run 9 ∧ ringing.run 9 = Machine.spent (ringing.steps 9) :=
  ⟨by decide +kernel, by decide +kernel, by decide +kernel,
    (splitting_unnoticed _ _ _ [.loadProgram 0 [0x24010005, 0x40815800, 0x24028001, 0x40826000, 0x1000FFFF, 0]]
      (by simp [Operation.Orderly]) rfl rfl rfl rfl).2 5 4 (by decide) (by decide) (by decide)⟩

end Vr4300
