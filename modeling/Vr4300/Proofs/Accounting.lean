import Vr4300.Proofs.Host
import Vr4300.Proofs.Margin

/-!
# `Proofs.Accounting` — the counters add up

A machine counts in several places: the processor counts instructions and cycles, the interpreter and the
fragments count what they execute, an idle skip counts what it forwards time by, and the vector unit counts
its steps. They are counted at different moments, and a fragment accounts for deferred instructions late.
Behind every request of the host the books are balanced all the same: an instruction was interpreted or ran
from a fragment, the vector unit made a step for it, and a cycle was spent on an instruction or skipped.

## Contents

* `Books`, `Books.Balanced`: the counters, and what balances them; `Books.enter`: an instruction is entered;
* `books_interpreted`, `books_countOp`: an execution with its step of the vector unit is such an entry;
* `balanced_runEach`, `Turn.balanced`, `balanced_run`, `balanced_step`;
* `HostRequest`, `baseline`, `counters_add_up`.
-/

namespace Vr4300

/-! ## Books -/

/-- The counters of a machine. -/
structure Books where
  /-- The steps of the vector unit. -/
  steps : Nat
  /-- The instructions executed. -/
  executed : Nat
  /-- Those that were interpreted. -/
  interpreted : Nat
  /-- Those that ran from a fragment. -/
  compiled : Nat
  /-- The cycles that time was forwarded by. -/
  skipped : Nat
  /-- The cycles, modulo 2^64. -/
  cycles : UInt64

namespace Books

/-- **The counters add up**, since the vector unit had made `base` steps. -/
structure Balanced (b : Books) (base : Nat) : Prop where
  /-- A step for each instruction. -/
  steps : b.steps = base + b.executed
  /-- An instruction is interpreted or runs from a fragment. -/
  executed : b.executed = b.interpreted + b.compiled
  /-- A cycle is an instruction's or is skipped. -/
  cycles : b.cycles = UInt64.ofNat (b.executed + b.skipped)

/-- An instruction with its step of the vector unit, which forwards time by `skipped` cycles. -/
def enter (b : Books) (fromFragment : Bool) (skipped : Nat) : Books where
  steps := b.steps + 1
  executed := b.executed + 1
  interpreted := if fromFragment then b.interpreted else b.interpreted + 1
  compiled := if fromFragment then b.compiled + 1 else b.compiled
  skipped := b.skipped + skipped
  cycles := b.cycles + 1 + UInt64.ofNat skipped

/-- **An entry** keeps the books balanced. -/
theorem Balanced.enter {b : Books} {base : Nat} (h : b.Balanced base) (fromFragment : Bool) (skipped : Nat) :
    (b.enter fromFragment skipped).Balanced base := by
  obtain ⟨hsteps, hexecuted, hcycles⟩ := h
  constructor
  · show b.steps + 1 = base + (b.executed + 1)
    omega
  · show b.executed + 1 =
      (if fromFragment then b.interpreted else b.interpreted + 1) +
        (if fromFragment then b.compiled + 1 else b.compiled)
    split <;> omega
  · show b.cycles + 1 + UInt64.ofNat skipped = UInt64.ofNat (b.executed + 1 + (b.skipped + skipped))
    rw [hcycles, show b.executed + 1 + (b.skipped + skipped) = b.executed + b.skipped + 1 + skipped by omega,
      UInt64.ofNat_add _ skipped, UInt64.ofNat_add _ 1]
    rfl

end Books

/-- The counters of a processor and its vector unit. -/
def Tandem.books (t : Tandem) : Books where
  steps := t.vector.steps
  executed := t.cpu.opsExecuted
  interpreted := t.cpu.statistics.interpretedOps
  compiled := t.cpu.statistics.compiledOps
  skipped := t.cpu.statistics.idleCyclesSkipped
  cycles := t.cpu.cycles

/-! ## What counts -/

/-- The counters of the statistics that the books show. -/
def Statistics.shown (s : Statistics) : Nat × Nat × Nat := (s.interpretedOps, s.compiledOps, s.idleCyclesSkipped)

namespace Cpu

theorem statistics_apply (c : Cpu) (e : Effect) : (c.apply e).statistics = c.statistics := by
  have h : (c.margin.note e).statistics = c.statistics := by cases e <;> rfl
  exact (congrArg Margin.statistics (margin_apply c e)).trans h

theorem statistics_follow (c : Cpu) (base : UInt64) (f : Flow) : (c.follow base f).statistics = c.statistics := by
  cases f <;> rfl

/-- Exceptions and interrupts are counted elsewhere. -/
theorem shown_takeException (c : Cpu) (t : Trap) (inDelay : Bool) :
    (c.takeException t inDelay).statistics.shown = c.statistics.shown := by
  have hcount : (countException t c.statistics).shown = c.statistics.shown := by
    unfold countException
    split <;> rfl
  have h := congrArg (Margin.statistics ∘ margin) (takeException_adorn c c.margin t inDelay)
  exact (congrArg Statistics.shown h).trans hcount

theorem statistics_retire (c : Cpu) : c.retire.statistics = c.statistics := by
  have h := congrArg Cpu.statistics (retire_adorn c c.margin)
  exact h

theorem statistics_schedule (c : Cpu) (kind : EventKind) (n : Int) (action : TimerAction) :
    (c.schedule kind n action).statistics = c.statistics := by
  unfold schedule
  split <;> rfl

theorem statistics_skipIdle (c : Cpu) :
    c.skipIdle.statistics =
      { c.statistics with idleCyclesSkipped := c.statistics.idleCyclesSkipped + c.idleCycles } := by
  have h := congrArg Cpu.statistics (skipIdle_adorn c c.margin)
  exact h

end Cpu

namespace Execution

theorem shown_worked {e : Execution} {w : Cpu} (h : e.worked = some w) :
    w.statistics.shown = e.before.statistics.shown := by
  rcases worked_cases h with ⟨p, -, rfl⟩ | ⟨-, fcr31, t, rfl⟩
  · rw [Cpu.statistics_follow, Cpu.statistics_apply]
  · exact Cpu.shown_takeException { e.before with fcr31 := fcr31 } t _

/-- **An execution** shows what it forwards time by, and nothing else. -/
theorem shown_after {e : Execution} {w : Cpu} (h : e.worked = some w) :
    e.after.statistics.shown =
      (e.before.statistics.interpretedOps, e.before.statistics.compiledOps,
        e.before.statistics.idleCyclesSkipped + e.idleCycles) := by
  have hw := shown_worked h
  obtain ⟨hi, hc, hs⟩ : _ ∧ _ ∧ _ := by simpa [Statistics.shown] using hw
  rw [e.after_eq, idleCycles, h]
  dsimp only
  cases e.idle with
  | false =>
    rw [if_neg Bool.false_ne_true, if_neg Bool.false_ne_true, Cpu.statistics_retire]
    exact hw
  | true =>
    rw [if_pos rfl, if_pos rfl, Cpu.statistics_skipIdle, Cpu.statistics_retire]
    simp [Statistics.shown, hi, hc, hs]

end Execution

/-- The books depend on little. -/
theorem Tandem.books_congr {t t' : Tandem} (hv : t'.vector.steps = t.vector.steps)
    (hn : t'.cpu.opsExecuted = t.cpu.opsExecuted) (hs : t'.cpu.statistics.shown = t.cpu.statistics.shown)
    (hc : t'.cpu.cycles = t.cpu.cycles) : t'.books = t.books := by
  obtain ⟨h1, h2, h3⟩ : _ ∧ _ ∧ _ := by simpa [Statistics.shown] using hs
  unfold Tandem.books
  rw [hv, hn, h1, h2, h3, hc]

/-- A step of the vector unit is shown as one. -/
theorem Tandem.books_stepVector (t : Tandem) : t.stepVector.books = { t.books with steps := t.vector.steps + 1 } := by
  unfold Tandem.stepVector Tandem.books
  dsimp only
  cases t.vector.drive (t.vector.steps + 1) <;> rfl

namespace Execution

variable {e : Execution} {retired : Retired} {cpu : Cpu}

/-- The books behind an execution, before it is counted as one or the other. -/
theorem books_outcome (h : e.outcome = (.ok retired, cpu)) (hT : e.before.Timed) (v : VectorUnit) :
    (⟨cpu, v⟩ : Tandem).books =
      { (⟨e.before, v⟩ : Tandem).books with
        executed := e.before.opsExecuted + 1
        skipped := e.before.statistics.idleCyclesSkipped + e.idleCycles
        cycles := e.before.cycles + 1 + UInt64.ofNat e.idleCycles } := by
  obtain ⟨w, hw⟩ := exists_worked h
  have hafter : e.after = cpu := congrArg Prod.snd h
  obtain ⟨hi, hc, hs⟩ : _ ∧ _ ∧ _ := by simpa [Statistics.shown] using shown_after hw
  unfold Tandem.books
  rw [← hafter, cycles_after hw hT, opsExecuted_after hw hT, hi, hc, hs]

/-- **An interpreted instruction** is an entry. -/
theorem books_interpreted (h : e.outcome = (.ok retired, cpu)) (hT : e.before.Timed) (v : VectorUnit) :
    (Machine.interpreted cpu v).books = (⟨e.before, v⟩ : Tandem).books.enter false e.idleCycles := by
  unfold Machine.interpreted
  rw [Tandem.books_stepVector]
  have hbooks := books_outcome h hT v
  have hinterpreted := congrArg Books.interpreted hbooks
  show { (⟨cpu, v⟩ : Tandem).books with steps := v.steps + 1, interpreted := cpu.statistics.interpretedOps + 1 } = _
  rw [hbooks, show cpu.statistics.interpretedOps = e.before.statistics.interpretedOps from hinterpreted]
  rfl

/-- **An instruction from a fragment** is an entry. -/
theorem books_countOp (h : e.outcome = (.ok retired, cpu)) (hT : e.before.Timed) (v : VectorUnit) :
    (Fragment.countOp ⟨cpu, v⟩).books = (⟨e.before, v⟩ : Tandem).books.enter true e.idleCycles := by
  unfold Fragment.countOp
  rw [Tandem.books_stepVector]
  have hbooks := books_outcome h hT v
  have hcompiled := congrArg Books.compiled hbooks
  show { (⟨cpu, v⟩ : Tandem).books with steps := v.steps + 1, compiled := cpu.statistics.compiledOps + 1 } = _
  rw [hbooks, show cpu.statistics.compiledOps = e.before.statistics.compiledOps from hcompiled]
  rfl

end Execution

/-! ## Fragments -/

/-- **A fragment** keeps the books balanced, wherever it is left. -/
theorem Fragment.balanced_runEach {base : Nat} (usesFloat : Bool) (ops : List FragmentOp) :
    ∀ (index : Nat) {t : Tandem}, t.cpu.Timed → t.books.Balanced base →
      (runEach usesFloat ops index t).2.books.Balanced base := by
  induction ops with
  | nil => intro index t _ h; exact h
  | cons op rest ih =>
    intro index t hT h
    have counted {retired : Retired} {cpu : Cpu} (he : (execution op t.cpu).outcome = (.ok retired, cpu)) :
        (countOp ⟨cpu, t.vector⟩).books.Balanced base := by
      rw [Execution.books_countOp he hT]
      exact h.enter true _
    have hstep := opStep usesFloat op rest index t
    generalize runEach usesFloat (op :: rest) index t = out at hstep ⊢
    generalize executions usesFloat (op :: rest) t = es at hstep
    cases hstep with
    | away _ => exact h
    | fatal _ _ he =>
      rw [show _ = t.cpu from Execution.eq_before_of_error he]
      exact h
    | trapped _ _ he _ => exact counted he
    | look _ _ he _ _ => exact counted he
    | next _ _ he _ _ => exact ih _ (timed_execution hT he) (counted he)

/-! ## Turns -/

namespace Machine

/-- The counters of a machine. -/
def books (m : Machine) : Books := m.tandem.books

theorem books_takeInterrupt (m : Machine) : m.takeInterrupt.books = m.books := by
  have hframe : (m.cpu.takePending).surround = m.cpu.surround ∧
      m.cpu.takePending.statistics.shown = m.cpu.statistics.shown := by
    rcases m.cpu.takePending_cases with ⟨-, h⟩ | ⟨-, h⟩ <;> rw [h]
    · exact ⟨rfl, rfl⟩
    · exact ⟨Cpu.surround_takeException _ _ _, Cpu.shown_takeException _ _ _⟩
  exact Tandem.books_congr rfl (congrArg Surround.opsExecuted hframe.1) hframe.2
    (congrArg Surround.cycles hframe.1)

theorem books_drain (m : Machine) : m.drain.books = m.books := by
  obtain ⟨n, cache, h, -⟩ := drain_eq (P := fun _ => True) (fun _ _ _ => trivial) (m := m) trivial
  rw [h]
  rfl

theorem books_observe (m : Machine) (retired : Retired) : (m.observe retired).books = m.books := by
  unfold observe
  dsimp only
  split <;> rfl

/-- Fetching an instruction shows nothing. -/
theorem books_nextExecution (m : Machine) :
    (⟨m.cpu.nextExecution.before, m.tandem.vector⟩ : Tandem).books = m.books := by
  obtain ⟨bus, h⟩ := m.cpu.exists_nextExecution_before
  rw [h]
  rfl

theorem timed_takeInterrupt {m : Machine} (hT : m.cpu.Timed) : m.takeInterrupt.cpu.Timed :=
  m.cpu.chain_takePending.timed hT

/-- The next instruction, interpreted. -/
theorem balanced_interpreted {m : Machine} {base : Nat} {retired : Retired} {cpu : Cpu} (hT : m.cpu.Timed)
    (h : m.books.Balanced base) (he : m.takeInterrupt.cpu.nextExecution.outcome = (.ok retired, cpu)) :
    (interpreted cpu m.tandem.vector).books.Balanced base := by
  have hbefore := (Cpu.quiet_nextExecution m.takeInterrupt.cpu).timed (timed_takeInterrupt hT)
  have hbooks := (books_nextExecution m.takeInterrupt).trans (books_takeInterrupt m)
  rw [Execution.books_interpreted he hbefore]
  exact (hbooks ▸ h).enter false _

/-- A machine that the next instruction stops. -/
theorem balanced_fatal {m : Machine} {base : Nat} {x : FatalError} {cpu : Cpu} (h : m.books.Balanced base)
    (he : m.takeInterrupt.cpu.nextExecution.outcome = (.error x, cpu)) :
    (⟨cpu, m.tandem.vector⟩ : Tandem).books.Balanced base := by
  have hbooks := (books_nextExecution m.takeInterrupt).trans (books_takeInterrupt m)
  rw [Execution.eq_before_of_error he]
  exact hbooks ▸ h

/-- **A turn** keeps the books balanced, whatever it executes and however it ends. -/
theorem Turn.balanced {m : Machine} {resumeAt : Option UInt64} {es : List Execution}
    {out : Option (Except FatalError Exit) × Machine} (hturn : Turn m resumeAt es out) {base : Nat}
    (hT : m.cpu.Timed) (h : m.books.Balanced base) : out.2.books.Balanced base := by
  have htaken : m.takeInterrupt.books.Balanced base := (books_takeInterrupt m).symm ▸ h
  have hfragment (f : Fragment) :
      (Fragment.runOps f.usesFloat f.ops 0 ⟨0, m.takeInterrupt.cpu.pc⟩
        (entered m.takeInterrupt.tandem)).2.books.Balanced base := by
    rw [runOps_entered hT]
    exact Fragment.balanced_runEach _ _ 0 ((timed_takeInterrupt hT).of_events rfl) htaken
  cases hturn with
  | stop _ => exact h
  | breakpoint _ _ => exact htaken
  | fatal _ _ _ he => exact balanced_fatal h he
  | interpret _ _ _ he =>
    rw [books_drain, books_observe]
    exact balanced_interpreted hT h he
  | @fragmentFatal _ _ _ _ f _ _ _ he =>
    have hf := hfragment f
    rw [he] at hf
    exact hf
  | @fragment _ _ _ _ f _ _ _ he =>
    have hf := hfragment f
    rw [he] at hf
    rw [books_drain]
    exact hf

/-- **A run**, likewise. -/
theorem balanced_run {m : Machine} {base : Nat} {past : List TimerEvent} (hrest : m.AtRest past)
    (h : m.books.Balanced base) (budget : UInt64) : (m.run budget).2.books.Balanced base := by
  by_cases h0 : budget = 0
  · rw [h0, run_zero]
    exact h
  · have hprepare : (m.prepare budget).books = m.books := by
      have hframe := Cpu.surround_schedule m.cpu .runForCycles (min budget.toNat longestRun : Nat) .budgetSpent
      exact Tandem.books_congr rfl (congrArg Surround.opsExecuted hframe)
        (congrArg Statistics.shown (Cpu.statistics_schedule ..)) (congrArg Surround.cycles hframe)
    have hturns := loop_preserves (P := fun k => k.cpu.Timed ∧ k.books.Balanced base)
      (fun resumeAt k hk => by
        obtain ⟨c, hchain, hends⟩ := (turn_spec k resumeAt).chain hk.1
        exact ⟨hends.timed (hchain.timed hk.1), (turn_spec k resumeAt).balanced hk.1 hk.2⟩)
      (m.prepare budget).turnsToEnd m.resumeAt
      ⟨timed_prepare h0 hrest.ticking.timed hrest.free, hprepare.symm ▸ h⟩
    rw [run_eq m h0]
    exact hturns.2

/-- **A single step**, likewise. -/
theorem balanced_step {m : Machine} {base : Nat} (hT : m.cpu.Timed) (h : m.books.Balanced base) :
    m.step.2.books.Balanced base := by
  rcases he : m.takeInterrupt.cpu.nextExecution.outcome with ⟨r, cpu⟩
  have hstep : m.takeInterrupt.tandem.cpu.step = (r, cpu) := (Cpu.step_eq _).trans he
  unfold step interpret
  dsimp only
  rw [hstep]
  cases r with
  | error x => exact balanced_fatal (m := m) h he
  | ok retired =>
    dsimp only
    rw [books_drain]
    exact balanced_interpreted (m := m) hT h he

end Machine

/-! ## Requests -/

/-- What a host asks of a machine. -/
inductive HostRequest where
  /-- It runs it. -/
  | run (budget : UInt64)
  /-- It executes one instruction. -/
  | step
  /-- It resets it. -/
  | reset
  /-- It asks for a halt. -/
  | requestHalt
  /-- It writes a control register. -/
  | writeControl (r : Reg) (v : UInt64)
  /-- It loads a program. -/
  | loadProgram (physical : Nat) (program : List UInt32)
  /-- It switches the recompiler on or off. -/
  | setRecompiler (enabled : Bool)
  /-- It replaces the breakpoints. -/
  | setBreakpoints (breakpoints : List UInt64)
  /-- It attaches an interrupt line. -/
  | attachLine (level : Bool)

/-- A request as an action. -/
def HostRequest.action : HostRequest → HostAction
  | run budget => .run budget
  | step => .step
  | reset => .reset
  | requestHalt => .requestHalt
  | writeControl r v => .writeControl r v
  | loadProgram physical program => .edit (.loadProgram physical program)
  | setRecompiler enabled => .edit (.setRecompiler enabled)
  | setBreakpoints breakpoints => .edit (.setBreakpoints breakpoints)
  | attachLine level => .edit (.attachLine level)

namespace Machine

/-- The machine behind requests in order. -/
def fulfil (m : Machine) (requests : List HostRequest) : Machine := m.performAll (requests.map HostRequest.action)

/-- The steps that the vector unit had made when the machine was reset last; `base` if it was not. -/
def baseline : Machine → Nat → List HostRequest → Nat
  | _, base, [] => base
  | m, _, .reset :: rest => baseline m.reset m.tandem.vector.steps rest
  | m, base, request :: rest => baseline (request.action.perform m) base rest

/-- A reset starts new books. -/
theorem balanced_reset (c : Cpu) (v : VectorUnit) : (⟨c.reset, v⟩ : Tandem).books.Balanced v.steps := by
  have hframe (b : Cpu) : b.scheduleCompare.updateInterrupts.surround = b.surround :=
    Cpu.surround_schedule { b with events := b.events.erase .compare } .compare _ .compareMatch
  have hmargin (b : Cpu) : b.scheduleCompare.updateInterrupts.statistics = b.statistics :=
    Cpu.statistics_schedule { b with events := b.events.erase .compare } .compare _ .compareMatch
  have hbooks : (⟨c.reset, v⟩ : Tandem).books = ⟨v.steps, 0, 0, 0, 0, 0⟩ :=
    Tandem.books_congr (t := ⟨({ c with statistics := {}, opsExecuted := 0, cycles := 0 } : Cpu), v⟩) rfl
      (congrArg Surround.opsExecuted (hframe _)) (congrArg Statistics.shown (hmargin _))
      (congrArg Surround.cycles (hframe _))
  rw [hbooks]
  exact ⟨rfl, rfl, rfl⟩

/-- **Every request** but a reset keeps the books balanced. -/
theorem balanced_request {m : Machine} {base : Nat} {past : List TimerEvent} (hrest : m.AtRest past)
    (h : m.books.Balanced base) (request : HostRequest) (hreset : request ≠ .reset) :
    (request.action.perform m).books.Balanced base := by
  cases request with
  | run budget => exact balanced_run hrest h budget
  | step => exact balanced_step hrest.ticking.timed h
  | reset => exact absurd rfl hreset
  | requestHalt => exact h
  | writeControl r v =>
    have hframe := Cpu.surround_writeControl m.cpu r v
    have hbooks : (m.onCpu (·.writeControl r v)).books = m.books :=
      Tandem.books_congr rfl (congrArg Surround.opsExecuted hframe)
        (congrArg Statistics.shown (Cpu.statistics_apply m.cpu (.control r v))) (congrArg Surround.cycles hframe)
    exact hbooks.symm ▸ h
  | loadProgram physical program => exact h
  | setRecompiler enabled => exact h
  | setBreakpoints breakpoints => exact h
  | attachLine level => exact h

/-- **Requests in order** leave balanced books, begun at the last reset. -/
theorem balanced_fulfil (requests : List HostRequest) :
    ∀ {m : Machine} {base : Nat} {past : List TimerEvent}, m.AtRest past → m.books.Balanced base →
      (m.fulfil requests).books.Balanced (m.baseline base requests) := by
  induction requests with
  | nil => intro m base past _ h; exact h
  | cons request rest ih =>
    intro m base past hrest h
    have hnext := (atRest_perform hrest request.action).1
    by_cases hreset : request = .reset
    · subst hreset
      exact ih hnext (balanced_reset m.cpu m.tandem.vector)
    · have hbaseline : m.baseline base (request :: rest) = (request.action.perform m).baseline base rest := by
        cases request with
        | reset => exact absurd rfl hreset
        | _ => rfl
      rw [hbaseline]
      exact ih hnext (balanced_request hrest h request hreset)

end Machine

/-- **The counters add up.** Whatever a host asks of a machine since it was created, at each point between two
requests: the vector unit has made a step for each instruction since the last reset, each instruction was
interpreted or ran from a fragment, and each cycle was an instruction's or was skipped. -/
theorem counters_add_up (config : Configuration) (bus : Bus) (vector : VectorUnit) (requests : List HostRequest) :
    let start := Machine.create config bus vector
    let m := start.fulfil requests
    m.tandem.vector.steps = start.baseline vector.steps requests + m.cpu.opsExecuted ∧
      m.cpu.opsExecuted = m.cpu.statistics.interpretedOps + m.cpu.statistics.compiledOps ∧
      m.cpu.cycles.toNat = (m.cpu.opsExecuted + m.cpu.statistics.idleCyclesSkipped) % 2 ^ 64 := by
  intro start m
  have hstart : start.books.Balanced vector.steps := Machine.balanced_reset _ vector
  have h := Machine.balanced_fulfil requests (Machine.atRest_create config bus vector) hstart
  exact ⟨h.steps, h.executed, (congrArg UInt64.toNat h.cycles).trans (UInt64.toNat_ofNat' ..)⟩

end Vr4300
