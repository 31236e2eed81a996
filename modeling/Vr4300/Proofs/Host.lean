import Vr4300.Proofs.Armed
import Vr4300.Proofs.Deadline
import Vr4300.Proofs.FloatGate

/-!
# `Proofs.Host` — everything that happens to a machine

A machine is created, and then the host acts on it: it runs it, steps it, resets it, writes control
registers, asks for a halt, or edits what has nothing to do with time. What happened is written down in a
journal, in order: each instruction that was executed, each write, each reset.

Between two actions a machine is at rest (`Machine.AtRest`): nothing is due, no run has a deadline, and the
timer is what the journal says. Each action preserves this (`atRest_perform`), so it holds of every state
that a host can reach (`atRest_performAll`), and at every instruction boundary on the way there.

## Contents

* `Edit`, `HostAction`, `HostAction.perform`;
* `Happening`, `Machine.journal`;
* `Cpu.Ticking`: the timer agrees with a past; along quiet steps, executions and chains;
* `Machine.AtRest`, `atRest_create`, `atRest_perform`, `atRest_performAll`.
-/

namespace Vr4300

/-! ## Actions -/

/-- What the host does besides: it loads programs, sets registers and breakpoints, drives the line, switches
the recompiler. Pending events, the timer and derived fields are not its business. -/
structure Edit where
  /-- What is done. -/
  perform : Machine → Machine
  /-- No event comes or goes. -/
  events : ∀ m, (perform m).cpu.events = m.cpu.events
  /-- The timer is left alone. -/
  timing : ∀ m, (perform m).cpu.cp0.timing = m.cpu.cp0.timing
  /-- Status and what is derived from it stay together. -/
  gated : ∀ m, m.cpu.Gated → (perform m).cpu.Gated

namespace Edit

/-- Loads a program. -/
def loadProgram (physical : Nat) (program : List UInt32) : Edit where
  perform m := m.loadProgram physical program
  events _ := rfl
  timing _ := rfl
  gated _ h := h

/-- Switches the recompiler on or off. -/
def setRecompiler (enabled : Bool) : Edit where
  perform m := { m with cache := m.cache.setEnabled enabled }
  events _ := rfl
  timing _ := rfl
  gated _ h := h

/-- Replaces the breakpoints. -/
def setBreakpoints (breakpoints : List UInt64) : Edit where
  perform m := { m with breakpoints := breakpoints }
  events _ := rfl
  timing _ := rfl
  gated _ h := h

/-- Attaches a line, which samples it. -/
def attachLine (level : Bool) : Edit where
  perform m := m.attachLine level
  events _ := rfl
  timing m := Cpu.timing_updateInterrupts { m.cpu with line := level }
  gated m h := Cpu.Gated.updateInterrupts (c := { m.cpu with line := level }) h

end Edit

/-- What the host does to a machine. -/
inductive HostAction where
  /-- Runs it. -/
  | run (budget : UInt64)
  /-- Executes one instruction. -/
  | step
  /-- Resets it. -/
  | reset
  /-- Asks it to halt. -/
  | requestHalt
  /-- Writes a control register. -/
  | writeControl (r : Reg) (v : UInt64)
  /-- Does something that leaves time alone. -/
  | edit (e : Edit)

namespace HostAction

/-- The machine behind an action. -/
def perform (m : Machine) : HostAction → Machine
  | .run budget => (m.run budget).2
  | .step => m.step.2
  | .reset => m.reset
  | .requestHalt => m.requestHalt
  | .writeControl r v => m.onCpu (·.writeControl r v)
  | .edit e => e.perform m

end HostAction

namespace Machine

/-- The machine behind actions in order. -/
def performAll (m : Machine) (actions : List HostAction) : Machine := actions.foldl HostAction.perform m

end Machine

/-! ## The journal -/

/-- What happens to a processor. -/
inductive Happening where
  /-- It executes an instruction. -/
  | executed (e : Execution)
  /-- The host writes a control register. -/
  | wrote (r : Reg) (v : UInt64)
  /-- It is reset. -/
  | reset

namespace Happening

/-- What it means for the timer. -/
def timerEvents : Happening → List TimerEvent
  | .executed e => e.timerEvents
  | .wrote r v => (Effect.control r v).timerEvents
  | .reset => [.reset]

end Happening

/-- What a journal means for the timer. -/
def timerPast (journal : List Happening) : List TimerEvent := journal.flatMap Happening.timerEvents

/-- What happens in an action. -/
def HostAction.happenings (m : Machine) : HostAction → List Happening
  | .run budget => (m.executions budget).map .executed
  | .step => [.executed m.takeInterrupt.cpu.nextExecution]
  | .reset => [.reset]
  | .requestHalt => []
  | .writeControl r v => [.wrote r v]
  | .edit _ => []

namespace Machine

/-- All that happens in actions in order. -/
def journal : Machine → List HostAction → List Happening
  | _, [] => []
  | m, a :: rest => a.happenings m ++ journal (a.perform m) rest

end Machine

theorem timerPast_append (js ks : List Happening) : timerPast (js ++ ks) = timerPast js ++ timerPast ks :=
  List.flatMap_append

/-! ## Agreement with the past -/

namespace Cpu

/-- Nothing is due, and the timer is what its past made it. -/
structure Ticking (c : Cpu) (past : List TimerEvent) : Prop where
  /-- Nothing is due. -/
  timed : c.Timed
  /-- The timer waits for its next match. -/
  armed : c.Armed
  /-- The timer agrees with its past. -/
  timer : c.timer = Timer.history past

namespace Ticking

variable {c c' : Cpu} {past : List TimerEvent}

theorem of_timing (h : c.Ticking past) (he : c'.events = c.events) (ht : c'.cp0.timing = c.cp0.timing) :
    c'.Ticking past :=
  ⟨h.timed.of_events he, h.armed.of_timing ht he, (timer_eq_of_timing ht).trans h.timer⟩

theorem quiet (h : c.Ticking past) (hq : Quiet c c') : c'.Ticking past := h.of_timing hq.events hq.timing

/-- **An execution** carries agreement to the past with its own events. -/
theorem execute {e : Execution} (h : e.before.Ticking past) : e.after.Ticking (past ++ e.timerEvents) := by
  obtain ⟨harmed, htimer⟩ := Execution.armed_after h.armed h.timed
  refine ⟨Execution.timed_after h.timed, harmed, ?_⟩
  rw [htimer, h.timer]
  exact (List.foldl_append ..).symm

theorem writeControl (h : c.Ticking past) (r : Reg) (v : UInt64) :
    (c.writeControl r v).Ticking (past ++ (Effect.control r v).timerEvents) := by
  obtain ⟨harmed, htimer⟩ := h.armed.writeControl h.timed r v
  refine ⟨h.timed.writeControl r v, harmed, ?_⟩
  rw [htimer, h.timer]
  exact (List.foldl_append ..).symm

end Ticking

/-- A reset starts the timer anew. -/
theorem ticking_reset (c : Cpu) (past : List TimerEvent) : c.reset.Ticking (past ++ [.reset]) := by
  let fresh : Cpu :=
    { pc := c.settings.startPc
      cp0 := .atReset c.resetValues.initialStatus c.resetValues.initialConfig
      ram := c.ram
      bus := c.bus
      line := c.line
      tlbDirty := true
      settings := c.settings
      resetValues := c.resetValues }
  have hstatus : fresh.statusChanged.cp0.timing = (0, 0, 0) := by
    rw [timing_statusChanged]
    exact ControlRegisters.timing_atReset _ _
  obtain ⟨hcount, hcompare, hcause⟩ : _ ∧ _ ∧ _ := by simpa [ControlRegisters.timing] using hstatus
  have hagenda : Agenda fresh.statusChanged.events 1 := Agenda.empty
  obtain ⟨harmed, htimer⟩ := armed_scheduleCompare hagenda (by rw [hcount]; decide) (by rw [hcompare]; decide)
  have hzero : fresh.statusChanged.timer = {} := by
    unfold timer
    rw [hcount, hcompare, hcause]
    rfl
  have hpast : Timer.history (past ++ [.reset]) = {} := by
    unfold Timer.history
    rw [List.foldl_append]
    rfl
  have h : fresh.statusChanged.scheduleCompare.Ticking (past ++ [.reset]) :=
    ⟨timed_scheduleCompare hagenda, harmed, by rw [htimer, hzero, hpast]⟩
  exact h.quiet (.sample _)

end Cpu

/-- **A chain** carries agreement along, to each boundary on the way. -/
theorem Chain.ticking {a b : Cpu} {es : List Execution} (h : Chain a es b) {past : List TimerEvent}
    (ha : a.Ticking past) :
    b.Ticking (past ++ es.flatMap Execution.timerEvents) ∧
      ∀ earlier e later, es = earlier ++ e :: later →
        e.before.Ticking (past ++ earlier.flatMap Execution.timerEvents) := by
  induction h generalizing past with
  | nil c =>
    refine ⟨by simpa using ha, ?_⟩
    intro earlier e later heq
    cases List.append_eq_nil_iff.mp heq.symm |>.2
  | quiet hq _ ih => exact ih (ha.quiet hq)
  | execute e _ _ ih =>
    obtain ⟨hend, hway⟩ := ih ha.execute
    refine ⟨by simpa using hend, ?_⟩
    intro earlier f later heq
    cases earlier with
    | nil =>
      obtain ⟨rfl, -⟩ := List.cons.inj heq
      simpa using ha
    | cons g earlier =>
      obtain ⟨rfl, hrest⟩ := List.cons.inj heq
      simpa using hway earlier f later hrest

/-! ## Machines at rest -/

namespace Machine

/-- What holds of a machine between two actions of the host. -/
structure AtRest (m : Machine) (past : List TimerEvent) : Prop where
  /-- The timer agrees with its past. -/
  ticking : m.cpu.Ticking past
  /-- There is no deadline. -/
  free : m.cpu.deadline? = none
  /-- The floating-point unit is usable when Status says so. -/
  gated : m.cpu.Gated

theorem deadline?_reset (c : Cpu) : c.reset.deadline? = none := by
  show Cpu.deadline? (Cpu.scheduleCompare _) = none
  rw [Cpu.deadline?_scheduleCompare (Agenda.empty)]
  rfl

theorem atRest_create (config : Configuration) (bus : Bus) (vector : VectorUnit) :
    (create config bus vector).AtRest [] := by
  have h := Cpu.ticking_reset
    { pc := 0
      cp0 := .atReset 0 0
      ram := .zeros config.memory.ramSize.toNat
      settings := config.general
      resetValues := config.cpu } []
  exact ⟨⟨h.timed.of_events rfl, h.armed.of_timing rfl rfl, h.timer⟩, deadline?_reset _, Cpu.gated_reset _⟩

/-- Setting a deadline does not touch the timer. -/
theorem ticking_prepare {m : Machine} {budget : UInt64} {past : List TimerEvent} (h : budget ≠ 0)
    (hm : m.AtRest past) : (m.prepare budget).cpu.Ticking past := by
  have htimed := timed_prepare h hm.ticking.timed hm.free
  have hcpu := cpu_prepare h hm.free
  have htiming : (m.prepare budget).cpu.cp0.timing = m.cpu.cp0.timing := by rw [hcpu]
  have htimer := Cpu.timer_eq_of_timing htiming
  obtain ⟨h1, h2, h3⟩ : _ ∧ _ ∧ _ := by simpa [ControlRegisters.timing] using htiming
  refine ⟨htimed, ⟨h1 ▸ hm.ticking.armed.count_lt, h2 ▸ hm.ticking.armed.compare_lt, ?_⟩,
    htimer.trans hm.ticking.timer⟩
  rw [htimer, hcpu]
  show (⟨Schedule.insertAt _ _ _ m.cpu.events.events⟩ : Schedule TimerAction).until? .compare = _
  rw [Schedule.until?_insert hm.ticking.timed.agenda.distinct _ _ hm.free, if_neg (by decide)]
  exact hm.ticking.armed.due

/-- Removing a deadline does not touch the timer. -/
theorem ticking_finish {c : Cpu} {past : List TimerEvent} (h : c.Ticking past) : (finish c).Ticking past := by
  refine ⟨(timed_finish h.timed).1, ⟨h.armed.count_lt, h.armed.compare_lt, ?_⟩, h.timer⟩
  show (c.events.erase .runForCycles).until? .compare = _
  rw [Schedule.until?_erase h.timed.agenda.distinct, if_neg (by decide)]
  exact h.armed.due

theorem gated_prepare {m : Machine} (h : m.cpu.Gated) (budget : UInt64) : (m.prepare budget).cpu.Gated :=
  h.schedule .runForCycles _ .budgetSpent

theorem Ends.gated {c c' : Cpu} {r : Option (Except FatalError Exit)} (h : Ends c r c') (hc : c.Gated) :
    c'.Gated := by
  cases h with
  | stop _ => exact hc
  | _ => exact hc

theorem Ends.ticking {c c' : Cpu} {r : Option (Except FatalError Exit)} (h : Ends c r c')
    {past : List TimerEvent} (hc : c.Ticking past) : c'.Ticking past := by
  cases h with
  | stop _ => exact hc.of_timing rfl rfl
  | _ => exact hc

/-- The machine behind a single step. -/
theorem chain_step (m : Machine) :
    Chain m.takeInterrupt.cpu.nextExecution.after [] m.step.2.cpu := by
  rcases he : m.takeInterrupt.cpu.nextExecution.outcome with ⟨r, cpu⟩
  have hafter : m.takeInterrupt.cpu.nextExecution.after = cpu := congrArg Prod.snd he
  have hstep : m.takeInterrupt.tandem.cpu.step = (r, cpu) := (Cpu.step_eq _).trans he
  rw [hafter]
  unfold step interpret
  dsimp only
  rw [hstep]
  cases r with
  | error x => exact .nil cpu
  | ok retired =>
    have hcount : Chain cpu [] (interpreted cpu m.tandem.vector).cpu :=
      .single (quiet_interpreted cpu m.tandem.vector)
    exact hcount.append (chain_drain (m.takeInterrupt.withTandem (interpreted cpu m.tandem.vector)))

/-- An element of two lists in a row is one of the first or one of the second. -/
theorem split_append_cons {α : Type} {xs ys earlier later : List α} {x : α}
    (h : xs ++ ys = earlier ++ x :: later) :
    (∃ between, xs = earlier ++ x :: between) ∨ ∃ between, earlier = xs ++ between ∧ ys = between ++ x :: later := by
  rcases List.append_eq_append_iff.mp h with ⟨between, hearlier, hys⟩ | ⟨between, hxs, hlater⟩
  · exact .inr ⟨between, hearlier, hys⟩
  · cases between with
    | nil => exact .inr ⟨[], by simpa using hxs.symm, hlater.symm⟩
    | cons y between =>
      obtain ⟨rfl, -⟩ := List.cons.inj hlater
      exact .inl ⟨between, hxs⟩

/-- What happens in an action agrees with the machine at each boundary. -/
def Agrees (journal : List Happening) (past : List TimerEvent) : Prop :=
  ∀ earlier e later, journal = earlier ++ .executed e :: later →
    e.before.Ticking (past ++ timerPast earlier)

/-- Where nothing is executed there is nothing to agree with. -/
theorem agrees_of_idle {journal : List Happening} (h : ∀ e, .executed e ∉ journal) (past : List TimerEvent) :
    Agrees journal past := by
  rintro earlier e later rfl
  exact absurd (by simp) (h e)

/-- **A run** leaves a machine at rest, and agrees with it at each instruction. -/
theorem atRest_run {m : Machine} {past : List TimerEvent} (h : m.AtRest past) (budget : UInt64) :
    (m.run budget).2.AtRest (past ++ timerPast ((HostAction.run budget).happenings m)) ∧
      Agrees ((HostAction.run budget).happenings m) past := by
  have hhappenings : (HostAction.run budget).happenings m = (m.executions budget).map .executed := rfl
  rw [hhappenings]
  rcases eq_or_ne budget 0 with rfl | h0
  · rw [run_zero, executions_zero]
    exact ⟨by simpa [timerPast] using h, agrees_of_idle (by simp) past⟩
  · obtain ⟨c, c', hchain, hends, hcpu⟩ := run_chain h0 h.ticking.timed h.free
    obtain ⟨hend, hway⟩ := hchain.ticking (ticking_prepare h0 h)
    have hpast (es : List Execution) : timerPast (es.map .executed) = es.flatMap Execution.timerEvents := by
      unfold timerPast
      rw [List.flatMap_map]
      rfl
    have hgated := hchain.gated (gated_prepare h.gated budget)
    refine ⟨⟨?_, ?_, ?_⟩, ?_⟩
    · rw [hcpu, hpast]
      exact ticking_finish (hends.ticking hend)
    · rw [hcpu]
      exact (timed_finish (hends.ticking hend).timed).2
    · rw [hcpu]
      exact hends.gated hgated
    -- a boundary in the journal is one in the chain
    · intro earlier e later heq
      obtain ⟨es, rest, hsplit, rfl, hrest⟩ := List.map_eq_append_iff.mp heq
      obtain ⟨f, fs, rfl, hf, -⟩ := List.map_eq_cons_iff.mp hrest
      obtain rfl := Happening.executed.inj hf
      rw [hpast]
      exact hway es f fs hsplit

/-- **A single step**, likewise. -/
theorem atRest_step {m : Machine} {past : List TimerEvent} (h : m.AtRest past) :
    m.step.2.AtRest (past ++ timerPast (HostAction.step.happenings m)) ∧
      Agrees (HostAction.step.happenings m) past := by
  have htake : Chain m.cpu [] m.takeInterrupt.cpu := m.cpu.chain_takePending
  have hquiet := Cpu.quiet_nextExecution m.takeInterrupt.cpu
  have htaken : m.takeInterrupt.cpu.Ticking past := by simpa using (htake.ticking h.ticking).1
  have hbefore := htaken.quiet hquiet
  have hfree : m.takeInterrupt.cpu.nextExecution.before.deadline? = none := by
    rw [hquiet.deadline?, htake.deadline?_nil rfl]
    exact h.free
  have hgated := Execution.gated_after (hquiet.gated (htake.gated h.gated))
  refine ⟨⟨?_, ?_, ?_⟩, ?_⟩
  · simpa [timerPast, HostAction.happenings, Happening.timerEvents] using
      (m.chain_step.ticking hbefore.execute).1
  · rw [m.chain_step.deadline?_nil rfl]
    exact Execution.deadline?_after_of_none hbefore.timed hfree
  · exact m.chain_step.gated hgated
  -- the journal of a step has one boundary
  · intro earlier e later heq
    cases earlier with
    | nil =>
      obtain rfl := Happening.executed.inj (List.cons.inj heq).1
      simpa [timerPast] using hbefore
    | cons j earlier =>
      have hnil := (List.cons.inj heq).2
      cases List.append_eq_nil_iff.mp hnil.symm |>.2

/-- **Every action** leaves a machine at rest, with what happened added to the past. -/
theorem atRest_perform {m : Machine} {past : List TimerEvent} (h : m.AtRest past) (a : HostAction) :
    (a.perform m).AtRest (past ++ timerPast (a.happenings m)) ∧ Agrees (a.happenings m) past := by
  cases a with
  | run budget => exact atRest_run h budget
  | step => exact atRest_step h
  | reset =>
    refine ⟨⟨Cpu.ticking_reset m.cpu past, deadline?_reset m.cpu, Cpu.gated_reset m.cpu⟩, ?_⟩
    exact agrees_of_idle (by simp [HostAction.happenings]) past
  | requestHalt =>
    refine ⟨?_, agrees_of_idle (by simp [HostAction.happenings]) past⟩
    rw [show timerPast (HostAction.requestHalt.happenings m) = [] from rfl, List.append_nil]
    exact ⟨h.ticking.of_timing rfl rfl, h.free, h.gated⟩
  | writeControl r v =>
    refine ⟨⟨?_, ?_, h.gated.writeControl r v⟩, agrees_of_idle (by simp [HostAction.happenings]) past⟩
    · show (m.cpu.writeControl r v).Ticking _
      simpa [timerPast, HostAction.happenings, Happening.timerEvents] using h.ticking.writeControl r v
    · exact (Cpu.deadline?_writeControl h.ticking.timed r v).trans h.free
  | edit e =>
    refine ⟨?_, agrees_of_idle (by simp [HostAction.happenings]) past⟩
    rw [show timerPast ((HostAction.edit e).happenings m) = [] from rfl, List.append_nil]
    refine ⟨h.ticking.of_timing (e.events m) (e.timing m), ?_, e.gated m h.gated⟩
    show ((e.perform m).cpu.events).until? .runForCycles = none
    rw [e.events m]
    exact h.free

/-- **Actions in order** leave a machine at rest, and agree with it at each boundary on the way. -/
theorem atRest_performAll (actions : List HostAction) :
    ∀ {m : Machine} {past : List TimerEvent}, m.AtRest past →
      (m.performAll actions).AtRest (past ++ timerPast (m.journal actions)) ∧
        Agrees (m.journal actions) past := by
  induction actions with
  | nil =>
    intro m past h
    refine ⟨by simpa [timerPast, journal, performAll] using h, ?_⟩
    intro earlier e later heq
    cases List.append_eq_nil_iff.mp heq.symm |>.2
  | cons a rest ih =>
    intro m past h
    obtain ⟨hstep, hagree⟩ := atRest_perform h a
    obtain ⟨hrest, hagrees⟩ := ih hstep
    refine ⟨?_, ?_⟩
    · rw [journal, timerPast_append, ← List.append_assoc]
      exact hrest
    · intro earlier e later heq
      -- the boundary lies in the first action or in a later one
      rcases split_append_cons heq with ⟨between, hfirst⟩ | ⟨between, rfl, hlater⟩
      · exact hagree earlier e between hfirst
      · rw [timerPast_append, ← List.append_assoc]
        exact hagrees between e later hlater

/-- The states that a host can reach. -/
theorem atRest_of_actions (config : Configuration) (bus : Bus) (vector : VectorUnit)
    (actions : List HostAction) :
    ((create config bus vector).performAll actions).AtRest
        (timerPast ((create config bus vector).journal actions)) ∧
      Agrees ((create config bus vector).journal actions) [] := by
  simpa using atRest_performAll actions (atRest_create config bus vector)

end Machine

end Vr4300
