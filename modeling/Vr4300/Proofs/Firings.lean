import Vr4300.Proofs.Host
import Vr4300.Proofs.IdleLoop
import Vr4300.Proofs.Visible

/-!
# `Proofs.Firings` — the events of a run

A run gets from event to event: matches of the timer, and the end of its budget. `Machine.firings` are the
points of a run of the interpreter at which events are performed, each with the processor as it is then and the
exceptions taken so far. Two such points agree (`Firing.Agrees`) if only Cause and the place in an idle loop
tell them apart.

## Contents

* `Firing`, `Machine.firings`, `Firing.Agrees`;
* `Machine.discreet`: no instruction reads the mark of the delay slot while it is in doubt;
* `Machine.Plain`, `Plain.turn`: an interpreter without breakpoints.
-/

namespace Vr4300

open Control

/-! ## Events along a run -/

/-- The events that fall due in the next cycle. -/
def Cpu.falling (c : Cpu) : List EventKind := (c.events.dueTimes.filter (·.2 ≤ 1)).map Prod.fst

/-- **A cycle in which nothing falls due** only passes. -/
theorem Cpu.retire_of_falling {c : Cpu} (h : c.falling = []) :
    c.retire = { c.tick with opsExecuted := c.opsExecuted + 1 } := by
  refine Cpu.retire_of_quiet fun left hleft => ?_
  rw [Schedule.untilNext?_eq_head?] at hleft
  obtain ⟨r, hr, rfl⟩ := Option.map_eq_some_iff.mp hleft
  have hlater := List.filter_eq_nil_iff.mp (List.map_eq_nil_iff.mp h) r (List.mem_of_mem_head? hr)
  simpa using hlater

/-- A point of a run at which events were performed. -/
structure Firing where
  /-- The events that fell due. -/
  kinds : List EventKind
  /-- The processor with these events performed, at the end of the cycle. -/
  cpu : Cpu
  /-- The exceptions taken in the run until then, in order. -/
  traps : List Trap

namespace Execution

/-- The exception that an instruction raises. -/
def trap? (e : Execution) : Option Trap :=
  match e.planned with
  | .error (.trap t) => some t
  | .error (.floatingPoint _) => some .floatingPoint
  | _ => none

/-- The point at the end of the instruction's cycle, if an event falls due in it. -/
def firing? (e : Execution) (traps : List Trap) : Option Firing :=
  match e.worked with
  | some w => if w.falling = [] then none else some ⟨w.falling, w.retire, traps⟩
  | none => none

end Execution

namespace Machine

/-- The exceptions of a turn: an interrupt before its instructions, and those that they raise. -/
def turnTraps (m : Machine) (resumeAt : Option UInt64) : List Trap :=
  (if m.cpu.breakout.isNone && m.cpu.updateInterrupts.interruptsPending then [.interrupt] else []) ++
    (m.turnExecutions resumeAt).filterMap Execution.trap?

/-- The points of up to `limit` turns at which events are performed. The interpreter executes one
instruction a turn. -/
def loopFirings : Nat → Option UInt64 → List Trap → Machine → List Firing
  | 0, _, _, _ => []
  | limit + 1, resumeAt, traps, m =>
    let traps := traps ++ m.turnTraps resumeAt
    (m.turnExecutions resumeAt).filterMap (·.firing? traps) ++
      match m.turn resumeAt with
      | (some _, _) => []
      | (none, m) => loopFirings limit none traps m

/-- The points of a run at which events are performed. -/
def firings (m : Machine) (budget : UInt64) : List Firing :=
  if budget = 0 then []
  else loopFirings (m.prepare budget).turnsToEnd m.resumeAt [] (m.prepare budget)

/-- The machine with forwarding of idle loops switched on or off. -/
def withIdleSkip (m : Machine) (on : Bool) : Machine :=
  m.onCpu fun c => { c with settings := { c.settings with idleLoopSkip := on } }

end Machine

/-! ## The mark in doubt -/

/-- The processor is at one of the two instructions of an idle loop. -/
def Cpu.inIdleLoop (c : Cpu) : Bool :=
  (c.delaySlot == some (c.pc - 4) && c.peek? c.pc == some 0) || c.nextExecution.idle

namespace Machine

/-- The mark of the delay slot is in doubt behind the interrupt that a turn may take: one that is taken in an
idle loop leaves it in doubt, and any other does not. -/
def doubtTaken (m : Machine) (doubt : Bool) : Bool :=
  if m.cpu.updateInterrupts.interruptsPending then m.cpu.updateInterrupts.inIdleLoop else doubt

/-- No instruction of up to `limit` turns reads Cause while its mark of the delay slot is in doubt. -/
def loopDiscreet : Nat → Option UInt64 → Bool → Machine → Bool
  | 0, _, _, _ => true
  | limit + 1, resumeAt, doubt, m =>
    let taken := m.doubtTaken doubt
    (m.turnExecutions resumeAt).all (fun e => !(taken && (Instruction.decode e.word).readsCause)) &&
      match m.turn resumeAt with
      | (some _, _) => true
      | (none, k) =>
        loopDiscreet limit none ((m.turnExecutions resumeAt).foldl (fun d e => e.doubtAfter d) taken) k

/-- No instruction of a run reads Cause while its mark of the delay slot is in doubt. -/
def discreet (m : Machine) (budget : UInt64) : Bool :=
  budget == 0 || loopDiscreet (m.prepare budget).turnsToEnd m.resumeAt false (m.prepare budget)

end Machine

/-! ## Agreement -/

/-- **The processors agree** where events are performed. -/
structure Firing.Agrees (x y : Firing) : Prop where
  /-- The same events fell due, -/
  kinds : x.kinds = y.kinds
  /-- at the same cycle. -/
  cycles : x.cpu.cycles = y.cpu.cycles
  /-- They hold the same general registers, -/
  regs : x.cpu.regs = y.cpu.regs
  /-- the same multiply/divide pair, -/
  hilo : x.cpu.hilo = y.cpu.hilo
  /-- the same floating-point registers -/
  fpr : x.cpu.fpr = y.cpu.fpr
  /-- and floating-point control register, -/
  fcr31 : x.cpu.fcr31 = y.cpu.fcr31
  /-- the same main memory, -/
  ram : x.cpu.ram = y.cpu.ram
  /-- and the same control registers, the return address and Count among them, except for Cause. -/
  control : ∀ r, r ≠ cause → x.cpu.cp0.get r = y.cpu.cp0.get r
  /-- They have taken the same exceptions. -/
  traps : x.traps = y.traps
  /-- They are at the same place, or each is at one of the two instructions of an idle loop. -/
  place : x.cpu.pc = y.cpu.pc ∨ ∃ place word p, (x.cpu.standing place).Loops word p ∧
    x.cpu.WaitsAt place ∧ y.cpu.WaitsAt place

/-! ## Interpreters without breakpoints -/

/-- What no instruction changes: the settings, and the level of the line. -/
def Cpu.fixed (c : Cpu) : GeneralSettings × Bool := (c.settings, c.line)

theorem Cpu.fixed_before (c : Cpu) : c.takePending.nextExecution.before.fixed = c.fixed := by
  have htake : c.takePending.fixed = c.fixed := by
    rcases c.takePending_cases with ⟨-, h⟩ | ⟨-, h⟩ <;> rw [h]
    · rfl
    · exact congrArg (fun s : Surround => (s.settings, s.line))
        (Cpu.surround_takeException c.updateInterrupts .interrupt c.inDelaySlot)
  obtain ⟨bus, hfetch⟩ := c.takePending.exists_nextExecution_before
  rw [hfetch]
  exact htake

theorem Execution.fixed_after {e : Execution} {w : Cpu} (hw : e.worked = some w) (he : e.before.Timed) :
    e.after.fixed = e.before.fixed := by
  have hretire : w.retire.fixed = w.fixed := by
    have hT := Execution.timed_worked hw he
    exact Cpu.Timed.advance_one_rule (P := fun s => s.fixed = w.fixed)
      (c := { w with opsExecuted := w.opsExecuted + 1 }) (hT.of_events rfl) rfl
      (fun s rest hs hdue => by rw [Cpu.compareMatched_eq _ hdue.free]; exact hs) (fun _ _ hs _ => hs)
  obtain ⟨statistics, hafter⟩ := Execution.after_eq_later hw
  rw [hafter]
  show (Cpu.later e.idleCycles w.retire).fixed = e.before.fixed
  rw [Cpu.later_preserves Cpu.fixed fun _ => rfl, hretire]
  exact congrArg (fun s : Surround => (s.settings, s.line)) (Execution.surround_worked hw)

/-- An instruction that works is answered. -/
theorem Execution.outcome_of_worked {e : Execution} {w : Cpu} (h : e.worked = some w) :
    ∃ retired, e.outcome = (.ok retired, e.after) := by
  obtain ⟨before, word, planned⟩ := e
  cases planned with
  | ok p => exact ⟨_, rfl⟩
  | error f =>
    cases f with
    | trap t => exact ⟨_, rfl⟩
    | floatingPoint fcr31 => exact ⟨_, rfl⟩
    | fatal x => cases h

/-- The point at the end of an instruction that works. -/
theorem Execution.points_of_worked {e : Execution} {w : Cpu} (hw : e.worked = some w) (traps : List Trap) :
    [e].filterMap (·.firing? traps) = if w.falling = [] then [] else [⟨w.falling, w.retire, traps⟩] := by
  have hfiring : e.firing? traps = if w.falling = [] then none else some ⟨w.falling, w.retire, traps⟩ := by
    unfold Execution.firing?
    rw [hw]
  rw [List.filterMap_cons, hfiring]
  by_cases h : w.falling = []
  · rw [if_pos h, if_pos h]
    rfl
  · rw [if_neg h, if_neg h]
    rfl

/-- A processor that no interrupt is pending for. -/
theorem Cpu.takePending_of_calm {c : Cpu} (h : c.updateInterrupts.interruptsPending = false) :
    c.takePending = c.updateInterrupts := by
  rcases c.takePending_cases with ⟨-, htake⟩ | ⟨hp, -⟩
  · exact htake
  · rw [h] at hp
    cases hp

namespace Machine

/-- An interpreter without breakpoints, whose interrupt line stays at its level. -/
structure Plain (m : Machine) : Prop where
  /-- It interprets. -/
  interprets : m.cache.enabled = false
  /-- There are no breakpoints. -/
  free : m.breakpoints = []
  /-- The vector unit leaves the line as it is. -/
  steady : ∀ n level, m.tandem.vector.drive n = some level → level = m.cpu.line
  /-- It is in order. -/
  orderly : m.cpu.Orderly

/-- Without breakpoints a run stops at none. -/
theorem Plain.stays {m : Machine} (h : m.Plain) (resumeAt : Option UInt64) :
    m.takeInterrupt.atBreakpoint resumeAt = false := by
  have hnone : m.takeInterrupt.breakpoints = [] := h.free
  unfold atBreakpoint
  rw [hnone]
  simp

theorem Plain.turnExecutions {m : Machine} (h : m.Plain) (hb : m.cpu.breakout = none) (resumeAt : Option UInt64) :
    m.turnExecutions resumeAt = [m.cpu.takePending.nextExecution] :=
  interpreter_executions h.interprets hb (h.stays resumeAt)

/-- Nothing is due in front of the next instruction. -/
theorem Plain.timed {m : Machine} (h : m.Plain) : m.cpu.takePending.nextExecution.before.Timed :=
  (orderly_nextExecution h.orderly).timed

/-- A line that stays at its level, so that a step of the vector unit shows nowhere. -/
theorem shown_interpreted {v : VectorUnit} {c : Cpu} (h : ∀ n level, v.drive n = some level → level = c.line) :
    (interpreted c v).cpu.shown = c.shown ∧ (interpreted c v).vector.drive = v.drive := by
  unfold interpreted Tandem.count Tandem.onCpu Tandem.stepVector
  dsimp only
  cases hd : v.drive (v.steps + 1) with
  | none => exact ⟨rfl, rfl⟩
  | some level =>
    obtain rfl := h _ _ hd
    exact ⟨rfl, rfl⟩

/-- **The next instruction is executed**, and nothing else is seen to change. -/
theorem Plain.turn {m : Machine} (h : m.Plain) (hb : m.cpu.breakout = none) (resumeAt : Option UInt64) {w : Cpu}
    (hw : m.cpu.takePending.nextExecution.worked = some w) :
    ∃ k, m.turn resumeAt = (none, k) ∧ k.Plain ∧ k.cpu.shown = m.cpu.takePending.nextExecution.after.shown ∧
      k.cpu.settings = m.cpu.settings ∧ ∀ n, Suffices (n + 1) m.cpu → Suffices n k.cpu := by
  obtain ⟨retired, hout⟩ := Execution.outcome_of_worked hw
  obtain ⟨k, hturn, hshows⟩ := interpreter_turn h.interprets h.orderly hb (h.stays resumeAt) hout
  have hfixed : m.cpu.takePending.nextExecution.after.fixed = m.cpu.fixed :=
    (Execution.fixed_after hw h.timed).trans (Cpu.fixed_before m.cpu)
  obtain ⟨hshown, hdrive⟩ := shown_interpreted (v := m.tandem.vector) (c := m.cpu.takePending.nextExecution.after)
    fun n level hlevel => (h.steady n level hlevel).trans (congrArg Prod.snd hfixed).symm
  have hvector : k.tandem.vector.drive = m.tandem.vector.drive :=
    (congrArg VectorUnit.drive (vector_of_visible hshows.visible)).trans hdrive
  have hcpu : k.cpu.shown = m.cpu.takePending.nextExecution.after.shown :=
    (shown_of_visible hshows.visible).trans hshown
  have hkept : k.cpu.fixed = m.cpu.fixed := (Cpu.same_of_shown hcpu.symm Cpu.fixed fun _ => rfl).trans hfixed
  refine ⟨k, hturn, ⟨hshows.interprets, ?_, ?_, hshows.orderly⟩, hcpu, congrArg Prod.fst hkept, ?_⟩
  · exact (breakpoints_of_visible hshows.visible).trans h.free
  · intro n level hlevel
    rw [hvector] at hlevel
    exact (h.steady n level hlevel).trans (congrArg Prod.snd hkept).symm
  · intro n hn
    have hbreak := (Cpu.quiet_nextExecution _).breakout.trans ((Cpu.breakout_takePending m.cpu).trans hb)
    exact (suffices_after (hn.nextExecution hb) hw h.timed hbreak).of_shown hcpu.symm

/-- A turn without an exception. -/
theorem Plain.turnTraps {m : Machine} (h : m.Plain) (hb : m.cpu.breakout = none) (resumeAt : Option UInt64) {p : Plan}
    (hcalm : m.cpu.updateInterrupts.interruptsPending = false)
    (hp : m.cpu.takePending.nextExecution.planned = .ok p) : m.turnTraps resumeAt = [] := by
  have hnone : m.cpu.takePending.nextExecution.trap? = none := by
    unfold Execution.trap?
    rw [hp]
  unfold Machine.turnTraps
  rw [h.turnExecutions hb, hcalm, List.filterMap_cons, hnone, Bool.and_false]
  rfl

/-- **The next instruction stops the machine.** -/
theorem Plain.turn_fatal {m : Machine} (h : m.Plain) (hb : m.cpu.breakout = none) (resumeAt : Option UInt64)
    {x : FatalError} (hx : m.cpu.takePending.nextExecution.planned = .error (.fatal x)) :
    ∃ k, m.turn resumeAt = (some (.error x), k) := by
  have hout : m.cpu.takePending.nextExecution.outcome = (.error x, m.cpu.takePending.nextExecution.before) := by
    unfold Execution.outcome Cpu.execute
    rw [hx]
  obtain ⟨k, hturn, -⟩ := interpreter_fatal h.interprets h.orderly hb (h.stays resumeAt) hout
  exact ⟨k, hturn⟩

end Machine

end Vr4300
