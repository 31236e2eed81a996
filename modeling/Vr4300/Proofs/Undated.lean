import Vr4300.Proofs.Deadline
import Vr4300.Proofs.Veil

/-!
# `Proofs.Undated` — a processor without its deadline

The budget of a run is one more event in the schedule of the processor, between the matches of the timer. No
instruction asks for it. So a processor with a deadline does what it would do without one: every operation
commutes with taking the deadline, and the reason to stop, away (`Cpu.undated`).

A schedule with nothing but the timer is the timer's event alone (`Agenda.eq_timerAlone`), whatever was inserted
and erased before. That makes the equations exact, down to the distances between events.

## Contents

* `timerAlone`, `Agenda.eq_timerAlone`, `Agenda.erase_runForCycles`;
* `Cpu.undated`, with one equation for each operation of the processor;
* `undated_advance`: a cycle, in which the timer, the deadline or both may fall due;
* `Cpu.step_undated`: an instruction.
-/

namespace Vr4300

/-! ## Schedules -/

/-- The schedule with the timer alone, if it is armed. -/
def timerAlone (left : Option Int) : Schedule TimerAction :=
  ⟨(left.map fun n => ⟨.compare, n, .compareMatch⟩).toList⟩

namespace Agenda

variable {s : Schedule TimerAction} {least : Int}

/-- **A schedule without a deadline** is the timer alone. -/
theorem eq_timerAlone (h : Agenda s least) (hfree : s.until? .runForCycles = none) :
    s = timerAlone (s.until? .compare) := by
  obtain ⟨events⟩ := s
  have hkinds := Schedule.until?_eq_none_iff.mp hfree
  cases events with
  | nil => rfl
  | cons e rest =>
    have hfirst : e.kind = .compare ∧ e.action = .compareMatch := by
      rcases h.labelled (e.kind, e.action) List.mem_cons_self with heq | heq
      · exact Prod.mk.inj heq
      · exact absurd (Prod.mk.inj heq).1 (hkinds _ List.mem_cons_self)
    obtain ⟨kind, delta, action⟩ := e
    obtain ⟨rfl, rfl⟩ := hfirst
    cases rest with
    | nil =>
      show _ = timerAlone (some (0 + delta))
      rw [Int.zero_add]
      rfl
    | cons f rest =>
      -- a second event would be of the same kind
      exfalso
      have hsecond : f.kind = .compare := by
        rcases h.labelled (f.kind, f.action) (List.mem_cons_of_mem _ List.mem_cons_self) with heq | heq
        · exact (Prod.mk.inj heq).1
        · exact absurd (Prod.mk.inj heq).1 (hkinds _ (List.mem_cons_of_mem _ List.mem_cons_self))
      refine (List.nodup_cons.mp h.distinct).1 ?_
      show EventKind.compare ∈ f.kind :: _
      rw [hsecond]
      exact List.mem_cons_self

/-- **Without its deadline**, a schedule is the timer alone. -/
theorem erase_runForCycles (h : Agenda s least) : s.erase .runForCycles = timerAlone (s.until? .compare) := by
  have hkept : (s.erase .runForCycles).until? .compare = s.until? .compare := by
    rw [Schedule.until?_erase h.distinct, if_neg (by decide)]
  have hfree : (s.erase .runForCycles).until? .runForCycles = none := by
    rw [Schedule.until?_erase h.distinct, if_pos rfl]
  rw [(h.erase .runForCycles).eq_timerAlone hfree, hkept]

end Agenda

/-! ## Processors -/

namespace Cpu

/-- **The processor without its deadline**, and without a reason to stop. -/
def undated (c : Cpu) : Cpu :=
  { c with events := timerAlone (c.events.until? .compare), breakout := none }

variable {c : Cpu}

@[simp] theorem until?_undated : c.undated.events.until? .compare = c.events.until? .compare := by
  show (timerAlone (c.events.until? .compare)).until? .compare = _
  cases c.events.until? .compare with
  | none => rfl
  | some left => exact congrArg some (Int.zero_add left)

/-- The deadline is taken away once. -/
theorem undated_undated : c.undated.undated = c.undated := by
  unfold undated
  rw [show ({ c with events := timerAlone (c.events.until? .compare), breakout := none } : Cpu).events.until? .compare =
    c.events.until? .compare from until?_undated]

theorem Timed.undated (hc : c.Timed) : c.undated.Timed := by
  have herase := hc.agenda.erase_runForCycles
  constructor
  · show Agenda (timerAlone (c.events.until? .compare)) 1
    rw [← herase]
    exact hc.agenda.erase .runForCycles
  · rw [until?_undated]
    exact hc.armed

theorem deadline?_undated : c.undated.deadline? = none := by
  show (timerAlone (c.events.until? .compare)).until? .runForCycles = none
  cases c.events.until? .compare <;> rfl

/-- **The processor behind a run** is without its deadline. -/
theorem finish_eq_undated (hc : c.Timed) (hb : c.breakout = none) : Machine.finish c = c.undated := by
  unfold Machine.finish undated
  rw [hc.agenda.erase_runForCycles, ← hb]

/-- Where no run has a deadline, there is none to take away. -/
theorem undated_of_free (hc : c.Timed) (hfree : c.deadline? = none) (hb : c.breakout = none) : c.undated = c := by
  unfold undated
  rw [← hc.agenda.eq_timerAlone hfree, ← hb]

/-- **The processor in front of a run** is the one before, but for its deadline. -/
theorem undated_prepare {m : Machine} (hm : m.cpu.Timed) (hfree : m.cpu.deadline? = none) {budget : UInt64}
    (h0 : budget ≠ 0) : (m.prepare budget).cpu.undated = m.cpu.undated := by
  have hcpu := Machine.cpu_prepare h0 hfree
  have hcompare : (m.prepare budget).cpu.events.until? .compare = m.cpu.events.until? .compare := by
    rw [hcpu]
    show (⟨Schedule.insertAt _ _ _ m.cpu.events.events⟩ : Schedule TimerAction).until? .compare = _
    rw [Schedule.until?_insert hm.agenda.distinct _ _ hfree, if_neg (by decide)]
  unfold undated
  rw [hcompare, hcpu]

/-! ### Operations that do not look at the schedule -/

theorem updateInterrupts_undated (c : Cpu) : c.undated.updateInterrupts = c.updateInterrupts.undated := rfl

theorem statusChanged_undated (c : Cpu) : c.undated.statusChanged = c.statusChanged.undated := rfl

theorem takeException_undated (c : Cpu) (t : Trap) (inDelay : Bool) :
    c.undated.takeException t inDelay = (c.takeException t inDelay).undated := by
  have hreturn : c.undated.saveReturn inDelay = (c.saveReturn inDelay).undated := by
    cases inDelay <;> rfl
  have haddress (b : Cpu) : b.undated.saveBadAddress t = (b.saveBadAddress t).undated := by
    cases t <;> rfl
  have henter : c.undated.enterException t inDelay = (c.enterException t inDelay).undated := by
    unfold enterException
    rw [show c.undated.cp0 = c.cp0 from rfl, hreturn]
    split <;> rfl
  rw [takeException_eq_enterHandler, takeException_eq_enterHandler, henter, haddress]
  rfl

theorem takePending_undated (c : Cpu) : c.undated.takePending = c.takePending.undated := by
  unfold takePending
  dsimp only
  rw [updateInterrupts_undated, show c.updateInterrupts.undated.interruptsPending =
    c.updateInterrupts.interruptsPending from rfl]
  split
  · exact takeException_undated c.updateInterrupts .interrupt c.updateInterrupts.inDelaySlot
  · rfl

theorem fetch_undated (c : Cpu) (address : UInt64) :
    c.undated.fetch address = ((c.fetch address).1, (c.fetch address).2.undated) := by
  unfold fetch
  rw [show c.undated.resolve .word .fetch address = c.resolve .word .fetch address from rfl]
  cases c.resolve .word .fetch address with
  | error t => rfl
  | ok l => cases l <;> rfl

theorem plan_undated (c : Cpu) (i : Instruction) : c.undated.plan i = c.plan i := by
  cases i <;> rfl

theorem planGuarded_undated (c : Cpu) (i : Instruction) : c.undated.planGuarded i = c.planGuarded i := by
  unfold planGuarded
  rw [plan_undated]
  rfl

theorem follow_undated (c : Cpu) (base : UInt64) (f : Flow) :
    c.undated.follow base f = (c.follow base f).undated := by
  cases f <;> rfl

/-! ### The timer -/

/-- **Rearming the timer** leaves the deadline alone. -/
theorem scheduleCompare_undated (hc : Agenda c.events 1) : c.undated.scheduleCompare = c.scheduleCompare.undated := by
  have hfree : (c.events.erase .compare).until? .compare = none := by
    rw [Schedule.until?_erase hc.distinct, if_pos rfl]
  have harmed : c.scheduleCompare.events.until? .compare = some c.compareCountdown := by
    rw [scheduleCompare_eq hc.distinct]
    show (⟨Schedule.insertAt _ _ _ (c.events.erase .compare).events⟩ : Schedule TimerAction).until? _ = _
    rw [Schedule.until?_insert (hc.erase .compare).distinct _ _ hfree, if_pos rfl]
  have hbreakout : c.scheduleCompare.undated =
      { c with events := timerAlone (some c.compareCountdown), breakout := none } := by
    unfold undated
    rw [harmed, scheduleCompare_eq hc.distinct]
  have herased : c.undated.events.erase .compare = ⟨[]⟩ := by
    show (timerAlone (c.events.until? .compare)).erase .compare = _
    cases c.events.until? .compare <;> rfl
  have hdistinct : c.undated.events.Distinct := by
    show (timerAlone (c.events.until? .compare)).Distinct
    rw [← hc.erase_runForCycles]
    exact (hc.erase .runForCycles).distinct
  rw [hbreakout, scheduleCompare_eq hdistinct, herased]
  rfl

theorem writeControl_undated (hc : c.Timed) (r : Reg) (v : UInt64) :
    c.undated.writeControl r v = (c.writeControl r v).undated := by
  unfold writeControl
  rw [show c.undated.cp0 = c.cp0 from rfl]
  cases c.cp0.write? r v with
  | none => rfl
  | some b =>
    dsimp only
    split
    · exact scheduleCompare_undated (c := { c with cp0 := b }) hc.agenda
    split
    · exact congrArg updateInterrupts
        (scheduleCompare_undated (c := { c with cp0 := b.clearBits Control.cause Control.causeIP7 }) hc.agenda)
    split
    · exact statusChanged_undated { c with cp0 := b }
    split
    · exact updateInterrupts_undated { c with cp0 := b }
    split <;> rfl

/-- **An effect** is the same without a deadline. -/
theorem apply_undated (hc : c.Timed) (e : Effect) : c.undated.apply e = (c.apply e).undated := by
  cases e with
  | load w source into =>
    cases source <;> cases into with
    | float p ft => cases p <;> rfl
    | _ => rfl
  | store w target v => cases target <;> rfl
  | storeMasked w target v mask => cases target <;> rfl
  | storeLinked w target v rt => cases target <;> rfl
  | control rd v => exact writeControl_undated hc rd v
  | float p fd bits fcr31 => cases p <;> rfl
  | _ => rfl

/-! ### The passing of a cycle -/

/-- A match of the timer does not look at the deadline. -/
theorem compareMatched_undated (hd : c.events.Distinct) (hfree : c.events.until? .compare = none) :
    c.compareMatched.undated = { c.undated with events := {} }.compareMatched := by
  have hrearmed : c.compareMatched.events.until? .compare = some comparePeriod := by
    rw [compareMatched_eq c hfree]
    show (⟨Schedule.insertAt _ _ _ c.events.events⟩ : Schedule TimerAction).until? .compare = _
    rw [Schedule.until?_insert hd _ _ hfree, if_pos rfl]
  have hundated : c.compareMatched.undated =
      { c.compareMatched with events := timerAlone (some comparePeriod), breakout := none } := by
    unfold undated
    rw [hrearmed]
  rw [hundated, compareMatched_eq c hfree, compareMatched_eq { c.undated with events := {} } rfl]
  rfl

/-- **A cycle with nothing but the timer**: the timer matches, or it comes closer. -/
def timerCycle (c : Cpu) : Cpu :=
  if c.events.until? .compare = some 1 then { c.passCycles 1 with events := {} }.compareMatched
  else { c.passCycles 1 with events := timerAlone ((c.events.until? .compare).map (· - 1)) }

/-- **A cycle** passes as it would without the deadline. -/
theorem undated_advance (hc : c.Timed) : (c.advance 1).undated = c.undated.timerCycle := by
  have hcycle := hc.advance_one_rule (P := fun s =>
      (s.events.until? .compare = (c.events.until? .compare).map (· - 1) ∧
        s.undated = { c.undated.passCycles 1 with events := timerAlone ((c.events.until? .compare).map (· - 1)) }) ∨
      (c.events.until? .compare = some 1 ∧ s.events.until? .compare = some comparePeriod ∧
        s.undated = { c.undated.passCycles 1 with events := {} }.compareMatched)) ?_ ?_ ?_
  · have hahead := hc.advance_one
    unfold timerCycle
    rw [until?_undated]
    rcases hcycle with ⟨hu, hundated⟩ | ⟨hu, -, hundated⟩
    · -- nothing is due behind the cycle, so the timer did not reach its match
      have hnot : c.events.until? .compare ≠ some 1 := by
        intro hone
        rw [hone] at hu
        have hmem := (Schedule.until?_eq_some_iff hahead.agenda.distinct).mp hu
        exact absurd (hahead.agenda.ahead _ hmem).1 (by decide)
      rw [if_neg hnot]
      exact hundated
    · rw [if_pos hu]
      exact hundated
  · have hu : (c.events.advance 1).until? .compare = (c.events.until? .compare).map (· - 1) :=
      Schedule.until?_advance c.events 1 .compare
    refine .inl ⟨hu, ?_⟩
    unfold undated
    dsimp only
    rw [hu]
    rfl
  · intro s rest hs hdue
    have hzero : s.events.until? .compare = some 0 := hdue.until?_self
    rcases hs with ⟨hu, hundated⟩ | ⟨-, hu, -⟩
    · have hone : c.events.until? .compare = some 1 := by
        rw [hzero] at hu
        obtain ⟨left, hleft, hnow⟩ := Option.map_eq_some_iff.mp hu.symm
        rw [hleft, show left = 1 by omega]
      have hrearmed : (compareMatched { s with events := rest }).events.until? .compare = some comparePeriod := by
        rw [compareMatched_eq _ hdue.free]
        exact (hdue.until?_rearmed .compare).trans (if_pos rfl)
      refine .inr ⟨hone, hrearmed, ?_⟩
      rw [compareMatched_undated (c := { s with events := rest }) hdue.distinct hdue.free]
      show compareMatched { s.undated with events := {} } = _
      rw [hundated]
    · rw [hzero] at hu
      exact absurd hu (by decide)
  · intro s rest hs hdue
    have hsame : (budgetSpent { s with events := rest }).events.until? .compare = s.events.until? .compare :=
      hdue.until?_of_ne (by decide)
    have hundated : (budgetSpent { s with events := rest }).undated = s.undated := by
      unfold undated
      rw [hsame]
      rfl
    rw [hsame, hundated]
    exact hs

/-- **The cycle of an instruction** passes as it would without the deadline. -/
theorem retire_undated (hc : c.Timed) : c.undated.retire = c.retire.undated := by
  let b : Cpu := { c with opsExecuted := c.opsExecuted + 1 }
  have hb : b.Timed := hc.of_events rfl
  have hretire : c.retire.undated = b.undated.timerCycle := undated_advance hb
  have hagain : c.undated.retire.undated = b.undated.undated.timerCycle := undated_advance hb.undated
  -- without a deadline there is none behind the cycle
  have hfree : c.undated.retire.deadline? = none ∧ c.undated.retire.breakout = none := by
    rcases deadline?_retire hc.undated with ⟨hleft, hbreakout⟩ | ⟨hleft, -⟩
    · rw [hleft, hbreakout, deadline?_undated]
      exact ⟨rfl, rfl⟩
    · rw [deadline?_undated] at hleft
      cases hleft
  rw [undated_of_free hc.undated.retire hfree.1 hfree.2, undated_undated] at hagain
  rw [hagain, hretire]

/-! ### Instructions -/

/-- **An instruction** does what it would do without the deadline. -/
theorem execute_undated (hc : c.Timed) (hskips : c.settings.idleLoopSkip = false) (word : UInt32)
    (planned : Except Fault Plan) :
    c.undated.execute word planned = ((c.execute word planned).1, (c.execute word planned).2.undated) := by
  cases planned with
  | ok p =>
    have hidle (b : Cpu) (h : b.settings.idleLoopSkip = false) : b.idles p.flow = false := by
      unfold idles
      cases p.flow with
      | branch target => simp [h]
      | _ => rfl
    unfold execute
    dsimp only
    rw [hidle c hskips, hidle c.undated hskips, apply_undated hc, show c.undated.successor = c.successor from rfl,
      follow_undated, retire_undated ((hc.apply p.effect).of_events (events_follow _ _ _))]
    rfl
  | error f =>
    have htrap (b : Cpu) (hb : b.Timed) (t : Trap) (inDelay : Bool) :
        (b.undated.takeException t inDelay).retire = (b.takeException t inDelay).retire.undated := by
      rw [takeException_undated, retire_undated (hb.of_events (events_takeException b t inDelay))]
    cases f with
    | trap t => exact Prod.ext rfl (htrap c hc t c.inDelaySlot)
    | floatingPoint fcr31 =>
      exact Prod.ext rfl (htrap { c with fcr31 := fcr31 } (hc.of_events rfl) .floatingPoint c.inDelaySlot)
    | fatal x => rfl

/-- **The next instruction** does what it would do without the deadline. -/
theorem step_undated (hc : c.Timed) (hskips : c.settings.idleLoopSkip = false) :
    c.undated.step = (c.step.1, c.step.2.undated) := by
  obtain ⟨bus, hbus⟩ := c.fetch_snd c.pc
  have hfetched : (c.fetch c.pc).2.Timed := by
    rw [hbus]
    exact hc.of_events rfl
  have hkept : (c.fetch c.pc).2.settings.idleLoopSkip = false := by
    rw [hbus]
    exact hskips
  unfold step
  rw [show c.undated.pc = c.pc from rfl, fetch_undated]
  rcases hf : c.fetch c.pc with ⟨r, b⟩
  rw [hf] at hfetched hkept
  cases r with
  | ok word =>
    show b.undated.execute word (b.undated.planGuarded (.decode word)) = _
    rw [planGuarded_undated]
    exact execute_undated hfetched hkept word (b.planGuarded (.decode word))
  | error t =>
    refine Prod.ext rfl ?_
    show (b.undated.takeException t b.inDelaySlot).retire = (b.takeException t b.inDelaySlot).retire.undated
    rw [takeException_undated, retire_undated (Timed.of_events hfetched (events_takeException b t b.inDelaySlot))]

end Cpu

end Vr4300
