import Vr4300.Proofs.History

/-!
# `Proofs.Deadline` — the event that ends a run

The budget of a run is an event of the schedule. An instruction moves it closer by the cycles that it
takes, and performs it in the cycle in which it falls due; from then on the processor carries the reason
to stop. Forwarding time never reaches it, because a skip stops a cycle short of the first event.

## Contents

* `Cpu.deadline?`: the cycles left of the run, along effects and cycles;
* `deadline?_after`: along an instruction;
* `Machine.prepare` and the removal of the event: runs start and end without one (`timed_prepare`,
  `timed_finish`, `run_chain`).
-/

namespace Vr4300

namespace Cpu

/-- The cycles left of the current run. -/
def deadline? (c : Cpu) : Option Int := c.events.until? .runForCycles

theorem deadline?_scheduleCompare {c : Cpu} (hc : Agenda c.events 1) :
    c.scheduleCompare.deadline? = c.deadline? := by
  have hfree : (c.events.erase .compare).until? .compare = none := by
    rw [Schedule.until?_erase hc.distinct, if_pos rfl]
  rw [scheduleCompare_eq hc.distinct]
  show (⟨Schedule.insertAt _ _ _ (c.events.erase .compare).events⟩ : Schedule TimerAction).until? _ = _
  rw [Schedule.until?_insert (hc.erase .compare).distinct _ _ hfree, if_neg (by decide),
    Schedule.until?_erase hc.distinct, if_neg (by decide)]
  rfl

theorem deadline?_writeControl {c : Cpu} (hc : c.Timed) (r : Reg) (v : UInt64) :
    (c.writeControl r v).deadline? = c.deadline? := by
  unfold writeControl
  cases c.cp0.write? r v with
  | none => rfl
  | some cp0 =>
    dsimp only
    split
    · exact deadline?_scheduleCompare (c := { c with cp0 := cp0 }) hc.agenda
    split
    · exact deadline?_scheduleCompare
        (c := { c with cp0 := cp0.clearBits Control.cause Control.causeIP7 }) hc.agenda
    split
    · rfl
    split
    · rfl
    split <;> rfl

/-- **A cycle brings the deadline closer**, or it is the last one and the run is to end. -/
theorem deadline?_retire {c : Cpu} (hc : c.Timed) :
    (c.retire.deadline? = c.deadline?.map (fun left : Int => left - 1) ∧
        c.retire.breakout = c.breakout) ∨
      (c.deadline? = some 1 ∧ c.retire.deadline? = none ∧
        c.retire.breakout = some (c.breakout.getD .budgetExhausted)) := by
  let b : Cpu := { c with opsExecuted := c.opsExecuted + 1 }
  have hb : b.Timed := hc.of_events rfl
  refine hb.advance_one_rule (P := fun s =>
    (s.deadline? = c.deadline?.map (fun left : Int => left - 1) ∧ s.breakout = c.breakout) ∨
      (c.deadline? = some 1 ∧ s.deadline? = none ∧
        s.breakout = some (c.breakout.getD .budgetExhausted))) ?_ ?_ ?_
  · exact .inl ⟨Schedule.until?_advance c.events 1 .runForCycles, rfl⟩
  -- a match of the timer leaves the deadline alone
  · intro s rest hs hdue
    have hsame : (compareMatched { s with events := rest }).deadline? = s.deadline? := by
      rw [compareMatched_eq _ hdue.free]
      show (⟨Schedule.insertAt .compare .compareMatch comparePeriod rest.events⟩ :
        Schedule TimerAction).until? .runForCycles = _
      rw [hdue.until?_rearmed, if_neg (by decide)]
      rfl
    have hbreak : (compareMatched { s with events := rest }).breakout = s.breakout := by
      rw [compareMatched_eq _ hdue.free]
      rfl
    rw [hsame, hbreak]
    exact hs
  -- the deadline itself is dispatched once
  · intro s rest hs hdue
    have hzero : s.deadline? = some 0 := hdue.until?_self
    rcases hs with ⟨hu, hbreak⟩ | ⟨-, hu, -⟩
    · rw [hzero] at hu
      refine .inr ⟨?_, hdue.free, ?_⟩
      · obtain ⟨left, hl, hleft⟩ := Option.map_eq_some_iff.mp hu.symm
        rw [hl, show left = 1 by omega]
      · show some (s.breakout.getD .budgetExhausted) = _
        rw [hbreak]
    · rw [hzero] at hu
      cases hu

theorem breakout_skipIdle (c : Cpu) : c.skipIdle.breakout = c.breakout := by
  rw [skipIdle_eq]
  split <;> rfl

theorem deadline?_skipIdle (c : Cpu) :
    c.skipIdle.deadline? = c.deadline?.map fun left : Int => left - (c.idleCycles : Int) := by
  rw [skipIdle_eq]
  split
  · exact Schedule.until?_advance c.events c.idleCycles .runForCycles
  · rename_i hk
    rw [Nat.eq_zero_of_not_pos hk]
    cases c.deadline? with
    | none => rfl
    | some left => exact congrArg some (Int.sub_zero left).symm

end Cpu

namespace Execution

theorem deadline?_worked {e : Execution} {b : Cpu} (hw : e.worked = some b) (hT : e.before.Timed) :
    b.deadline? = e.before.deadline? := by
  have same {c c' : Cpu} (h : c'.events = c.events) : c'.deadline? = c.deadline? :=
    congrArg (·.until? .runForCycles) h
  rcases worked_cases hw with ⟨p, -, rfl⟩ | ⟨-, fcr31, t, rfl⟩
  · refine (same (Cpu.events_follow _ _ _)).trans ?_
    -- a write of Count or Compare rearms the timer, and leaves the other event where it is
    by_cases hcontrol : ∃ rd v, p.effect = .control rd v
    · obtain ⟨rd, v, heff⟩ := hcontrol
      rw [heff]
      exact Cpu.deadline?_writeControl hT rd v
    · exact same (Cpu.events_apply e.before fun rd v he => hcontrol ⟨rd, v, he⟩)
  · exact same (Cpu.events_takeException { e.before with fcr31 := fcr31 } _ _)

/-- **An instruction brings the deadline closer** by its cycles, or reaches it and the run is to end. -/
theorem deadline?_after {e : Execution} {b : Cpu} (hw : e.worked = some b) (hT : e.before.Timed) :
    (e.after.deadline? = e.before.deadline?.map (fun left : Int => left - 1 - (e.idleCycles : Int)) ∧
        e.after.breakout = e.before.breakout) ∨
      (e.before.deadline? = some 1 ∧ e.after.deadline? = none ∧
        e.after.breakout = some (e.before.breakout.getD .budgetExhausted)) := by
  have hbreak : b.breakout = e.before.breakout := congrArg Surround.breakout (surround_worked hw)
  have hretire := Cpu.deadline?_retire (timed_worked hw hT)
  rw [deadline?_worked hw hT, hbreak] at hretire
  rw [e.after_eq, idleCycles, hw]
  dsimp only
  cases e.idle with
  | false =>
    rw [if_neg Bool.false_ne_true, if_neg Bool.false_ne_true]
    refine hretire.imp (fun h => ⟨h.1.trans ?_, h.2⟩) id
    simp
  | true =>
    rw [if_pos rfl, if_pos rfl, Cpu.deadline?_skipIdle, Cpu.breakout_skipIdle]
    refine hretire.imp (fun h => ⟨?_, h.2⟩) (fun h => ⟨h.1, ?_, h.2.2⟩)
    · rw [h.1, Option.map_map]
      rfl
    · rw [h.2.1]
      rfl

/-- Without a deadline, there is none behind an instruction. -/
theorem deadline?_after_of_none {e : Execution} (hT : e.before.Timed) (h : e.before.deadline? = none) :
    e.after.deadline? = none := by
  cases hw : e.worked with
  | none =>
    rw [show e.after = e.before by rw [e.after_eq, hw]]
    exact h
  | some b =>
    rcases deadline?_after hw hT with ⟨hleft, -⟩ | ⟨-, hleft, -⟩
    · rw [hleft, h]
      rfl
    · exact hleft

end Execution

theorem Quiet.deadline? {a b : Cpu} (h : Quiet a b) : b.deadline? = a.deadline? := by
  unfold Cpu.deadline?
  rw [h.events]

theorem Chain.deadline?_nil {a b : Cpu} {es : List Execution} (h : Chain a es b) (hes : es = []) :
    b.deadline? = a.deadline? := by
  induction h with
  | nil => rfl
  | quiet hq _ ih => exact (ih hes).trans hq.deadline?
  | execute => cases hes

/-! ## The ends of a run -/

namespace Machine

/-- The cycles of a run. -/
def cyclesOf (budget : UInt64) : Nat := min budget.toNat longestRun

theorem cyclesOf_pos {budget : UInt64} (h : budget ≠ 0) : 0 < cyclesOf budget := by
  have hne : budget.toNat ≠ 0 := fun h0 => h (UInt64.toNat_inj.mp h0)
  unfold cyclesOf longestRun
  omega

theorem cyclesOf_le (budget : UInt64) : (cyclesOf budget : Int) ≤ horizon := by
  unfold cyclesOf longestRun horizon
  omega

/-- A run without a deadline in its way gets one. -/
theorem cpu_prepare {m : Machine} {budget : UInt64} (h : budget ≠ 0) (hfree : m.cpu.deadline? = none) :
    (m.prepare budget).cpu =
      { m.cpu with
        events := ⟨Schedule.insertAt .runForCycles .budgetSpent (cyclesOf budget) m.cpu.events.events⟩ } := by
  have hpos : (0 : Int) < (cyclesOf budget : Int) := Int.natCast_pos.mpr (cyclesOf_pos h)
  exact Cpu.schedule_of_free m.cpu .budgetSpent hpos hfree

theorem deadline?_prepare {m : Machine} {budget : UInt64} (h : budget ≠ 0) (hT : m.cpu.Timed)
    (hfree : m.cpu.deadline? = none) : (m.prepare budget).cpu.deadline? = some (cyclesOf budget : Int) := by
  rw [cpu_prepare h hfree]
  show (⟨Schedule.insertAt .runForCycles .budgetSpent (cyclesOf budget) m.cpu.events.events⟩ :
    Schedule TimerAction).until? .runForCycles = _
  rw [Schedule.until?_insert hT.agenda.distinct _ _ hfree, if_pos rfl]

theorem turnsToEnd_prepare {m : Machine} {budget : UInt64} (h : budget ≠ 0) (hT : m.cpu.Timed)
    (hfree : m.cpu.deadline? = none) : (m.prepare budget).turnsToEnd = cyclesOf budget + 2 := by
  have hdeadline := deadline?_prepare h hT hfree
  unfold turnsToEnd
  rw [show (m.prepare budget).cpu.events.until? .runForCycles = _ from hdeadline]
  rfl

theorem timed_prepare {m : Machine} {budget : UInt64} (h : budget ≠ 0) (hT : m.cpu.Timed)
    (hfree : m.cpu.deadline? = none) : (m.prepare budget).cpu.Timed := by
  have hbound : (1 : Int) ≤ (cyclesOf budget : Int) ∧ (cyclesOf budget : Int) ≤ horizon :=
    ⟨by have := cyclesOf_pos h; omega, cyclesOf_le budget⟩
  rw [cpu_prepare h hfree]
  refine ⟨hT.agenda.insert hfree hbound (.inr rfl), ?_⟩
  show (⟨Schedule.insertAt _ _ _ m.cpu.events.events⟩ : Schedule TimerAction).until? .compare ≠ none
  rw [Schedule.until?_insert hT.agenda.distinct _ _ hfree, if_neg (by decide)]
  exact hT.armed

/-- The processor behind a run, without a deadline. -/
def finish (c : Cpu) : Cpu := { c with events := c.events.erase .runForCycles }

theorem timed_finish {c : Cpu} (hT : c.Timed) : (finish c).Timed ∧ (finish c).deadline? = none := by
  have hd := hT.agenda.distinct
  refine ⟨⟨hT.agenda.erase .runForCycles, ?_⟩, ?_⟩
  · show (c.events.erase .runForCycles).until? .compare ≠ none
    rw [Schedule.until?_erase hd, if_neg (by decide)]
    exact hT.armed
  · show (c.events.erase .runForCycles).until? .runForCycles = none
    rw [Schedule.until?_erase hd, if_pos rfl]

/-- **A run is a chain** between the setting of its deadline and the removal. -/
theorem run_chain {m : Machine} {budget : UInt64} (h : budget ≠ 0) (hT : m.cpu.Timed)
    (hfree : m.cpu.deadline? = none) :
    ∃ (c c' : Cpu), Chain (m.prepare budget).cpu (m.executions budget) c ∧
      Ends c (m.run budget).1 c' ∧ (m.run budget).2.cpu = finish c' := by
  obtain ⟨c, hchain, hends⟩ :=
    loop_chain (m.prepare budget).turnsToEnd m.resumeAt (m.prepare budget) (timed_prepare h hT hfree)
  refine ⟨c, (loop (m.prepare budget).turnsToEnd m.resumeAt (m.prepare budget)).2.cpu, ?_, ?_, ?_⟩
  · unfold executions
    rw [if_neg h]
    exact hchain
  · rw [run_eq m h]
    exact hends
  · rw [run_eq m h]
    rfl

end Machine

end Vr4300
