import Vr4300.Proofs.Execution
import Vr4300.Proofs.Interrupts

/-!
# `Proofs.Lasting` — what the passing of time leaves alone

An instruction works, and then its cycle passes. The cycle moves the clock and Count, and it may set off events,
which set bits of Cause or ask the run to end. `Cpu.lasting` is the processor without any of that, and it is what
the work of the instruction left: what is proved about the work holds behind the cycle too, for every field that
lasts. Nothing is supposed about the schedule.

## Contents

* `ControlRegisters.lasting`, and the registers that two banks share if they share what lasts;
* `Cpu.lasting`, with one lemma per operation in which time passes;
* `Execution.lasting_after`: behind an execution stands what it has worked.
-/

namespace Vr4300

open Control

/-- The bits of Cause that time and the interrupt line set. -/
def causeTimed : UInt64 := causeIP7 ||| causeIP2

/-! ## The bank -/

namespace ControlRegisters

/-- The bank without Count and without the interrupts that time and the line request. -/
def lasting (b : ControlRegisters) : ControlRegisters := (b.clearBits cause causeTimed).put count 0

theorem lasting_put_count (b : ControlRegisters) (v : UInt64) : (b.put count v).lasting = b.lasting := by
  unfold lasting clearBits
  rw [values_put, RegisterFile.read_write_of_ne _ _ (show count ≠ cause by decide),
    put_comm _ _ _ (show count ≠ cause by decide), put_put]

theorem lasting_put_cause {b : ControlRegisters} {v : UInt64}
    (h : v &&& ~~~causeTimed = b.values.read cause &&& ~~~causeTimed) : (b.put cause v).lasting = b.lasting := by
  unfold lasting clearBits
  rw [values_put, RegisterFile.read_write_self, put_put, h]

/-- Requesting the timer interrupt does not last. -/
theorem lasting_setTimer (b : ControlRegisters) : (b.setBits cause causeIP7).lasting = b.lasting :=
  lasting_put_cause (or_and_of_disjoint (by decide) _)

/-- Sampling the line does not last. -/
theorem lasting_sample (b : ControlRegisters) (level : Bool) : (b.sample level).lasting = b.lasting := by
  obtain ⟨v, hv, hmask⟩ := sample_eq_put b level
  rw [hv]
  exact lasting_put_cause (hmask _ (by decide))

theorem read_lasting (b : ControlRegisters) {r : Reg} (hcount : r ≠ count) (hcause : r ≠ cause) :
    b.lasting.values.read r = b.values.read r := by
  unfold lasting clearBits
  rw [values_put, RegisterFile.read_write_of_ne _ _ hcount.symm, values_put,
    RegisterFile.read_write_of_ne _ _ hcause.symm]

theorem read_cause_lasting (b : ControlRegisters) :
    b.lasting.values.read cause = b.values.read cause &&& ~~~causeTimed := by
  unfold lasting clearBits
  rw [values_put, RegisterFile.read_write_of_ne _ _ (show count ≠ cause by decide), values_put,
    RegisterFile.read_write_self]

section

variable {a b : ControlRegisters}

/-- **Banks that share what lasts** share the stored values of all registers but Count and Cause. -/
theorem read_of_lasting (h : a.lasting = b.lasting) {r : Reg} (hcount : r ≠ count) (hcause : r ≠ cause) :
    a.values.read r = b.values.read r := by
  rw [← a.read_lasting hcount hcause, h, b.read_lasting hcount hcause]

theorem get_of_lasting (h : a.lasting = b.lasting) {r : Reg} (hcount : r ≠ count) (hcause : r ≠ cause) :
    a.get r = b.get r := by
  have hlatch : a.latch = b.latch := show a.lasting.latch = b.lasting.latch by rw [h]
  unfold get
  rw [read_of_lasting h hcount hcause, hlatch]

/-- Of Cause they share all but the interrupts that time and the line request. -/
theorem cause_of_lasting (h : a.lasting = b.lasting) :
    a.values.read cause &&& ~~~causeTimed = b.values.read cause &&& ~~~causeTimed := by
  rw [← read_cause_lasting, h, read_cause_lasting]

end

end ControlRegisters

/-! ## The processor -/

namespace Cpu

/-- The processor without what the passing of time changes. -/
def lasting (c : Cpu) : Cpu :=
  { c with
    cp0 := c.cp0.lasting
    cycles := 0
    events := {}
    interruptsPending := false
    breakout := none
    opsExecuted := 0
    statistics := {} }

/-- **Processors that share what lasts** share every field that lasts. -/
theorem same_of_lasting {a b : Cpu} {α : Type} (h : a.lasting = b.lasting) (read : Cpu → α)
    (hread : ∀ c : Cpu, read c.lasting = read c) : read a = read b := by
  rw [← hread a, h, hread]

theorem lasting_updateInterrupts (c : Cpu) : c.updateInterrupts.lasting = c.lasting := by
  unfold lasting
  rw [updateInterrupts_eq, ControlRegisters.lasting_sample]

theorem lasting_schedule (c : Cpu) (kind : EventKind) (n : Int) (action : TimerAction) :
    (c.schedule kind n action).lasting = c.lasting := by
  unfold schedule
  split <;> rfl

theorem lasting_compareMatched (c : Cpu) : c.compareMatched.lasting = c.lasting := by
  unfold compareMatched
  rw [lasting_updateInterrupts, lasting_schedule]
  unfold lasting
  rw [ControlRegisters.lasting_setTimer]

theorem lasting_perform (action : TimerAction) (rest : Schedule TimerAction) (c : Cpu) :
    (Scheduled.perform action (Scheduled.withSchedule rest c) : Cpu).lasting = c.lasting := by
  cases action with
  | compareMatch => exact lasting_compareMatched { c with events := rest }
  | budgetSpent => rfl

/-- **Events** change nothing that lasts, however many fall due. -/
theorem lasting_fireDue (limit : Nat) : ∀ c : Cpu, (fireDue limit c).lasting = c.lasting := by
  induction limit with
  | zero => exact fun c => rfl
  | succ limit ih =>
    intro c
    unfold fireDue
    split
    · rfl
    · exact (ih _).trans (lasting_perform _ _ c)

theorem lasting_passCycles (c : Cpu) (n : UInt64) : (c.passCycles n).lasting = c.lasting := by
  unfold passCycles lasting
  dsimp only
  rw [ControlRegisters.lasting_put_count]

theorem lasting_advance (c : Cpu) (n : UInt64) : (c.advance n).lasting = c.lasting := by
  unfold advance elapse
  exact (lasting_fireDue _ _).trans (lasting_passCycles c n)

/-- **Counting an instruction and its cycle** changes nothing that lasts. -/
theorem lasting_retire (c : Cpu) : c.retire.lasting = c.lasting := lasting_advance _ 1

theorem lasting_skipIdle (c : Cpu) : c.skipIdle.lasting = c.lasting := by
  rw [skipIdle_eq]
  split
  · exact lasting_passCycles c _
  · rfl

end Cpu

/-- **Behind an execution** stands what the instruction has worked. -/
theorem Execution.lasting_after {e : Execution} {b : Cpu} (h : e.worked = some b) :
    e.after.lasting = b.lasting := by
  rw [e.after_eq, h]
  dsimp only
  split
  · rw [Cpu.lasting_skipIdle, Cpu.lasting_retire]
  · exact Cpu.lasting_retire b

end Vr4300
