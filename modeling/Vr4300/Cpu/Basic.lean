import Vr4300.Configuration.Basic
import Vr4300.FloatingPoint.Exception
import Vr4300.Integer.MultiplyDivide
import Vr4300.Memory.Bus
import Vr4300.Register.Control
import Vr4300.Register.FloatingPoint
import Vr4300.Register.General
import Vr4300.Schedule
import Vr4300.Statistics
import Vr4300.Tlb

/-!
# The processor

The whole state that instructions work on: registers, the delay slot, the TLB, memory, time.

A branch does not change `pc` at once. The instruction after it, in the delay slot, is executed first;
`delaySlot` holds the target in the meantime.

Three fields are derived from the control registers, so that they need not be looked up for every
instruction: the view of the floating-point registers, `floatUsable` and `interruptsPending`.

## Contents

* `Exit`, `TimerAction`, `Cpu`.
* `Cpu.invalidateCode`: noting that instructions were overwritten.
* `Cpu.summary`: the state as one line of text.
-/

namespace Vr4300

/-- Why a run ended. -/
inductive Exit where
  /-- The cycles given to the run are spent. -/
  | budgetExhausted
  /-- A halt was requested. -/
  | halted
  /-- The next instruction is at a breakpoint. -/
  | breakpoint (pc : UInt64)
deriving DecidableEq, Repr, Inhabited

/-- What the processor does when an event falls due. -/
inductive TimerAction where
  /-- The timer interrupts and waits for the next match. -/
  | compareMatch
  /-- The run ends. -/
  | budgetSpent
deriving DecidableEq, Repr, Inhabited

/-- The state of the processor and of what it drives directly. -/
structure Cpu where
  /-- The general registers. -/
  regs : GeneralRegisters := {}
  /-- The multiply/divide pair. -/
  hilo : HiLo := {}
  /-- The floating-point registers. -/
  fpr : FloatRegisters := {}
  /-- The floating-point control register. -/
  fcr31 : FloatingPoint.Fcr31 := {}
  /-- The address of the next instruction. -/
  pc : UInt64
  /-- Where execution continues after the next instruction, if that is in a delay slot. -/
  delaySlot : Option UInt64 := none
  /-- A linked load has not been disturbed. -/
  llBit : Bool := false
  /-- The system control registers. -/
  cp0 : ControlRegisters
  /-- The cycles since reset, modulo 2^64. -/
  cycles : UInt64 := 0
  /-- The cycle at which Wired was written last. -/
  randomEpoch : UInt64 := 0
  /-- The latch of the absent third coprocessor. -/
  latch : UInt64 := 0
  /-- The entries that map addresses. -/
  tlb : Tlb := {}
  /-- Main memory. -/
  ram : Ram
  /-- The devices. -/
  bus : Bus := {}
  /-- The pending events. -/
  events : Schedule TimerAction := {}
  /-- Status makes the floating-point unit usable. -/
  floatUsable : Bool := true
  /-- An enabled interrupt is pending. -/
  interruptsPending : Bool := false
  /-- The level of the external interrupt line. -/
  line : Bool := false
  /-- Why the current run should end. -/
  breakout : Option Exit := none
  /-- The instructions executed since reset. -/
  opsExecuted : Nat := 0
  /-- Ranges of overwritten instructions that have not been looked at yet, as address and length. -/
  codeInvalidations : List (UInt64 × UInt64) := []
  /-- A TLB entry was replaced. -/
  tlbDirty : Bool := false
  /-- Counters. -/
  statistics : Statistics := {}
  /-- Settings. -/
  settings : GeneralSettings
  /-- The values of control registers after a reset. -/
  resetValues : ProcessorSettings
deriving Inhabited

namespace Cpu

/-- The size of a line of the instruction cache, the unit in which overwritten code is noted. -/
def codeLineSize : UInt64 := 32

/-- The next instruction is in a delay slot. -/
def inDelaySlot (c : Cpu) : Bool := c.delaySlot.isSome

/-- Status makes the floating-point unit usable. -/
def statusFloatUsable (c : Cpu) : Bool := c.cp0.hasStatus Control.statusCU1

/-- Notes that the lines that hold a range of addresses were overwritten. An empty range counts as one
byte. -/
def invalidateCode (c : Cpu) (address len : UInt64) : Cpu :=
  let start := address &&& ~~~(codeLineSize - 1)
  { c with codeInvalidations := c.codeInvalidations ++ [(start, max len 1 + (address - start))] }

/-- The state in one line of text. -/
def summary (c : Cpu) : String :=
  let pc := Text.paddedHex 16 c.pc.toNat
  let slot :=
    match c.delaySlot with
    | none => "None"
    | some target => s!"Some({target.toNat})"
  let cycles := c.cycles.toNat
  let events := c.events.listing
  "Cpu \x7b " ++
    s!"pc: {pc}, delay_slot: {slot}, ops_executed: {c.opsExecuted}, cycles: {cycles}, " ++
    s!"events: {events}, .. " ++ "\x7d"

end Cpu

end Vr4300
