import Vr4300.Fragment.Cache

/-!
# The machine

The processor and the vector unit, the fragment cache, and what is attached from outside: breakpoints,
and observers that are told about resets.

## Contents

* `Machine`, `Machine.create`, `Machine.reset`.
* `Machine.loadProgram`, `Machine.invalidateCode`, `Machine.requestHalt`.
* `Machine.report`: the counters.
-/

namespace Vr4300

/-- The machine. -/
structure Machine where
  /-- The processor and the vector unit. -/
  tandem : Tandem
  /-- The fragments. -/
  cache : FragmentCache
  /-- The addresses at which a run stops before the instruction there, as an unordered set
  (`FragmentCache.blocked` says where another registry differs). -/
  breakpoints : List UInt64 := []
  /-- The breakpoint at which the last run stopped, which the next one passes. -/
  resumeAt : Option UInt64 := none
  /-- The number of observers of resets. -/
  observers : Nat := 0
  /-- The times that an observer was told about a reset. -/
  notifications : Nat := 0

namespace Machine

/-- The processor. -/
def cpu (m : Machine) : Cpu := m.tandem.cpu

/-- Changes the processor. -/
def onCpu (m : Machine) (f : Cpu → Cpu) : Machine :=
  let { tandem, cache, breakpoints, resumeAt, observers, notifications } := m
  { tandem := tandem.onCpu f, cache, breakpoints, resumeAt, observers, notifications }

/-- A machine in its reset state with the given devices and vector unit. -/
def create (config : Configuration) (bus : Bus) (vector : VectorUnit) : Machine where
  tandem := ⟨{ Cpu.create config with bus := bus }, vector⟩
  cache := .create config.recompiler

/-- Attaches an external interrupt line. -/
def attachLine (m : Machine) (level : Bool) : Machine :=
  m.onCpu fun c => Cpu.updateInterrupts { c with line := level }

/-- Sets the external interrupt line. -/
def setLine (m : Machine) (level : Bool) : Machine :=
  m.onCpu fun c => { c with line := level }

/-- Adds an observer of resets. -/
def observeResets (m : Machine) : Machine :=
  { m with observers := m.observers + 1 }

/-- Resets the processor and drops every fragment. Memory and devices are kept. -/
def reset (m : Machine) : Machine :=
  let m := m.onCpu Cpu.reset
  { m with
    cache := m.cache.clear
    resumeAt := none
    notifications := m.notifications + m.observers }

/-- Makes the current or next run stop before its next instruction. -/
def requestHalt (m : Machine) : Machine :=
  m.onCpu fun c => { c with breakout := some .halted }

/-- Counts dropped fragments. -/
def countInvalidated (n : Nat) (c : Cpu) : Cpu :=
  let statistics := c.statistics
  { c with
    statistics := { statistics with invalidatedFragments := statistics.invalidatedFragments + n } }

/-- Drops the fragments with code in a range of addresses. -/
def invalidateCode (m : Machine) (address len : UInt64) : Machine :=
  let (n, cache) := m.cache.invalidate address len
  { m.onCpu (countInvalidated n) with cache := cache }

/-- Drops the fragments that are entered at translated addresses. -/
def invalidateMapped (m : Machine) : Machine :=
  let (n, cache) := m.cache.invalidateMapped
  { m.onCpu (countInvalidated n) with cache := cache }

/-- Copies instruction words into main memory and drops the fragments from there. -/
def loadProgram (m : Machine) (physical : Nat) (program : List UInt32) : Machine :=
  let bytes := Bytes.ofWords program
  let m := m.onCpu fun c =>
    let ram := c.ram
    { c with ram := ram.load physical bytes }
  m.invalidateCode (Address.kseg0Base + UInt64.ofNat physical) (UInt64.ofNat bytes.length)

/-- The counters, with the totals that the processor keeps. -/
def report (m : Machine) : Statistics :=
  { m.cpu.statistics with cycles := m.cpu.cycles.toNat, instructions := m.cpu.opsExecuted }

end Machine

end Vr4300
