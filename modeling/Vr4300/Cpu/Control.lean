import Vr4300.Cpu.Basic

/-!
# Control registers at work

What reading and writing the system control registers sets in motion: the timer, the random entry
number, interrupts and the floating-point mode. Time passes here, because Count, the random number and
the events all derive from it.

## Contents

* `Cpu.readControl`, `Cpu.writeControl`.
* `Cpu.updateInterrupts`, `Cpu.statusChanged`: keeping the derived fields right.
* `Cpu.scheduleCompare`, `Cpu.advance`: the timer and the passing of time.
* `Cpu.reset`, `Cpu.create`.
-/

namespace Vr4300

namespace Cpu

open Control

/-! ## Reading -/

/-- The number of the entry that a random TLB write replaces. It starts at 31 when Wired is written and
falls by one each cycle, from Wired back to 31. -/
def random (c : Cpu) : UInt64 :=
  let wired := min (c.cp0.get wired) 31
  let span := 32 - wired
  wired + (span - 1 - (c.cycles - c.randomEpoch) % span)

/-- The value that an instruction reads from a control register. -/
def readControl (c : Cpu) (r : Reg) : UInt64 :=
  if r = Control.random then c.random else c.cp0.get r

/-! ## Derived state -/

/-- Samples the external line into Cause and decides whether an interrupt is pending. -/
def updateInterrupts (c : Cpu) : Cpu :=
  let cp0 := if c.line then c.cp0.setBits cause causeIP2 else c.cp0.clearBits cause causeIP2
  { c with cp0 := cp0, interruptsPending := cp0.interruptPending }

/-- Brings everything that depends on Status up to date. -/
def statusChanged (c : Cpu) : Cpu :=
  let full := c.cp0.hasStatus statusFR
  updateInterrupts { c with fpr := c.fpr.select full, floatUsable := c.statusFloatUsable }

/-! ## The timer -/

/-- The cycles between two matches when neither register is written. -/
def comparePeriod : Int := 0x100000000

/-- Count and Compare have 32 bits. -/
def countMask : UInt64 := 0xFFFFFFFF

/-- The cycles until Count reaches Compare by counting; a full period if they are equal. -/
def compareCountdown (c : Cpu) : Int :=
  let distance := (c.cp0.get compare - c.cp0.get count) &&& countMask
  if distance = 0 then comparePeriod else distance.toNat

/-- Adds an event, unless it cannot be added. -/
def schedule (c : Cpu) (kind : EventKind) (countdown : Int) (action : TimerAction) : Cpu :=
  match c.events.add kind countdown action with
  | .ok events => { c with events := events }
  | .error _ => c

/-- Schedules the timer for the next match. -/
def scheduleCompare (c : Cpu) : Cpu :=
  schedule { c with events := c.events.erase .compare } .compare c.compareCountdown .compareMatch

/-- The timer matched: its interrupt is pending, and it waits for the next match. -/
def compareMatched (c : Cpu) : Cpu :=
  let c := { c with cp0 := c.cp0.setBits cause causeIP7 }
  (c.schedule .compare comparePeriod .compareMatch).updateInterrupts

/-- The budget is spent: the run ends, unless it has another reason to end. -/
def budgetSpent (c : Cpu) : Cpu :=
  { c with breakout := some (c.breakout.getD .budgetExhausted) }

instance : Scheduled Cpu TimerAction Int where
  schedule c := c.events
  withSchedule s c := { c with events := s }
  perform
    | .compareMatch, c => c.compareMatched
    | .budgetSpent, c => c.budgetSpent

/-- Moves the clock and Count, but not the events. -/
def passCycles (c : Cpu) (n : UInt64) : Cpu :=
  let now := (c.cp0.get count + n) &&& countMask
  { c with cycles := c.cycles + n, cp0 := c.cp0.put count now }

/-- Lets cycles pass: the clock, Count and every event that falls due. -/
def advance (c : Cpu) (n : UInt64) : Cpu :=
  elapse n.toInt64.toInt (c.passCycles n)

/-! ## Writing -/

/-- Writes a control register as an instruction does. -/
def writeControl (c : Cpu) (r : Reg) (v : UInt64) : Cpu :=
  match c.cp0.write? r v with
  | none => c
  | some cp0 =>
    let c := { c with cp0 := cp0 }
    if r = count then c.scheduleCompare
    else if r = compare then
      ({ c with cp0 := c.cp0.clearBits cause causeIP7 }).scheduleCompare.updateInterrupts
    else if r = status then c.statusChanged
    else if r = cause then c.updateInterrupts
    else if r = wired then { c with randomEpoch := c.cycles }
    else c

/-! ## Reset -/

/-- The state after a reset. Main memory, the devices and the external line are kept. -/
def reset (c : Cpu) : Cpu :=
  let fresh : Cpu :=
    { pc := c.settings.startPc
      cp0 := .atReset c.resetValues.initialStatus c.resetValues.initialConfig
      ram := c.ram
      bus := c.bus
      line := c.line
      tlbDirty := true
      settings := c.settings
      resetValues := c.resetValues }
  fresh.statusChanged.scheduleCompare.updateInterrupts

/-- A processor in its reset state, with cleared memory and no devices. -/
def create (config : Configuration) : Cpu :=
  reset
    { pc := 0
      cp0 := .atReset 0 0
      ram := .zeros config.memory.ramSize.toNat
      settings := config.general
      resetValues := config.cpu }

end Cpu

end Vr4300
