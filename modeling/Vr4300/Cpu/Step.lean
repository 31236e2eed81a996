import Vr4300.Cpu.Semantics

/-!
# Executing instructions

One instruction at a time: the plan is carried out or its exception delivered, the instruction is
counted, and one cycle passes. A branch to itself with an empty delay slot waits for an event; time is
forwarded to the cycle before the next one.

## Contents

* `Retired`: what is known about an executed instruction.
* `Cpu.follow`, `Cpu.idles`, `Cpu.skipIdle`.
* `Cpu.execute`, `Cpu.step`.
-/

namespace Vr4300

/-- What is known about an instruction that was executed. -/
structure Retired where
  /-- Its address. -/
  address : UInt64
  /-- The instruction word, or zero if it could not be fetched. -/
  word : UInt32
  /-- It was in a delay slot. -/
  inDelaySlot : Bool
  /-- It raised an exception. -/
  trapped : Bool
deriving DecidableEq, Repr, Inhabited

namespace Cpu

/-- Where execution continues unless the instruction says otherwise. -/
def successor (c : Cpu) : UInt64 := c.delaySlot.getD (c.pc + 4)

/-- Continues behind an instruction whose natural successor is `base`. -/
def follow (c : Cpu) (base : UInt64) : Flow → Cpu
  | .sequential => { c with pc := base, delaySlot := none }
  | .branch target => { c with pc := base, delaySlot := some target }
  | .nullify => { c with pc := base + 4, delaySlot := none }
  | .resume address => { c with pc := address, delaySlot := none }

/-- The flow is a branch to itself with an empty delay slot, and time may be forwarded. -/
def idles (c : Cpu) : Flow → Bool
  | .branch target =>
    c.settings.idleLoopSkip && target == c.pc && c.peek? (c.pc + 4) == some 0
  | _ => false

/-- Forwards time to the cycle before the next event. -/
def skipIdle (c : Cpu) : Cpu :=
  let (skipped, events) := c.events.skipToNext 1
  if 0 < skipped then
    let c := { c with events := events }
    let statistics := c.statistics
    passCycles
      { c with
        statistics :=
          { statistics with idleCyclesSkipped := statistics.idleCyclesSkipped + skipped.toNat } }
      (UInt64.ofInt skipped)
  else c

/-- Counts an instruction and its cycle. -/
def retire (c : Cpu) : Cpu :=
  advance { c with opsExecuted := c.opsExecuted + 1 } 1

/-- Executes the instruction at `pc`, given what it does. A fatal error leaves the state as it was. -/
def execute (c : Cpu) (word : UInt32) (planned : Except Fault Plan) : Except FatalError Retired × Cpu :=
  let retired : Retired :=
    { address := c.pc, word := word, inDelaySlot := c.inDelaySlot, trapped := false }
  match planned with
  | .ok p =>
    let base := c.successor
    let idle := c.idles p.flow
    let c := ((c.apply p.effect).follow base p.flow).retire
    (.ok retired, if idle then c.skipIdle else c)
  | .error (.trap t) =>
    (.ok { retired with trapped := true }, (c.takeException t retired.inDelaySlot).retire)
  | .error (.floatingPoint fcr31) =>
    let c := { c with fcr31 := fcr31 }
    (.ok { retired with trapped := true },
      (c.takeException .floatingPoint retired.inDelaySlot).retire)
  | .error (.fatal e) => (.error e, c)

/-- Executes an instruction word at `pc`. -/
def executeWord (c : Cpu) (word : UInt32) : Except FatalError Retired × Cpu :=
  let planned := c.planGuarded (.decode word)
  c.execute word planned

/-- Fetches and executes the instruction at `pc`. -/
def step (c : Cpu) : Except FatalError Retired × Cpu :=
  match c.fetch c.pc with
  | (.ok word, c) => c.executeWord word
  | (.error t, c) =>
    let retired : Retired :=
      { address := c.pc, word := 0, inDelaySlot := c.inDelaySlot, trapped := true }
    (.ok retired, (c.takeException t retired.inDelaySlot).retire)

end Cpu

end Vr4300
