import Vr4300.Cpu.Control
import Vr4300.Cpu.Memory

/-!
# Exceptions

Delivery of an exception, and the return from its handler. The return address and the delay-slot mark
are only saved when no exception is being handled already.

## Contents

* `ExceptionVector`: where handlers start.
* `Cpu.takeException`, `Cpu.deliverInterrupt`.
* `Cpu.leaveException`: the return.
-/

namespace Vr4300

/-- The addresses of exception handlers. -/
def exceptionVector (boot refill : Bool) : UInt64 :=
  match boot, refill with
  | false, true => 0xFFFFFFFF80000000
  | false, false => 0xFFFFFFFF80000180
  | true, true => 0xFFFFFFFFBFC00200
  | true, false => 0xFFFFFFFFBFC00380

namespace Cpu

open Control

/-- Saves where a handler returns to: the instruction, or the branch in front of it if the instruction
is in a delay slot. -/
def saveReturn (c : Cpu) (inDelay : Bool) : Cpu :=
  if inDelay then
    { c with cp0 := (c.cp0.put epc (c.pc - 4)).setBits cause causeBD }
  else
    { c with cp0 := (c.cp0.put epc c.pc).clearBits cause causeBD }

/-- Cause with the code of an exception, and the coprocessor that was not usable. -/
def causeOf (t : Trap) (old : UInt64) : UInt64 :=
  let coprocessor :=
    match t with
    | .coprocessorUnusable n => (n.toUInt64 <<< 28) &&& causeCE
    | _ => 0
  (old &&& ~~~(causeExcCode ||| causeCE)) ||| (t.code <<< 2) ||| coprocessor

/-- The bits of Context that software sets. -/
def contextBase : UInt64 := 0xFFFFFFFFFF800000

/-- The bits of XContext that software sets. -/
def xContextBase : UInt64 := 0xFFFFFFFE00000000

/-- The page pair of an address, at its place in Context. -/
def contextPage (address : UInt64) : UInt64 :=
  (address >>> 9) &&& 0x7FFFF0

/-- The region and page pair of an address, at their places in XContext. -/
def xContextPage (address : UInt64) : UInt64 :=
  ((address >>> 62) <<< 31) ||| (((address >>> 13) &&& 0x7FFFFFF) <<< 4)

/-- Prepares the page-table pointers and EntryHi for a handler of TLB exceptions. -/
def saveTlbContext (c : Cpu) (address : UInt64) : Cpu :=
  let cp0 := c.cp0
  let cp0 := cp0.put context ((cp0.get context &&& contextBase) ||| contextPage address)
  let cp0 := cp0.put xContext ((cp0.get xContext &&& xContextBase) ||| xContextPage address)
  { c with cp0 := cp0.put entryHi ((address &&& TlbEntry.pageNumberBits) ||| c.asid) }

/-- Saves the address that caused an exception. -/
def saveBadAddress (c : Cpu) (t : Trap) : Cpu :=
  match t.badAddress? with
  | none => c
  | some address =>
    let c := { c with cp0 := c.cp0.put badVAddr address }
    if t.isTlb then c.saveTlbContext address else c

/-- Counts an exception. -/
def countException (t : Trap) (s : Statistics) : Statistics :=
  if t = .interrupt then { s with interrupts := s.interrupts + 1 }
  else { s with exceptions := s.exceptions + 1 }

/-- Delivers an exception; `pc` is the address of the instruction that raised it. -/
def takeException (c : Cpu) (t : Trap) (inDelay : Bool) : Cpu :=
  let nested := c.cp0.hasStatus statusEXL
  let vector := exceptionVector (c.cp0.hasStatus statusBEV) (t.isRefill && !nested)
  let c := if nested then c else c.saveReturn inDelay
  let c := { c with cp0 := c.cp0.put cause (causeOf t (c.cp0.get cause)) }
  let c := c.saveBadAddress t
  statusChanged
    { c with
      cp0 := c.cp0.setBits status statusEXL
      pc := vector
      delaySlot := none
      statistics := countException t c.statistics }

/-- Delivers an interrupt before the next instruction. -/
def deliverInterrupt (c : Cpu) : Cpu :=
  c.takeException .interrupt c.inDelaySlot

/-- Where the return from a handler continues: after an error, at the address saved for it. -/
def returnAddress (c : Cpu) : UInt64 :=
  if c.cp0.hasStatus statusERL then c.cp0.get errorEpc else c.cp0.get epc

/-- Leaves the handler of an error or of an exception. -/
def leaveException (c : Cpu) : Cpu :=
  let level := if c.cp0.hasStatus statusERL then statusERL else statusEXL
  statusChanged { c with cp0 := c.cp0.clearBits status level, llBit := false }

end Cpu

end Vr4300
