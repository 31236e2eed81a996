import Vr4300.Text.Hex

/-!
# Exceptions

A `Trap` is an architectural exception. The instruction that raises one has changed nothing when the
exception is taken. A `FatalError` stops the machine instead of being delivered.

## Contents

* `Trap`, with its exception code, its faulting address and its text.
* `FatalError` and its message.
-/

namespace Vr4300

/-- The exceptions that are delivered through the exception vectors. -/
inductive Trap where
  /-- An external or timer interrupt, taken between instructions. -/
  | interrupt
  /-- A store to a page that is not marked dirty. -/
  | tlbModified (address : UInt64)
  /-- No entry matches the address of a load or fetch. -/
  | tlbRefillLoad (address : UInt64)
  /-- No entry matches the address of a store. -/
  | tlbRefillStore (address : UInt64)
  /-- The matching page of a load or fetch is not valid. -/
  | tlbInvalidLoad (address : UInt64)
  /-- The matching page of a store is not valid. -/
  | tlbInvalidStore (address : UInt64)
  /-- A misaligned load or fetch. -/
  | addressErrorLoad (address : UInt64)
  /-- A misaligned store. -/
  | addressErrorStore (address : UInt64)
  /-- The system call instruction. -/
  | syscall
  /-- The breakpoint instruction. -/
  | breakpoint
  /-- An encoding that the architecture reserves. -/
  | reservedInstruction (word : UInt32)
  /-- An instruction of a coprocessor that Status does not make usable. -/
  | coprocessorUnusable (coprocessor : UInt8)
  /-- Signed overflow of an addition or subtraction. -/
  | overflow
  /-- A conditional trap whose condition held. -/
  | trapInstruction
  /-- A floating-point exception that is enabled, or an unimplemented operation. -/
  | floatingPoint
deriving DecidableEq, Repr, Inhabited

namespace Trap

/-- The code that Cause records for the exception. -/
def code : Trap → UInt64
  | interrupt => 0
  | tlbModified _ => 1
  | tlbRefillLoad _ | tlbInvalidLoad _ => 2
  | tlbRefillStore _ | tlbInvalidStore _ => 3
  | addressErrorLoad _ => 4
  | addressErrorStore _ => 5
  | syscall => 8
  | breakpoint => 9
  | reservedInstruction _ => 10
  | coprocessorUnusable _ => 11
  | overflow => 12
  | trapInstruction => 13
  | floatingPoint => 15

/-- The virtual address that caused an addressing exception. -/
def badAddress? : Trap → Option UInt64
  | tlbModified a | tlbRefillLoad a | tlbRefillStore a | tlbInvalidLoad a | tlbInvalidStore a
  | addressErrorLoad a | addressErrorStore a => some a
  | _ => none

/-- The exception was raised by the TLB. -/
def isTlb : Trap → Bool
  | tlbModified _ | tlbRefillLoad _ | tlbRefillStore _ | tlbInvalidLoad _ | tlbInvalidStore _ =>
    true
  | _ => false

/-- The exception reports that no entry matched, so it has a vector of its own. -/
def isRefill : Trap → Bool
  | tlbRefillLoad _ | tlbRefillStore _ => true
  | _ => false

open Text in
/-- The text of an exception: its name, with its address, word or coprocessor in parentheses. -/
def text : Trap → String
  | interrupt => "Interrupt"
  | tlbModified a => s!"TlbModified({hex a.toNat})"
  | tlbRefillLoad a => s!"TlbRefillLoad({hex a.toNat})"
  | tlbRefillStore a => s!"TlbRefillStore({hex a.toNat})"
  | tlbInvalidLoad a => s!"TlbInvalidLoad({hex a.toNat})"
  | tlbInvalidStore a => s!"TlbInvalidStore({hex a.toNat})"
  | addressErrorLoad a => s!"AddressErrorLoad({hex a.toNat})"
  | addressErrorStore a => s!"AddressErrorStore({hex a.toNat})"
  | syscall => "Syscall"
  | breakpoint => "Breakpoint"
  | reservedInstruction w => s!"ReservedInstruction({paddedHex 8 w.toNat})"
  | coprocessorUnusable n => s!"CoprocessorUnusable({n.toNat})"
  | overflow => "Overflow"
  | trapInstruction => "TrapInstruction"
  | floatingPoint => "FloatingPoint"

instance : ToString Trap where
  toString := text

end Trap

/-- Conditions that stop the machine at the instruction that caused them. -/
inductive FatalError where
  /-- The encoding at `pc` is one that this core does not implement. -/
  | unimplementedInstruction (pc : UInt64) (word : UInt32)
  /-- A decode table has the wrong number of entries. -/
  | decodeTableSize (table : String) (expected actual : Nat)
deriving DecidableEq, Repr, Inhabited

open Text in
/-- The message of a fatal error. -/
def FatalError.message : FatalError → String
  | unimplementedInstruction pc word =>
    s!"unimplemented instruction {paddedHex 8 word.toNat} at pc {paddedHex 16 pc.toNat}"
  | decodeTableSize table expected actual =>
    "dispatch table `" ++ table ++ s!"` has {actual} entries, expected {expected}"

instance : ToString FatalError where
  toString := FatalError.message

end Vr4300
