import Vr4300.Register.File

/-!
# System control registers

The bank of coprocessor-0 registers as stored. Software writes change only the writable bits of a
register; some registers belong to the hardware, and the numbers without a register share one latch
that reads back the last value written to any of them. What a write sets in motion is not decided here.

## Contents

* The register numbers and the fields of Status and Cause.
* `WriteRule`, `writeRule`.
* `ControlRegisters`: the bank, with reads, writes and the interrupt condition.
-/

namespace Vr4300

namespace Control

/-! ## Register numbers -/

/-- The TLB entry that indexed operations use. -/
def index : Reg := 0
/-- The TLB entry that random writes use; derived from time. -/
def random : Reg := 1
/-- The even page of a TLB entry. -/
def entryLo0 : Reg := 2
/-- The odd page of a TLB entry. -/
def entryLo1 : Reg := 3
/-- The page-table pointer of a 32-bit handler. -/
def context : Reg := 4
/-- The page size of a TLB entry. -/
def pageMask : Reg := 5
/-- The number of TLB entries that random writes spare. -/
def wired : Reg := 6
/-- The last faulting address. -/
def badVAddr : Reg := 8
/-- The cycle counter. -/
def count : Reg := 9
/-- The page number and address space of a TLB entry. -/
def entryHi : Reg := 10
/-- The count at which the timer interrupts. -/
def compare : Reg := 11
/-- The processor status. -/
def status : Reg := 12
/-- The exception cause. -/
def cause : Reg := 13
/-- The return address of an exception. -/
def epc : Reg := 14
/-- The processor revision. -/
def prId : Reg := 15
/-- The configuration. -/
def config : Reg := 16
/-- The physical address of the last linked load. -/
def llAddr : Reg := 17
/-- The low half of the watched address. -/
def watchLo : Reg := 18
/-- The high half of the watched address. -/
def watchHi : Reg := 19
/-- The page-table pointer of a 64-bit handler. -/
def xContext : Reg := 20
/-- The cache parity bits. -/
def parityError : Reg := 26
/-- The cache error status. -/
def cacheError : Reg := 27
/-- The low half of a cache tag. -/
def tagLo : Reg := 28
/-- The high half of a cache tag. -/
def tagHi : Reg := 29
/-- The return address of an error. -/
def errorEpc : Reg := 30

/-! ## Fields -/

/-- Status: interrupts are enabled. -/
def statusIE : UInt64 := 1
/-- Status: an exception is being handled. -/
def statusEXL : UInt64 := 2
/-- Status: an error is being handled. -/
def statusERL : UInt64 := 4
/-- Status: exceptions use the boot vectors. -/
def statusBEV : UInt64 := 0x00400000
/-- Status: floating-point registers are seen in the full view. -/
def statusFR : UInt64 := 0x04000000
/-- Status: the floating-point unit is usable. -/
def statusCU1 : UInt64 := 0x20000000
/-- Status: the third coprocessor is usable. -/
def statusCU2 : UInt64 := 0x40000000

/-- Cause: the exception was taken in a delay slot. -/
def causeBD : UInt64 := 0x80000000
/-- Cause: the number of the unusable coprocessor. -/
def causeCE : UInt64 := 0x30000000
/-- Cause: the pending interrupts. -/
def causeIP : UInt64 := 0xFF00
/-- Cause: the external line is pending. -/
def causeIP2 : UInt64 := 0x0400
/-- Cause: the timer is pending. -/
def causeIP7 : UInt64 := 0x8000
/-- Cause: the exception code. -/
def causeExcCode : UInt64 := 0x7C

/-- Index after a probe that found no entry. -/
def probeFailure : UInt64 := 0x80000000

/-- The processor revision of this core. -/
def revision : UInt64 := 0x0B22

/-! ## Writing -/

/-- How a software write changes a register. -/
inductive WriteRule where
  /-- The bits of the mask change. -/
  | masked (mask : UInt64)
  /-- The register belongs to the hardware and the write is dropped. -/
  | readOnly
  /-- There is no such register; the value is stored and latched. -/
  | reserved
deriving DecidableEq, Repr, Inhabited

/-- How a software write changes the register with number `n`. -/
def writeRule (n : Nat) : WriteRule :=
  match n with
  | 0 | 6 => .masked 0x3F
  | 2 | 3 => .masked 0x3FFFFFFF
  | 4 => .masked 0xFFFFFFFFFF800000
  | 5 => .masked 0x01FFE000
  | 9 | 11 | 17 => .masked 0xFFFFFFFF
  | 10 => .masked 0xC00000FFFFFFE0FF
  | 12 => .masked 0xFF57FFFF
  | 13 => .masked 0x300
  | 14 | 30 => .masked 0xFFFFFFFFFFFFFFFF
  | 16 => .masked 0x0F00800F
  | 18 => .masked 0xFFFFFFFB
  | 19 => .masked 0xF
  | 20 => .masked 0xFFFFFFFE00000000
  | 26 => .masked 0xFF
  | 28 => .masked 0x0FFFFFC0
  | 29 => .masked 0
  | 1 | 8 | 15 | 27 => .readOnly
  | _ => .reserved

end Control

/-- The bank of system control registers. -/
structure ControlRegisters where
  /-- The values as stored. -/
  values : RegisterFile UInt64
  /-- What the numbers without a register read as. -/
  latch : UInt64
deriving DecidableEq, Repr, Inhabited

namespace ControlRegisters

open Control

/-- The bank after a reset that leaves the given Status and Config. -/
def atReset (initialStatus initialConfig : UInt64) : ControlRegisters where
  values :=
    (RegisterFile.filled 0).write status initialStatus |>.write config initialConfig
      |>.write prId revision |>.write random 31
  latch := 0

/-- The stored value of a register, or the latch where there is none. -/
def get (c : ControlRegisters) (r : Reg) : UInt64 :=
  match writeRule r with
  | .reserved => c.latch
  | _ => c.values.read r

/-- Stores a value as it is. -/
def put (c : ControlRegisters) (r : Reg) (v : UInt64) : ControlRegisters :=
  { c with values := c.values.write r v }

/-- Sets bits of a stored value. -/
def setBits (c : ControlRegisters) (r : Reg) (bits : UInt64) : ControlRegisters :=
  c.put r (c.values.read r ||| bits)

/-- Clears bits of a stored value. -/
def clearBits (c : ControlRegisters) (r : Reg) (bits : UInt64) : ControlRegisters :=
  c.put r (c.values.read r &&& ~~~bits)

@[simp] theorem values_put (c : ControlRegisters) (r : Reg) (v : UInt64) :
    (c.put r v).values = c.values.write r v := rfl

@[simp] theorem latch_put (c : ControlRegisters) (r : Reg) (v : UInt64) :
    (c.put r v).latch = c.latch := rfl

theorem get_put_of_ne (c : ControlRegisters) {r s : Reg} (v : UInt64) (h : r ≠ s) :
    (c.put r v).get s = c.get s := by
  simp [get, RegisterFile.read_write_of_ne _ _ h]

/-- A software write; `none` if the register is read-only. -/
def write? (c : ControlRegisters) (r : Reg) (v : UInt64) : Option ControlRegisters :=
  match writeRule r with
  | .masked mask => some (c.put r (blend (c.values.read r) v mask))
  | .readOnly => none
  | .reserved => some { c.put r v with latch := v }

/-- Status holds a bit. -/
def hasStatus (c : ControlRegisters) (bit : UInt64) : Bool :=
  c.values.read status &&& bit != 0

/-- An interrupt that the mask lets through is pending, interrupts are enabled, and neither an
exception nor an error is being handled. -/
def interruptPending (c : ControlRegisters) : Bool :=
  c.hasStatus statusIE && !c.hasStatus (statusEXL ||| statusERL) &&
    c.values.read cause &&& c.values.read status &&& causeIP != 0

end ControlRegisters

end Vr4300
