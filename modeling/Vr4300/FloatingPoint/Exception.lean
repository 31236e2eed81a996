import Vr4300.FloatingPoint.Rounding

/-!
# Floating-point exceptions and the control register

An operation raises a set of exceptions. FCR31 holds the set of the last operation (Cause), the sets
that trap (Enables) and that have occurred (Flags), the rounding mode and the compare condition:

| Bits  | Field                                          |
|-------|------------------------------------------------|
| 1:0   | rounding mode                                  |
| 6:2   | Flags: inexact, underflow, overflow, division by zero, invalid |
| 11:7  | Enables, in the same order                     |
| 17:12 | Cause, in the same order, then unimplemented   |
| 23    | compare condition                              |
| 24    | flush denormals                                |

## Contents

* `ExceptionSet`, `Fcr31`.
* `Fcr31.record`: what a completed operation does to the register.
-/

namespace Vr4300.FloatingPoint

/-- A set of exceptions: bit 0 inexact, 1 underflow, 2 overflow, 3 division by zero, 4 invalid,
5 unimplemented operation. -/
structure ExceptionSet where
  /-- The members, one bit each. -/
  bits : BitVec 6
deriving DecidableEq, Repr, Inhabited

namespace ExceptionSet

/-- No exception. -/
def empty : ExceptionSet := ⟨0⟩
/-- The result is not the exact value. -/
def inexact : ExceptionSet := ⟨1⟩
/-- The result was replaced because it is below the normal range. -/
def underflow : ExceptionSet := ⟨2⟩
/-- The result was replaced because it is above the finite range. -/
def overflow : ExceptionSet := ⟨4⟩
/-- A nonzero number was divided by zero. -/
def divideByZero : ExceptionSet := ⟨8⟩
/-- The operation has no meaningful result. -/
def invalid : ExceptionSet := ⟨16⟩
/-- The hardware refuses the operands or the operation. -/
def unimplemented : ExceptionSet := ⟨32⟩

instance : EmptyCollection ExceptionSet := ⟨empty⟩

instance : Union ExceptionSet where
  union s t := ⟨s.bits ||| t.bits⟩

instance : Inter ExceptionSet where
  inter s t := ⟨s.bits &&& t.bits⟩

/-- The five exceptions that have an enable and a flag. -/
def ieee : ExceptionSet := ⟨31⟩

end ExceptionSet

/-- The floating-point control and status register. -/
structure Fcr31 where
  /-- The register as a word. -/
  raw : BitVec 32 := 0
deriving DecidableEq, Repr, Inhabited

namespace Fcr31

/-- The bits that hold a field. -/
def writable : BitVec 32 := 0x0183FFFF

/-- The bits of the Cause field. -/
def causeMask : BitVec 32 := 0x0003F000

/-- The bit of the compare condition. -/
def conditionBit : BitVec 32 := 0x00800000

/-- The register after a word is written to it. -/
def ofRaw (word : BitVec 32) : Fcr31 := ⟨word &&& writable⟩

/-- The implementation and revision number, which is read as register 0. -/
def revision : UInt32 := 0x0B00

/-- The rounding mode field. -/
def roundingField (r : Fcr31) : BitVec 2 := r.raw.extractLsb' 0 2

/-- The rounding mode. -/
def rounding (r : Fcr31) : RoundingMode := .ofBits r.roundingField.toNat

/-- The compare condition. -/
def condition (r : Fcr31) : Bool := r.raw.getLsbD 23

/-- Replaces the compare condition. -/
def setCondition (r : Fcr31) (value : Bool) : Fcr31 :=
  ⟨if value then r.raw ||| conditionBit else r.raw &&& ~~~conditionBit⟩

/-- The exceptions that trap; an unimplemented operation always does. -/
def enables (r : Fcr31) : ExceptionSet :=
  ⟨(r.raw.extractLsb' 7 5).setWidth 6⟩ ∪ .unimplemented

/-- The exceptions of the last operation. -/
def cause (r : Fcr31) : ExceptionSet := ⟨r.raw.extractLsb' 12 6⟩

/-- The exceptions that have occurred without trapping. -/
def flags (r : Fcr31) : ExceptionSet := ⟨(r.raw.extractLsb' 2 5).setWidth 6⟩

/-- An exception of the last operation is one that traps. -/
def causeTraps (r : Fcr31) : Bool :=
  (r.cause ∩ r.enables).bits != 0

/-- Replaces the Cause field. -/
def setCause (r : Fcr31) (raised : ExceptionSet) : Fcr31 :=
  ⟨(r.raw &&& ~~~causeMask) ||| (raised.bits.setWidth 32 <<< 12)⟩

/-- Adds to the Flags field. -/
def addFlags (r : Fcr31) (raised : ExceptionSet) : Fcr31 :=
  ⟨r.raw ||| ((raised ∩ .ieee).bits.setWidth 32 <<< 2)⟩

/-- Records the exceptions of an operation, with whether it completes. If one of them traps, the flags
stay as they are and the operation must not write its result. -/
def record (r : Fcr31) (raised : ExceptionSet) : Bool × Fcr31 :=
  let r := r.setCause raised
  if r.causeTraps then (false, r) else (true, r.addFlags raised)

end Fcr31

end Vr4300.FloatingPoint
