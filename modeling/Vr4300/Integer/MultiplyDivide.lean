import Vr4300.Integer.Arithmetic

/-!
# The multiply/divide unit

Products and quotients are written to the register pair HI and LO. Word operations read the low halves
of their operands and write sign-extended words. No operation traps: a zero divisor leaves the dividend
in HI and minus one (or one, under a negative signed dividend) in LO, and the one quotient that does
not fit wraps to its dividend.

## Contents

* `HiLo`: the register pair.
* `MultiplyOp`, `MultiplyOp.apply`: the eight operations.
-/

namespace Vr4300

/-- The result pair of the multiply/divide unit. -/
structure HiLo where
  /-- The high half of a product, or the remainder. -/
  hi : UInt64 := 0
  /-- The low half of a product, or the quotient. -/
  lo : UInt64 := 0
deriving DecidableEq, Repr, Inhabited

namespace HiLo

/-- A word pair: both halves sign-extended from bit 31. -/
def ofWords (hi lo : UInt32) : HiLo :=
  ⟨ofWord hi, ofWord lo⟩

/-- The two halves of a 64-bit product of words. -/
def ofWordProduct (p : UInt64) : HiLo :=
  ⟨signExtendWord (p >>> 32), signExtendWord p⟩

/-- The two halves of a 128-bit product, taken modulo `2 ^ 128`. -/
def ofDoubleProduct (p : Int) : HiLo :=
  let n := (p % 0x100000000000000000000000000000000).toNat
  ⟨UInt64.ofNat (n >>> 64), UInt64.ofNat n⟩

end HiLo

/-- The operations of the multiply/divide unit. -/
inductive MultiplyOp where
  /-- Signed word product. -/
  | mult
  /-- Unsigned word product. -/
  | multu
  /-- Signed word quotient and remainder. -/
  | div
  /-- Unsigned word quotient and remainder. -/
  | divu
  /-- Signed doubleword product. -/
  | dmult
  /-- Unsigned doubleword product. -/
  | dmultu
  /-- Signed doubleword quotient and remainder. -/
  | ddiv
  /-- Unsigned doubleword quotient and remainder. -/
  | ddivu
deriving DecidableEq, Repr, Inhabited

namespace MultiplyOp

/-- Signed word division, rounding toward zero. -/
def divideWord (n d : Int32) : HiLo :=
  if d = 0 then ⟨n.toInt64.toUInt64, if n < 0 then 1 else ~~~0⟩
  else ⟨(n % d).toInt64.toUInt64, (n / d).toInt64.toUInt64⟩

/-- Unsigned word division. -/
def divideWordUnsigned (n d : UInt32) : HiLo :=
  if d = 0 then ⟨ofWord n, ~~~0⟩ else .ofWords (n % d) (n / d)

/-- Signed doubleword division, rounding toward zero. -/
def divideDouble (n d : Int64) : HiLo :=
  if d = 0 then ⟨n.toUInt64, if n < 0 then 1 else ~~~0⟩
  else ⟨(n % d).toUInt64, (n / d).toUInt64⟩

/-- Unsigned doubleword division. -/
def divideDoubleUnsigned (n d : UInt64) : HiLo :=
  if d = 0 then ⟨n, ~~~0⟩ else ⟨n % d, n / d⟩

/-- What an operation on the registers `a` and `b` leaves in HI and LO. -/
def apply (op : MultiplyOp) (a b : UInt64) : HiLo :=
  match op with
  | mult => .ofWordProduct (signExtendWord a * signExtendWord b)
  | multu => .ofWordProduct (a.toUInt32.toUInt64 * b.toUInt32.toUInt64)
  | div => divideWord a.toUInt32.toInt32 b.toUInt32.toInt32
  | divu => divideWordUnsigned a.toUInt32 b.toUInt32
  | dmult => .ofDoubleProduct (Integer.signedDouble a * Integer.signedDouble b)
  | dmultu => .ofDoubleProduct ((a.toNat : Int) * b.toNat)
  | ddiv => divideDouble a.toInt64 b.toInt64
  | ddivu => divideDoubleUnsigned a b

end MultiplyOp

end Vr4300
