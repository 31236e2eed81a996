import Vr4300.FloatingPoint.Format

/-!
# Operand classes

The hardware looks at the class of its operands before it computes. Denormals and signalling NaNs are
refused, quiet NaNs make an operation invalid, and some combinations of zeros and infinities have no
result. A NaN is quiet when the most significant bit of its fraction is set.

## Contents

* `OperandClass`, `Format.classify`.
* `BinaryOp`, `BinaryOp.kind`: what an operation does for a pair of classes.
-/

namespace Vr4300.FloatingPoint

/-- The class of an operand. -/
inductive OperandClass where
  /-- A number with a full significand. -/
  | normal
  /-- Positive zero. -/
  | posZero
  /-- Negative zero. -/
  | negZero
  /-- Positive infinity. -/
  | posInfinity
  /-- Negative infinity. -/
  | negInfinity
  /-- A NaN that is quiet. -/
  | quietNan
  /-- A NaN that is signalling. -/
  | signalingNan
  /-- A nonzero number below the normal range. -/
  | denormal
deriving DecidableEq, Repr, Inhabited

namespace OperandClass

/-- All classes, in the order in which they are numbered. -/
def all : List OperandClass :=
  [normal, posZero, negZero, posInfinity, negInfinity, quietNan, signalingNan, denormal]

/-- Either NaN. -/
def isNan : OperandClass → Bool
  | quietNan | signalingNan => true
  | _ => false

/-- Either zero. -/
def isZero : OperandClass → Bool
  | posZero | negZero => true
  | _ => false

/-- Either infinity. -/
def isInfinite : OperandClass → Bool
  | posInfinity | negInfinity => true
  | _ => false

/-- The hardware refuses such an operand. -/
def isRefused : OperandClass → Bool
  | signalingNan | denormal => true
  | _ => false

end OperandClass

/-- The class of a bit pattern. -/
def Format.classify (f : Format) (bits : Nat) : OperandClass :=
  let negative : Bool := f.signBit ≤ bits % (2 * f.signBit)
  let magnitude := bits % f.signBit
  if f.infinityMagnitude < magnitude then
    if magnitude.testBit (f.fractionBits - 1) then .quietNan else .signalingNan
  else if magnitude = f.infinityMagnitude then
    if negative then .negInfinity else .posInfinity
  else if f.minNormalMagnitude ≤ magnitude then .normal
  else if magnitude ≠ 0 then .denormal
  else if negative then .negZero
  else .posZero

/-- What an operation does for a pair of operand classes. -/
inductive OperationKind where
  /-- It has a result to compute. -/
  | compute
  /-- It is invalid. -/
  | invalid
  /-- The hardware refuses it. -/
  | unimplemented
  /-- It divides a nonzero number by zero. -/
  | divideByZero
deriving DecidableEq, Repr, Inhabited

/-- The arithmetic operators. -/
inductive BinaryOp where
  /-- Addition. -/
  | add
  /-- Subtraction. -/
  | sub
  /-- Multiplication. -/
  | mul
  /-- Division. -/
  | div
deriving DecidableEq, Repr, Inhabited

/-- The infinities and zeros between which an operator has no result. -/
def BinaryOp.isUndefined (op : BinaryOp) (a b : OperandClass) : Bool :=
  match op with
  | add => a.isInfinite && b.isInfinite && a != b
  | sub => a.isInfinite && a == b
  | mul => (a.isZero && b.isInfinite) || (a.isInfinite && b.isZero)
  | div => (a.isZero && b.isZero) || (a.isInfinite && b.isInfinite)

/-- What an operator does for a pair of operand classes. A refused operand comes first, then a NaN. -/
def BinaryOp.kind (op : BinaryOp) (a b : OperandClass) : OperationKind :=
  if a.isRefused || b.isRefused then .unimplemented
  else if a.isNan || b.isNan then .invalid
  else if op.isUndefined a b then .invalid
  else if op = .div ∧ a = .normal ∧ b.isZero then .divideByZero
  else .compute

end Vr4300.FloatingPoint
