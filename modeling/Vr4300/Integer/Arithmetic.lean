import Vr4300.Word

/-!
# Integer addition, shifts and comparison

Word operations read the low halves of their operands and give a sign-extended result. The trapping
additions answer `none` on signed overflow, before anything is written.

## Contents

* `addWord?`, `subWord?`, `addDouble?`, `subDouble?`: addition that notices overflow.
* `shiftLeftWord` and its family: shifts, with the amount taken modulo the width.
* `Comparison`: the relations that conditional traps test, and `setLess`, `setBelow`.
-/

namespace Vr4300.Integer

/-- The result of a signed operation, or `none` where its exact value is not in `[-limit, limit)`. -/
def inRange? (limit exact : Int) (result : UInt64) : Option UInt64 :=
  if -limit ≤ exact ∧ exact < limit then some result else none

/-- The number of words that are not negative. -/
def wordLimit : Int := 0x80000000

/-- The number of doublewords that are not negative. -/
def doubleLimit : Int := 0x8000000000000000

/-- The low word of a register as a signed integer. -/
def signedWord (v : UInt64) : Int := v.toUInt32.toInt32.toInt

/-- A register as a signed integer. -/
def signedDouble (v : UInt64) : Int := v.toInt64.toInt

/-- Signed word addition. -/
def addWord? (a b : UInt64) : Option UInt64 :=
  inRange? wordLimit (signedWord a + signedWord b) (signExtendWord (a + b))

/-- Signed word subtraction. -/
def subWord? (a b : UInt64) : Option UInt64 :=
  inRange? wordLimit (signedWord a - signedWord b) (signExtendWord (a - b))

/-- Signed doubleword addition. -/
def addDouble? (a b : UInt64) : Option UInt64 :=
  inRange? doubleLimit (signedDouble a + signedDouble b) (a + b)

/-- Signed doubleword subtraction. -/
def subDouble? (a b : UInt64) : Option UInt64 :=
  inRange? doubleLimit (signedDouble a - signedDouble b) (a - b)

/-! ## Shifts -/

/-- Shifts the low word left. -/
def shiftLeftWord (v : UInt64) (amount : UInt32) : UInt64 :=
  ofWord (v.toUInt32 <<< (amount &&& 31))

/-- Shifts the low word right, with zeros from bit 31. -/
def shiftRightWord (v : UInt64) (amount : UInt32) : UInt64 :=
  ofWord (v.toUInt32 >>> (amount &&& 31))

/-- Shifts the whole register right with its sign and keeps the low word, so that bits above 31 of
the source reach the result. -/
def shiftRightArithmeticWord (v : UInt64) (amount : UInt32) : UInt64 :=
  signExtendWord (v.toInt64 >>> (amount &&& 31).toUInt64.toInt64).toUInt64

/-- Shifts the register left. -/
def shiftLeftDouble (v : UInt64) (amount : UInt32) : UInt64 :=
  v <<< (amount &&& 63).toUInt64

/-- Shifts the register right, with zeros from bit 63. -/
def shiftRightDouble (v : UInt64) (amount : UInt32) : UInt64 :=
  v >>> (amount &&& 63).toUInt64

/-- Shifts the register right with its sign. -/
def shiftRightArithmeticDouble (v : UInt64) (amount : UInt32) : UInt64 :=
  (v.toInt64 >>> (amount &&& 63).toUInt64.toInt64).toUInt64

/-! ## Comparison -/

/-- The relations between two registers that a conditional trap may test. -/
inductive Comparison where
  /-- At least, signed. -/
  | atLeast
  /-- At least, unsigned. -/
  | atLeastUnsigned
  /-- Less, signed. -/
  | less
  /-- Less, unsigned. -/
  | lessUnsigned
  /-- Equal. -/
  | equal
  /-- Not equal. -/
  | notEqual
deriving DecidableEq, Repr, Inhabited

/-- The relation holds between `a` and `b`. -/
def Comparison.holds (c : Comparison) (a b : UInt64) : Bool :=
  match c with
  | atLeast => b.toInt64 ≤ a.toInt64
  | atLeastUnsigned => b ≤ a
  | less => a.toInt64 < b.toInt64
  | lessUnsigned => a < b
  | equal => a == b
  | notEqual => a != b

/-- One where `a` is less than `b` as signed numbers, zero elsewhere. -/
def setLess (a b : UInt64) : UInt64 :=
  ofCondition (Comparison.less.holds a b)

/-- One where `a` is less than `b` as unsigned numbers, zero elsewhere. -/
def setBelow (a b : UInt64) : UInt64 :=
  ofCondition (Comparison.lessUnsigned.holds a b)

end Vr4300.Integer
