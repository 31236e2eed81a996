import Vr4300.FloatingPoint.Class
import Vr4300.FloatingPoint.Exception

/-!
# Operations of the floating-point unit

Every operation maps bit patterns to a bit pattern and the exceptions that it raises. Results are
computed in double precision and rounded to nearest; the sign of a residual, itself a double, then
decides inexactness and the directed modes. A residual too small for a double counts as zero.

A result below the normal range is replaced by zero or by the least normal number, and one above the
finite range by infinity or by the largest number, as the mode and the sign demand.

## Contents

* `Precision`, `IntegerFormat`, `Outcome`.
* `binary`, `sqrt`, `abs`, `neg`: arithmetic.
* `narrow`, `widen`, `fromInteger`, `toInteger`: conversions.
* `compareOperands`: the conditions.
-/

namespace Vr4300.FloatingPoint

/-- The two precisions that arithmetic works in. -/
inductive Precision where
  /-- Thirty-two bits. -/
  | single
  /-- Sixty-four bits. -/
  | double
deriving DecidableEq, Repr, Inhabited

/-- The format of a precision. -/
def Precision.format : Precision → Format
  | single => .single
  | double => .double

/-- The widths of the integers that conversions read and write. -/
inductive IntegerFormat where
  /-- Thirty-two bits. -/
  | word
  /-- Sixty-four bits. -/
  | long
deriving DecidableEq, Repr, Inhabited

/-- The result of an operation; a single occupies the low bits. -/
structure Outcome where
  /-- The pattern to write. -/
  bits : UInt64
  /-- The exceptions raised. -/
  raised : ExceptionSet
deriving DecidableEq, Repr, Inhabited

namespace Outcome

/-- A result that raises nothing. -/
def exact (bits : UInt64) : Outcome := ⟨bits, ∅⟩

/-- The hardware refuses the operation. -/
def unimplemented : Outcome := ⟨0, .unimplemented⟩

end Outcome

namespace Precision

/-- The pattern that an invalid operation writes. -/
def defaultNan : Precision → UInt64
  | single => 0x7FBFFFFF
  | double => 0x7FF7FFFFFFFFFFFF

/-- The bits of a register that an operand of this precision occupies. -/
def operand (p : Precision) (bits : UInt64) : Nat :=
  match p with
  | single => bits.toUInt32.toNat
  | double => bits.toNat

/-- The class of an operand. -/
def classify (p : Precision) (bits : UInt64) : OperandClass :=
  p.format.classify (p.operand bits)

/-- The number behind an operand. -/
def datum (p : Precision) (bits : UInt64) : Datum :=
  p.format.decode (p.operand bits)

/-- The pattern of a datum, as a register value. -/
def encode (p : Precision) (d : Datum) : UInt64 :=
  UInt64.ofNat (p.format.encode d)

/-- A signed magnitude, as a register value. -/
def pattern (p : Precision) (negative : Bool) (magnitude : Nat) : UInt64 :=
  UInt64.ofNat (p.format.pattern negative magnitude)

end Precision

/-- The mode moves a value of the given sign away from zero. -/
def RoundingMode.isOutward (mode : RoundingMode) (negative : Bool) : Bool :=
  match mode with
  | upward => !negative
  | downward => negative
  | nearest | towardZero => false

/-- The replacement of a result above the finite range. -/
def overflowed (p : Precision) (negative : Bool) (mode : RoundingMode) : Outcome :=
  let magnitude :=
    if mode = .nearest ∨ mode.isOutward negative then p.format.infinityMagnitude
    else p.format.maxFiniteMagnitude
  ⟨p.pattern negative magnitude, .overflow ∪ .inexact⟩

/-- The replacement of a nonzero result below the normal range. -/
def underflowed (p : Precision) (negative : Bool) (mode : RoundingMode) : Outcome :=
  let magnitude := if mode.isOutward negative then p.format.minNormalMagnitude else 0
  ⟨p.pattern negative magnitude, .underflow ∪ .inexact⟩

/-- The datum lies below the normal range of a format without being zero. -/
def Format.isSubnormal (f : Format) : Datum → Bool
  | .finite _ significand _ => 0 < significand && significand < f.minNormalMagnitude
  | _ => false

/-- The sign of a result that is known by its rounding and the side of the exact value. -/
def resultNegative (r : Datum) (side : Side) : Bool :=
  if r.isZero then side = .below else r.isBelowZero

/-- Finishes a double-precision result. -/
def finishDouble (mode : RoundingMode) (r : Datum) (side : Side) : Outcome :=
  if r.isInfinite then overflowed .double r.isBelowZero mode
  else
    let v := mode.adjust side r
    if v.isInfinite then overflowed .double v.isBelowZero mode
    else if Format.double.isSubnormal v || (v.isZero && side != .exact) then
      underflowed .double (resultNegative r side) mode
    else ⟨Precision.double.encode v, if side = .exact then ∅ else .inexact⟩

/-- The least power of two beyond the range of a single. -/
def singleLimit : Datum := .finite false 1 128

/-- The exact value beside the double `r`, rounded to single precision without a bound on the exponent,
exceeds the largest finite single. -/
def exceedsSingle (mode : RoundingMode) (r : Datum) (side : Side) (rounded : Datum) : Bool :=
  let outward :=
    match mode with
    | .nearest => true
    | .upward => r.isPositive
    | .downward => r.isBelowZero
    | .towardZero => false
  if outward then rounded.isInfinite
  else
    singleLimit.less r.abs ||
      (r.abs.same singleLimit && (side == .exact || (side == .above) == r.isPositive))

/-- Finishes a single-precision result that was computed in double precision. -/
def finishSingle (mode : RoundingMode) (r : Datum) (side : Side) : Outcome :=
  let (v, isInexact) := mode.narrow side r
  if exceedsSingle mode r side v then overflowed .single r.isBelowZero mode
  else if Format.single.isSubnormal v || (v.isZero && (!r.isZero || side != .exact)) then
    underflowed .single (resultNegative r side) mode
  else ⟨Precision.single.encode v, if isInexact then .inexact else ∅⟩

/-- Finishes a result in either precision. -/
def finish (p : Precision) (mode : RoundingMode) (r : Datum) (side : Side) : Outcome :=
  match p with
  | .single => finishSingle mode r side
  | .double => finishDouble mode r side

/-! ## Arithmetic -/

/-- The rounding error of the sum `s` of `a` and `b`, found by two subtractions and their errors. -/
def sumError (a b s : Datum) : Datum :=
  let f := Format.double
  let b' := f.sub s a
  f.add (f.sub a (f.sub s b')) (f.sub b b')

/-- The side on which an exact value lies whose rounding vanished: away from zero. -/
def vanishedSide (a b : Datum) : Side :=
  if a.isBelowZero != b.isBelowZero then .below else .above

/-- The nearest double to the result of an operator, and the side of it on which the exact result
lies. -/
def BinaryOp.evaluate (op : BinaryOp) (a b : Datum) : Datum × Side :=
  let f := Format.double
  match op with
  | add =>
    let r := f.add a b
    (r, .ofResidual (sumError a b r))
  | sub =>
    let r := f.sub a b
    (r, .ofResidual (sumError a (-b) r))
  | mul =>
    let r := f.mul a b
    let side := Side.ofResidual (f.fusedMulAdd a b (-r))
    if r.isZero && side == .exact && !a.isZero && !b.isZero then (r, vanishedSide a b)
    else (r, side)
  | div =>
    let r := f.div a b
    let remainder := Side.ofResidual (f.fusedMulAdd (-r) b a)
    let side := if b.isBelowZero then remainder.flip else remainder
    if r.isZero && side == .exact && !a.isZero then (r, vanishedSide a b)
    else (r, side)

/-- An exact zero sum: rounding down makes it negative when the terms have opposite signs. -/
def BinaryOp.zeroSum (op : BinaryOp) (mode : RoundingMode) (a b r : Datum) : Datum :=
  let bNegative := if op = sub then !b.isNegative else b.isNegative
  if mode = .downward ∧ a.isNegative ≠ bNegative then .finite true 0 Format.double.unit else r

/-- Adds, subtracts, multiplies or divides two operands. -/
def binary (p : Precision) (op : BinaryOp) (mode : RoundingMode) (a b : UInt64) : Outcome :=
  match op.kind (p.classify a) (p.classify b) with
  | .unimplemented => .unimplemented
  | .invalid => ⟨p.defaultNan, .invalid⟩
  | .divideByZero =>
    let negative := (p.datum a).isNegative != (p.datum b).isNegative
    ⟨p.pattern negative p.format.infinityMagnitude, .divideByZero⟩
  | .compute =>
    let x := p.datum a
    let y := p.datum b
    let (r, side) := op.evaluate x y
    if x.isInfinite || y.isInfinite then .exact (p.encode (p.format.convert r))
    else if r.isZero && side == .exact && (op == .add || op == .sub) then
      finish p mode (op.zeroSum mode x y r) side
    else finish p mode r side

/-- What an operand's class alone decides for the operations on one operand. -/
def screen? (p : Precision) (result : Precision) (bits : UInt64) : Option Outcome :=
  let c := p.classify bits
  if c.isRefused then some .unimplemented
  else if c = .quietNan then some ⟨result.defaultNan, .invalid⟩
  else none

/-- The square root. -/
def sqrt (p : Precision) (mode : RoundingMode) (bits : UInt64) : Outcome :=
  match screen? p p bits with
  | some o => o
  | none =>
    let c := p.classify bits
    if c.isZero || c == .posInfinity then .exact bits
    else
      let x := p.datum bits
      if x.isNegative then ⟨p.defaultNan, .invalid⟩
      else
        let r := Format.double.sqrt x
        finish p mode r (.ofResidual (Format.double.fusedMulAdd (-r) r x))

/-- The absolute value. -/
def abs (p : Precision) (bits : UInt64) : Outcome :=
  (screen? p p bits).getD (.exact (p.pattern false (p.operand bits % p.format.signBit)))

/-- The negation. -/
def neg (p : Precision) (bits : UInt64) : Outcome :=
  (screen? p p bits).getD
    (.exact (UInt64.ofNat (p.operand bits ^^^ p.format.signBit)))

/-! ## Conversions -/

/-- Converts a double to a single. -/
def narrow (mode : RoundingMode) (bits : UInt64) : Outcome :=
  match screen? .double .single bits with
  | some o => o
  | none =>
    let x := Precision.double.datum bits
    if x.isZero || x.isInfinite then .exact (Precision.single.encode (Format.single.convert x))
    else finishSingle mode x .exact

/-- Converts a single to a double, which is always exact. -/
def widen (bits : UInt64) : Outcome :=
  (screen? .single .double bits).getD
    (.exact (Precision.double.encode (Format.double.convert (Precision.single.datum bits))))

/-- The magnitude from which a long has no conversion, `2 ^ 55`. -/
def longLimit : Int := 0x80000000000000

/-- Converts an integer to floating point. -/
def fromInteger (source : IntegerFormat) (p : Precision) (mode : RoundingMode) (bits : UInt64) :
    Outcome :=
  match source with
  | .word =>
    let r := Format.double.nearest false (bits.toUInt32.toInt32.toInt : Rat)
    match p with
    | .double => .exact (Precision.double.encode r)
    | .single => finishSingle mode r .exact
  | .long =>
    let v := bits.toInt64.toInt
    if longLimit ≤ v ∨ v ≤ -longLimit then .unimplemented
    else
      let r := Format.double.nearest false (v : Rat)
      finish p mode r (.ofOrdering (compare v (r.toRat?.getD 0).floor))

/-- The doubles that a conversion can give: all words, and the longs below `2 ^ 53` in magnitude. -/
def IntegerFormat.holds (target : IntegerFormat) (v : Datum) : Bool :=
  match target with
  | word =>
    let least : Datum := .finite true 1 31
    (least.less v || least.same v) && v.less (-least)
  | long =>
    let limit : Datum := .finite false 1 53
    (-limit).less v && v.less limit

/-- The pattern of an integer. -/
def IntegerFormat.encode (target : IntegerFormat) (v : Int) : UInt64 :=
  match target with
  | word => (UInt32.ofInt v).toUInt64
  | long => UInt64.ofInt v

/-- Converts floating point to an integer. -/
def toInteger (p : Precision) (target : IntegerFormat) (mode : RoundingMode) (bits : UInt64) :
    Outcome :=
  let c := p.classify bits
  if c.isNan || c.isInfinite || c == .denormal then .unimplemented
  else
    let x := p.datum bits
    let v := mode.toIntegral x
    if target.holds v then
      ⟨target.encode (v.toRat?.getD 0).floor, if v.same x then ∅ else .inexact⟩
    else .unimplemented

/-! ## Comparison -/

/-- Evaluates a condition: bit 0 asks for unordered, bit 1 for equal, bit 2 for less, and bit 3 makes
any NaN invalid. A signalling NaN always is. -/
def compareOperands (p : Precision) (condition : BitVec 4) (a b : UInt64) : Bool × ExceptionSet :=
  let ca := p.classify a
  let cb := p.classify b
  if ca.isNan || cb.isNan then
    let signals := condition.getLsbD 3 || ca == .signalingNan || cb == .signalingNan
    (condition.getLsbD 0, if signals then .invalid else ∅)
  else
    let x := p.datum a
    let y := p.datum b
    ((condition.getLsbD 2 && x.less y) || (condition.getLsbD 1 && x.same y), ∅)

end Vr4300.FloatingPoint
