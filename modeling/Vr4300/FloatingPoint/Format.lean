/-!
# Binary interchange formats

A format is given by its significand and exponent widths. A bit pattern of the format is a `Nat`: the
sign above a *magnitude* whose order is the order of the absolute values it stands for, so the next
larger value has the next magnitude and the pattern of infinity follows that of the largest number.

## Contents

* `Format`, `Format.single`, `Format.double`, and the magnitudes that matter in them.
* `Datum`: what a pattern stands for. `Format.decode` and `Format.encode` convert.
* `Datum.toRat?`: the exact value of a finite datum.
-/

namespace Vr4300.FloatingPoint

/-- A binary floating-point format. -/
structure Format where
  /-- The number of significand bits, the leading one included. -/
  precision : Nat
  /-- The width of the exponent field. -/
  exponentBits : Nat
deriving DecidableEq, Repr, Inhabited

namespace Format

/-- The 32-bit format. -/
def single : Format := ⟨24, 8⟩

/-- The 64-bit format. -/
def double : Format := ⟨53, 11⟩

/-- The number of stored significand bits. -/
def fractionBits (f : Format) : Nat := f.precision - 1

/-- The exponent of the least positive value, `2 ^ f.unit`, of which all finite values are
multiples. -/
def unit (f : Format) : Int := 3 - (Nat.pow 2 (f.exponentBits - 1) : Nat) - f.precision

/-- The pattern of the sign alone. -/
def signBit (f : Format) : Nat := Nat.pow 2 (f.fractionBits + f.exponentBits)

/-- The magnitude of infinity. -/
def infinityMagnitude (f : Format) : Nat := (Nat.pow 2 f.exponentBits - 1) <<< f.fractionBits

/-- The magnitude of the largest finite value. -/
def maxFiniteMagnitude (f : Format) : Nat := f.infinityMagnitude - 1

/-- The magnitude of the least normal value. -/
def minNormalMagnitude (f : Format) : Nat := Nat.pow 2 f.fractionBits

/-- The pattern with the given sign and magnitude. -/
def pattern (f : Format) (negative : Bool) (magnitude : Nat) : Nat :=
  if negative then magnitude + f.signBit else magnitude

end Format

/-- What a bit pattern stands for. A finite datum is `±significand * 2 ^ exponent`. -/
inductive Datum where
  /-- Not a number. -/
  | nan
  /-- A signed infinity. -/
  | infinity (negative : Bool)
  /-- A number; zero has a sign too. -/
  | finite (negative : Bool) (significand : Nat) (exponent : Int)
deriving DecidableEq, Repr, Inhabited

namespace Format

/-- The datum with the given sign and magnitude. -/
def ofMagnitude (f : Format) (negative : Bool) (magnitude : Nat) : Datum :=
  let field := magnitude >>> f.fractionBits
  let fraction := magnitude % Nat.pow 2 f.fractionBits
  if magnitude = f.infinityMagnitude then .infinity negative
  else if f.infinityMagnitude < magnitude then .nan
  else if field = 0 then .finite negative fraction f.unit
  else .finite negative (fraction + Nat.pow 2 f.fractionBits) (f.unit + (field - 1 : Nat))

/-- What a pattern stands for. -/
def decode (f : Format) (bits : Nat) : Datum :=
  f.ofMagnitude (f.signBit ≤ bits % (2 * f.signBit)) (bits % f.signBit)

/-- The magnitude of a datum whose significand has the format's width, or whose exponent is the
least. -/
def magnitude (f : Format) : Datum → Nat
  | .nan => f.infinityMagnitude + Nat.pow 2 (f.fractionBits - 1)
  | .infinity _ => f.infinityMagnitude
  | .finite _ significand exponent =>
    ((exponent - f.unit).toNat <<< f.fractionBits) + significand

end Format

namespace Datum

/-- The datum carries a minus sign. -/
def isNegative : Datum → Bool
  | nan => false
  | infinity negative => negative
  | finite negative _ _ => negative

/-- The datum is a zero of either sign. -/
def isZero : Datum → Bool
  | finite _ significand _ => significand == 0
  | _ => false

/-- The datum is an infinity. -/
def isInfinite : Datum → Bool
  | infinity _ => true
  | _ => false

/-- The value of `significand * 2 ^ exponent`. -/
def scaled (significand : Int) (exponent : Int) : Rat :=
  if 0 ≤ exponent then ((significand * (Nat.pow 2 exponent.toNat : Nat) : Int) : Rat)
  else mkRat significand (Nat.pow 2 (-exponent).toNat)

/-- The exact value of a number; `none` for infinities and NaN. -/
def toRat? : Datum → Option Rat
  | finite negative significand exponent =>
    some (scaled (if negative then -(significand : Int) else significand) exponent)
  | _ => none

/-- The datum with its sign changed. -/
def neg : Datum → Datum
  | nan => nan
  | infinity negative => infinity (!negative)
  | finite negative significand exponent => finite (!negative) significand exponent

instance : Neg Datum where
  neg := neg

/-- The datum with a plus sign. -/
def abs : Datum → Datum
  | nan => nan
  | infinity _ => infinity false
  | finite _ significand exponent => finite false significand exponent

/-- The order of two data; `none` if one is NaN. Zeros of both signs are equal. -/
def compare? : Datum → Datum → Option Ordering
  | nan, _ | _, nan => none
  | infinity a, infinity b => some (compare b.toNat a.toNat)
  | infinity a, finite .. => some (if a then .lt else .gt)
  | finite .., infinity b => some (if b then .gt else .lt)
  | finite sa ma ea, finite sb mb eb =>
    let x := scaled (if sa then -(ma : Int) else ma) ea
    let y := scaled (if sb then -(mb : Int) else mb) eb
    some (if x < y then .lt else if x = y then .eq else .gt)

/-- Strict order; false where a NaN is involved. -/
def less (a b : Datum) : Bool := compare? a b == some .lt

/-- Equality of values; false where a NaN is involved. -/
def same (a b : Datum) : Bool := compare? a b == some .eq

/-- The datum is greater than zero. -/
def isPositive (d : Datum) : Bool := less (finite false 0 0) d

/-- The datum is less than zero. -/
def isBelowZero (d : Datum) : Bool := less d (finite false 0 0)

end Datum

namespace Format

/-- The pattern of a datum of the format. -/
def encode (f : Format) (d : Datum) : Nat :=
  f.pattern d.isNegative (f.magnitude d)

end Format

end Vr4300.FloatingPoint
