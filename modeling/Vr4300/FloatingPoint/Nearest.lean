import Vr4300.FloatingPoint.Format

/-!
# Arithmetic rounded to nearest

Sums, products, quotients and square roots are computed exactly and rounded once, to the nearest value
of the format, a tie going to the even significand. Infinities, NaNs and the signs of zeros follow the
usual rules for binary arithmetic.

## Contents

* `halfEven`: the integer rule behind every rounding.
* `Format.nearest`: an exact number rounded to a format. `Format.nearestSqrt`: its square root.
* `add`, `sub`, `mul`, `div`, `fusedMulAdd`, `sqrt` on data of a format.
-/

namespace Vr4300.FloatingPoint

/-- A floor `q` rounded to the nearest integer, given how the part that was cut off compares with
one half. A tie goes to the even neighbour. -/
def halfEven (q : Nat) (rest : Ordering) : Nat :=
  match rest with
  | .lt => q
  | .eq => q + q % 2
  | .gt => q + 1

/-- The quotient of two naturals, rounded to the nearest natural, ties to even. -/
def divideHalfEven (num den : Nat) : Nat :=
  halfEven (num / den) (compare (2 * (num % den)) den)

/-- The exponent of the greatest power of two that does not exceed `num / den`. -/
def floorLog2 (num den : Nat) : Int :=
  let guess : Int := (num.log2 : Int) - den.log2
  let fits : Bool := if 0 ≤ guess then den <<< guess.toNat ≤ num else den ≤ num <<< (-guess).toNat
  if fits then guess else guess - 1

/-- The natural square root, rounded down. -/
def floorSqrt (n : Nat) : Nat :=
  if n = 0 then 0
  else
    let r := 2 * floorSqrt (n / 4)
    if (r + 1) * (r + 1) ≤ n then r + 1 else r
termination_by n

namespace Format

/-- The datum `±significand * 2 ^ exponent`, where the significand may have reached the next power of
two; beyond the largest finite value it is infinity. -/
def pack (f : Format) (negative : Bool) (significand : Nat) (exponent : Int) : Datum :=
  f.ofMagnitude negative
    (min f.infinityMagnitude (((exponent - f.unit).toNat <<< f.fractionBits) + significand))

/-- The exponent at which a positive number with leading bit `2 ^ log` is rounded. -/
def quantum (f : Format) (log : Int) : Int :=
  max f.unit (log - f.fractionBits)

/-- The value of the format nearest to `x`, ties to even; a zero takes the given sign. -/
def nearest (f : Format) (zeroNegative : Bool) (x : Rat) : Datum :=
  if x = 0 then .finite zeroNegative 0 f.unit
  else
    let num := x.num.natAbs
    let exponent := f.quantum (floorLog2 num x.den)
    let significand :=
      if 0 ≤ exponent then divideHalfEven num (x.den <<< exponent.toNat)
      else divideHalfEven (num <<< (-exponent).toNat) x.den
    f.pack (x < 0) significand exponent

/-- The value of the format nearest to the square root of a positive number. -/
def nearestSqrt (f : Format) (x : Rat) : Datum :=
  let num := x.num.natAbs
  let exponent := f.quantum (floorLog2 num x.den / 2)
  -- `x` in units of the square of the quantum, as a fraction
  let (n, d) :=
    if 0 ≤ exponent then (num, x.den <<< (2 * exponent).toNat)
    else (num <<< (-2 * exponent).toNat, x.den)
  let root := floorSqrt (n / d)
  let middle := (2 * root + 1) * (2 * root + 1)
  f.pack false (halfEven root (compare (4 * n) (middle * d))) exponent

/-- The value of the format nearest to a datum. Signs and infinities are kept. -/
def convert (f : Format) (d : Datum) : Datum :=
  match d.toRat? with
  | some x => f.nearest d.isNegative x
  | none => d

/-! ## Operations -/

/-- The sum of two data. A zero sum is negative only if both terms are. -/
def add (f : Format) (a b : Datum) : Datum :=
  match a, b with
  | .nan, _ | _, .nan => .nan
  | .infinity s, .infinity t => if s = t then .infinity s else .nan
  | .infinity s, _ | _, .infinity s => .infinity s
  | .finite s .., .finite t .. =>
    f.nearest (s && t) (a.toRat?.getD 0 + b.toRat?.getD 0)

/-- The difference of two data. -/
def sub (f : Format) (a b : Datum) : Datum :=
  f.add a (-b)

/-- The product of two data. -/
def mul (f : Format) (a b : Datum) : Datum :=
  let negative := a.isNegative != b.isNegative
  match a, b with
  | .nan, _ | _, .nan => .nan
  | .infinity _, .infinity _ => .infinity negative
  | .infinity _, .finite _ m _ | .finite _ m _, .infinity _ =>
    if m = 0 then .nan else .infinity negative
  | .finite .., .finite .. => f.nearest negative (a.toRat?.getD 0 * b.toRat?.getD 0)

/-- The quotient of two data. -/
def div (f : Format) (a b : Datum) : Datum :=
  let negative := a.isNegative != b.isNegative
  match a, b with
  | .nan, _ | _, .nan => .nan
  | .infinity _, .infinity _ => .nan
  | .infinity _, .finite .. => .infinity negative
  | .finite .., .infinity _ => .finite negative 0 f.unit
  | .finite _ m _, .finite _ n _ =>
    if n = 0 then if m = 0 then .nan else .infinity negative
    else f.nearest negative (a.toRat?.getD 0 / b.toRat?.getD 0)

/-- The product of two data plus a third, rounded once. -/
def fusedMulAdd (f : Format) (a b c : Datum) : Datum :=
  let negative := a.isNegative != b.isNegative
  match a, b, c with
  | .finite .., .finite .., .finite t .. =>
    f.nearest (negative && t) (a.toRat?.getD 0 * b.toRat?.getD 0 + c.toRat?.getD 0)
  | .finite .., .finite .., _ => c
  | _, _, _ => f.add (f.mul a b) c

/-- The square root of a datum. -/
def sqrt (f : Format) (a : Datum) : Datum :=
  match a with
  | .finite negative m _ =>
    if m = 0 then a else if negative then .nan else f.nearestSqrt (a.toRat?.getD 0)
  | .infinity negative => if negative then .nan else a
  | .nan => .nan

/-! ## Neighbours -/

/-- The next datum of the format toward positive infinity. -/
def next (f : Format) (d : Datum) : Datum :=
  match d with
  | .nan | .infinity false => d
  | _ =>
    if d.isZero then .finite false 1 f.unit
    else if d.isNegative then f.ofMagnitude true (f.magnitude d - 1)
    else f.ofMagnitude false (f.magnitude d + 1)

/-- The next datum of the format toward negative infinity. -/
def previous (f : Format) (d : Datum) : Datum :=
  -(f.next (-d))

end Format

end Vr4300.FloatingPoint
