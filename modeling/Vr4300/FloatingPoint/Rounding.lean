import Vr4300.FloatingPoint.Nearest

/-!
# Rounding modes

Results are first rounded to nearest. What is left over is only known by its sign, the `Side` on which
the exact value lies; that sign is enough to find the result in a directed mode, and to narrow a double
to a single without rounding twice.

## Contents

* `RoundingMode`, `Side`.
* `Datum.floor`, `Datum.ceil`, `Datum.truncate`, `Datum.roundHalfEven`: integral doubles.
* `RoundingMode.toIntegral`: rounding to an integral value.
* `RoundingMode.adjust`: from the nearest double to the rounding of the exact value.
* `RoundingMode.narrow`: from the nearest double to a single.
-/

namespace Vr4300.FloatingPoint

/-- The four rounding modes. -/
inductive RoundingMode where
  /-- To nearest, ties to even. -/
  | nearest
  /-- Toward zero. -/
  | towardZero
  /-- Toward positive infinity. -/
  | upward
  /-- Toward negative infinity. -/
  | downward
deriving DecidableEq, Repr, Inhabited

/-- The mode of a two-bit field. -/
def RoundingMode.ofBits (bits : Nat) : RoundingMode :=
  match bits % 4 with
  | 0 => .nearest
  | 1 => .towardZero
  | 2 => .upward
  | _ => .downward

/-! ## Integral doubles -/

namespace Datum

/-- A number rounded to an integer, as a double; a zero keeps the sign. -/
def integral (d : Datum) (round : Rat → Int) : Datum :=
  match d.toRat? with
  | some x => Format.double.nearest d.isNegative (round x : Rat)
  | none => d

/-- The greatest integral double that does not exceed `d`. -/
def floor (d : Datum) : Datum := d.integral Rat.floor

/-- The least integral double that `d` does not exceed. -/
def ceil (d : Datum) : Datum := d.integral Rat.ceil

/-- The integral part of `d`. -/
def truncate (d : Datum) : Datum := if d.isNegative then d.ceil else d.floor

/-- What `d` has beside its integral part. -/
def fraction (d : Datum) : Datum := Format.double.sub d d.truncate

/-- Zero. -/
def zero : Datum := .finite false 0 0

/-- One half. -/
def half : Datum := .finite false 1 (-1)

/-- One. -/
def one : Datum := .finite false 1 0

/-- Two. -/
def two : Datum := .finite false 1 1

/-- The nearest integral double, ties to even. The distance from the floor is itself a rounded double. -/
def roundHalfEven (d : Datum) : Datum :=
  match (Format.double.sub d d.floor).compare? half with
  | some .lt => d.floor
  | some .gt => Format.double.add d.floor one
  | _ =>
    if (Format.double.div d.floor two).fraction.same zero then d.floor
    else Format.double.add d.floor one

end Datum

/-! ## Results -/

/-- Where an exact value lies relative to its rounding. -/
inductive Side where
  /-- Below the rounded value. -/
  | below
  /-- At the rounded value. -/
  | exact
  /-- Above the rounded value. -/
  | above
deriving DecidableEq, Repr, Inhabited

namespace Side

/-- The side that the sign of a residual points to; a NaN points nowhere. -/
def ofResidual (residual : Datum) : Side :=
  if residual.isPositive then above else if residual.isBelowZero then below else exact

/-- The opposite side. -/
def flip : Side → Side
  | below => above
  | exact => exact
  | above => below

/-- The side of an exact value relative to a rounded one, from their comparison. -/
def ofOrdering : Ordering → Side
  | .lt => below
  | .eq => exact
  | .gt => above

end Side

namespace RoundingMode

/-- The integer nearest to `x`, ties to even. -/
def nearestInt (x : Rat) : Int :=
  let whole := x.floor
  match compare (2 * (x.num - whole * x.den)) (x.den : Int) with
  | .lt => whole
  | .eq => if whole % 2 = 0 then whole else whole + 1
  | .gt => whole + 1

/-- The integral double that `d` rounds to. A zero keeps the sign of `d`, except that rounding a
nonzero number to nearest gives positive zero. -/
def toIntegral (mode : RoundingMode) (d : Datum) : Datum :=
  match mode with
  | nearest => d.roundHalfEven
  | towardZero => d.truncate
  | upward => d.ceil
  | downward => d.floor

/-- The rounding of an exact value in a mode, from the nearest double `r` and the side of `r` on which
the exact value lies. -/
def adjust (mode : RoundingMode) (side : Side) (r : Datum) : Datum :=
  match mode, side with
  | _, .exact | nearest, _ => r
  | upward, .above => Format.double.next r
  | downward, .below => Format.double.previous r
  | towardZero, side => stepTowardZero .double side r
  | _, _ => r
where
  /-- One step toward zero if the exact value lies between zero and a nonzero `r`. -/
  stepTowardZero (f : Format) (side : Side) (r : Datum) : Datum :=
    if r.isPositive then if side = .below then f.previous r else r
    else if r.isBelowZero then if side = .above then f.next r else r
    else r

/-- A double rounded to a single in a mode. `side` says where the exact value lies relative to the
double, which itself is the nearest one to it; the answer is the single and whether it differs from
the exact value. -/
def narrow (mode : RoundingMode) (side : Side) (r : Datum) : Datum × Bool :=
  let single := Format.single
  let closest := single.convert r
  if closest.same r then
    if side = .exact then (closest, false)
    else (representable closest, true)
  else
    let (low, high) :=
      if closest.less r then (closest, single.next closest)
      else (single.previous closest, closest)
    match mode with
    | nearest => (if isMiddle low high then tied closest low high else closest, true)
    | towardZero => (if r.isPositive then low else high, true)
    | upward => (high, true)
    | downward => (low, true)
where
  /-- The result when the double is a single itself but the exact value lies beside it. -/
  representable (closest : Datum) : Datum :=
    match mode, side with
    | upward, .above => Format.single.next closest
    | downward, .below => Format.single.previous closest
    | towardZero, side => adjust.stepTowardZero .single side closest
    | _, _ => closest
  /-- The double lies in the middle between two finite singles. -/
  isMiddle (low high : Datum) : Bool :=
    match low.toRat?, high.toRat?, r.toRat? with
    | some l, some h, some x => l + h == 2 * x
    | _, _, _ => false
  /-- The nearest single when the double lies in the middle: the exact value breaks the tie. -/
  tied (closest low high : Datum) : Datum :=
    match side with
    | .above => high
    | .below => low
    | .exact => closest

end RoundingMode

end Vr4300.FloatingPoint
