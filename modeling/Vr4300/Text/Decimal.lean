import Vr4300.FloatingPoint.Rounding

/-!
# Decimal text

Numbers with a fixed number of decimal places. The last place is rounded half to even, from the exact
value.
-/

namespace Vr4300.Text

/-- The decimal digits of `n`, with zeros in front up to `width` digits. -/
def paddedDecimal (width n : Nat) : String :=
  let digits := Nat.toDigits 10 n
  String.ofList (List.replicate (width - digits.length) '0' ++ digits)

/-- A number that is not negative, with `places` decimal places. -/
def fixedPoint (places : Nat) (x : Rat) : String :=
  let unit := Nat.pow 10 places
  let scaled := (FloatingPoint.RoundingMode.nearestInt (x * unit)).toNat
  let whole := toString (scaled / unit)
  if places = 0 then whole else whole ++ "." ++ paddedDecimal places (scaled % unit)

/-- The text with blanks behind it up to `width` characters. -/
def leftAligned (width : Nat) (s : String) : String :=
  s ++ String.ofList (List.replicate (width - s.length) ' ')

end Vr4300.Text
