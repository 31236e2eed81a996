/-!
# Hexadecimal text

Addresses and bit patterns are written in lowercase hexadecimal, after `0x`, either without leading
zeros or padded to a fixed number of digits.
-/

namespace Vr4300.Text

/-- The lowercase hexadecimal digits of `n`, without leading zeros. -/
def hexDigits (n : Nat) : List Char :=
  Nat.toDigits 16 n

/-- Hexadecimal text with as many digits as the number needs. -/
def hex (n : Nat) : String :=
  String.ofList ('0' :: 'x' :: hexDigits n)

/-- Hexadecimal text with at least `width` digits. -/
def paddedHex (width n : Nat) : String :=
  let digits := hexDigits n
  String.ofList ('0' :: 'x' :: (List.replicate (width - digits.length) '0' ++ digits))

end Vr4300.Text
