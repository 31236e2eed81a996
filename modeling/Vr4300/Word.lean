/-!
# Machine words

Registers hold 64 bits. Word results are 32 bits wide and are kept sign-extended from bit 31.

## Contents

* `Reg`: a register number.
* `signExtendWord`, `ofWord`: the value a 64-bit register holds for a 32-bit result.
* `ofCondition`: the value that stands for a truth value.
* `blend`: bits of two values chosen by a mask.
-/

namespace Vr4300

/-- The number of a register in a file of 32. -/
abbrev Reg := Fin 32

/-- A file of registers is not empty, so register numbers may be written as numerals. -/
instance neZero_registers : @NeZero Nat Zero.ofOfNat0 32 := ⟨by decide⟩

/-- The low 32 bits of `v`, sign-extended to 64 bits. -/
def signExtendWord (v : UInt64) : UInt64 :=
  v.toUInt32.toInt32.toInt64.toUInt64

/-- The register value of a 32-bit result: `w` sign-extended to 64 bits. -/
def ofWord (w : UInt32) : UInt64 :=
  w.toInt32.toInt64.toUInt64

/-- One where the condition holds, zero elsewhere. -/
def ofCondition (b : Bool) : UInt64 :=
  if b then 1 else 0

/-- The value with the bits of `mask` taken from `new` and all other bits from `old`. -/
def blend (old new mask : UInt64) : UInt64 :=
  (old &&& ~~~mask) ||| (new &&& mask)

end Vr4300
