import Vr4300.Word

/-!
# Instruction encoding

The fields of a 32-bit instruction word, and the targets of jumps and branches. Every field is total:
any word has an opcode, register fields and immediates. A target is computed from the address of the
branch itself and allows for the delay slot after it.
-/

namespace Vr4300.Encoding

/-- The five-bit field that starts at bit `low`. -/
def registerField (low w : UInt32) : Reg :=
  Fin.ofNat 32 (w >>> low).toNat

/-- The primary opcode, bits 31 to 26. -/
def opcode (w : UInt32) : UInt32 := w >>> 26

/-- The first source register, bits 25 to 21; it also selects among coprocessor operations. -/
def rs (w : UInt32) : Reg := registerField 21 w

/-- The second source or target register, bits 20 to 16. -/
def rt (w : UInt32) : Reg := registerField 16 w

/-- The destination register, bits 15 to 11. -/
def rd (w : UInt32) : Reg := registerField 11 w

/-- The shift amount, bits 10 to 6, as a register-sized field. -/
def sa (w : UInt32) : Reg := registerField 6 w

/-- The function field, bits 5 to 0. -/
def funct (w : UInt32) : UInt32 := w &&& 0x3F

/-- The 16-bit immediate, zero-extended. -/
def immediate (w : UInt32) : UInt64 := w.toUInt16.toUInt64

/-- The 16-bit immediate, sign-extended. -/
def signedImmediate (w : UInt32) : UInt64 := w.toUInt16.toInt16.toInt64.toUInt64

/-- The 26-bit jump field. -/
def target (w : UInt32) : UInt32 := w &&& 0x03FFFFFF

/-- The distance in bytes of a branch from its delay slot. -/
def branchOffset (w : UInt32) : UInt64 := signedImmediate w <<< 2

/-- The distance in bytes of a jump from the base of its 256 MiB region. -/
def regionOffset (w : UInt32) : UInt64 := (target w).toUInt64 <<< 2

end Vr4300.Encoding

namespace Vr4300

/-- The target of a branch at `pc` whose offset is counted from its delay slot. -/
def branchTarget (pc offset : UInt64) : UInt64 :=
  pc + 4 + offset

/-- The target of a jump at `pc`: the offset within the 256 MiB region of its delay slot. -/
def jumpTarget (pc offset : UInt64) : UInt64 :=
  ((pc + 4) &&& ~~~0x0FFFFFFF) ||| offset

end Vr4300
