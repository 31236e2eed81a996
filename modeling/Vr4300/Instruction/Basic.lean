import Vr4300.FloatingPoint.Operation
import Vr4300.Instruction.Encoding
import Vr4300.Integer.MultiplyDivide

/-!
# Instructions

The instruction set as data. `Instruction.decode` is total: encodings without a meaning become
`reserved`, `unimplemented` or `unknownFloat`, which the machine treats differently.

## Contents

* The operations of each group: immediate, register and shift operations, branches, loads, stores and
  the coprocessors.
* `Instruction` and `Instruction.decode`.
-/

namespace Vr4300

open FloatingPoint Integer

/-- Operations between a register and an immediate. -/
inductive ImmediateOp where
  | addi | addiu | slti | sltiu | andi | ori | xori | lui | daddi | daddiu
deriving DecidableEq, Repr, Inhabited

/-- Operations between two registers. -/
inductive RegisterOp where
  | add | addu | sub | subu | and | or | xor | nor | slt | sltu | dadd | daddu | dsub | dsubu
deriving DecidableEq, Repr, Inhabited

/-- Shifts. -/
inductive ShiftOp where
  | sll | srl | sra | dsll | dsrl | dsra
deriving DecidableEq, Repr, Inhabited

/-- Where a shift takes its amount from. -/
inductive ShiftAmount where
  /-- The instruction word. -/
  | constant (n : UInt32)
  /-- The low bits of a register. -/
  | register (rs : Reg)
deriving DecidableEq, Repr, Inhabited

/-- One half of the multiply/divide result. -/
inductive HiLoHalf where
  | hi | lo
deriving DecidableEq, Repr, Inhabited

/-- The second operand of a conditional trap. -/
inductive TrapOperand where
  | register (rt : Reg)
  | constant (value : UInt64)
deriving DecidableEq, Repr, Inhabited

/-- The condition of a branch. -/
inductive BranchTest where
  | equal (rs rt : Reg)
  | notEqual (rs rt : Reg)
  | notPositive (rs : Reg)
  | positive (rs : Reg)
  | negative (rs : Reg)
  | notNegative (rs : Reg)
  /-- The floating-point condition has the given value. -/
  | floatCondition (value : Bool)
deriving DecidableEq, Repr, Inhabited

/-- Loads. -/
inductive LoadOp where
  | lb | lbu | lh | lhu | lw | lwu | ld
  | lwl | lwr | ldl | ldr
  | ll | lld
  | lwc1 | ldc1
deriving DecidableEq, Repr, Inhabited

/-- Stores. -/
inductive StoreOp where
  | sb | sh | sw | sd
  | swl | swr | sdl | sdr
  | sc | scd
  | swc1 | sdc1
deriving DecidableEq, Repr, Inhabited

/-- Operations of the system control coprocessor. -/
inductive SystemOp where
  | mfc0 (rt rd : Reg)
  | dmfc0 (rt rd : Reg)
  | mtc0 (rt rd : Reg)
  | dmtc0 (rt rd : Reg)
  | tlbr | tlbwi | tlbwr | tlbp
  | eret
deriving DecidableEq, Repr, Inhabited

/-- Operations of the floating-point unit, apart from its branches, loads and stores. -/
inductive FloatOp where
  | mfc1 (rt fs : Reg)
  | dmfc1 (rt fs : Reg)
  | cfc1 (rt fs : Reg)
  | mtc1 (rt fs : Reg)
  | dmtc1 (rt fs : Reg)
  | ctc1 (rt fs : Reg)
  | binary (op : BinaryOp) (p : Precision) (fd fs ft : Reg)
  | sqrt (p : Precision) (fd fs : Reg)
  | abs (p : Precision) (fd fs : Reg)
  | neg (p : Precision) (fd fs : Reg)
  | mov (p : Precision) (fd fs : Reg)
  /-- Conversion to an integer, in a mode of its own or in the current one. -/
  | toInteger (p : Precision) (target : IntegerFormat) (mode : Option RoundingMode) (fd fs : Reg)
  | narrow (fd fs : Reg)
  | widen (fd fs : Reg)
  | fromInteger (source : IntegerFormat) (p : Precision) (fd fs : Reg)
  | compare (p : Precision) (condition : BitVec 4) (fs ft : Reg)
  /-- A format or function that the unit does not know. -/
  | unknown
deriving DecidableEq, Repr, Inhabited

/-- Moves between a register and the latch of the absent third coprocessor. -/
inductive LatchOp where
  /-- Reads the low word. -/
  | readWord (rt : Reg)
  | readDouble (rt : Reg)
  | write (rt : Reg)
deriving DecidableEq, Repr, Inhabited

/-- A decoded instruction. Immediates and offsets are extended to 64 bits. -/
inductive Instruction where
  | immediate (op : ImmediateOp) (rt rs : Reg) (value : UInt64)
  | register (op : RegisterOp) (rd rs rt : Reg)
  | shift (op : ShiftOp) (rd rt : Reg) (amount : ShiftAmount)
  | multiply (op : MultiplyOp) (rs rt : Reg)
  | readHiLo (half : HiLoHalf) (rd : Reg)
  | writeHiLo (half : HiLoHalf) (rs : Reg)
  | sync
  | trapIf (test : Comparison) (rs : Reg) (operand : TrapOperand)
  | syscall
  | breakpoint
  | jump (link : Bool) (offset : UInt64)
  | jumpRegister (rs : Reg) (link : Option Reg)
  | branch (test : BranchTest) (likely link : Bool) (offset : UInt64)
  | load (op : LoadOp) (rt base : Reg) (offset : UInt64)
  | store (op : StoreOp) (rt base : Reg) (offset : UInt64)
  /-- A cache operation; the low two bits of its selector name the cache. -/
  | cache (selector : Reg) (base : Reg) (offset : UInt64)
  | system (op : SystemOp)
  | float (op : FloatOp)
  | latch (op : LatchOp)
  /-- An encoding that raises the reserved-instruction exception. -/
  | reserved (word : UInt32)
  /-- An encoding that this core does not implement. -/
  | unimplemented (word : UInt32)
deriving DecidableEq, Repr, Inhabited

namespace Instruction

open Encoding

/-- The register that holds return addresses. -/
def linkRegister : Reg := 31

/-- Decodes the group that is selected by the function field. -/
def decodeSpecial (w : UInt32) : Instruction :=
  let byConstant (op : ShiftOp) (extra : UInt32) : Instruction :=
    .shift op (rd w) (rt w) (.constant (UInt32.ofNat (sa w).val + extra))
  let byRegister (op : ShiftOp) : Instruction := .shift op (rd w) (rt w) (.register (rs w))
  let three (op : RegisterOp) : Instruction := .register op (rd w) (rs w) (rt w)
  let product (op : MultiplyOp) : Instruction := .multiply op (rs w) (rt w)
  let trap (test : Comparison) : Instruction := .trapIf test (rs w) (.register (rt w))
  match (funct w).toNat with
  | 0x00 => byConstant .sll 0
  | 0x02 => byConstant .srl 0
  | 0x03 => byConstant .sra 0
  | 0x04 => byRegister .sll
  | 0x06 => byRegister .srl
  | 0x07 => byRegister .sra
  | 0x08 => .jumpRegister (rs w) none
  | 0x09 => .jumpRegister (rs w) (some (rd w))
  | 0x0C => .syscall
  | 0x0D => .breakpoint
  | 0x0F => .sync
  | 0x10 => .readHiLo .hi (rd w)
  | 0x11 => .writeHiLo .hi (rs w)
  | 0x12 => .readHiLo .lo (rd w)
  | 0x13 => .writeHiLo .lo (rs w)
  | 0x14 => byRegister .dsll
  | 0x16 => byRegister .dsrl
  | 0x17 => byRegister .dsra
  | 0x18 => product .mult
  | 0x19 => product .multu
  | 0x1A => product .div
  | 0x1B => product .divu
  | 0x1C => product .dmult
  | 0x1D => product .dmultu
  | 0x1E => product .ddiv
  | 0x1F => product .ddivu
  | 0x20 => three .add
  | 0x21 => three .addu
  | 0x22 => three .sub
  | 0x23 => three .subu
  | 0x24 => three .and
  | 0x25 => three .or
  | 0x26 => three .xor
  | 0x27 => three .nor
  | 0x2A => three .slt
  | 0x2B => three .sltu
  | 0x2C => three .dadd
  | 0x2D => three .daddu
  | 0x2E => three .dsub
  | 0x2F => three .dsubu
  | 0x30 => trap .atLeast
  | 0x31 => trap .atLeastUnsigned
  | 0x32 => trap .less
  | 0x33 => trap .lessUnsigned
  | 0x34 => trap .equal
  | 0x36 => trap .notEqual
  | 0x38 => byConstant .dsll 0
  | 0x3A => byConstant .dsrl 0
  | 0x3B => byConstant .dsra 0
  | 0x3C => byConstant .dsll 32
  | 0x3E => byConstant .dsrl 32
  | 0x3F => byConstant .dsra 32
  | _ => .reserved w

/-- Decodes the branches and traps that compare a register with zero or an immediate. -/
def decodeRegisterImmediate (w : UInt32) : Instruction :=
  let branch (test : Reg → BranchTest) (likely link : Bool) : Instruction :=
    .branch (test (rs w)) likely link (branchOffset w)
  let trap (test : Comparison) : Instruction :=
    .trapIf test (rs w) (.constant (signedImmediate w))
  match (rt w).val with
  | 0x00 => branch .negative false false
  | 0x01 => branch .notNegative false false
  | 0x02 => branch .negative true false
  | 0x03 => branch .notNegative true false
  | 0x08 => trap .atLeast
  | 0x09 => trap .atLeastUnsigned
  | 0x0A => trap .less
  | 0x0B => trap .lessUnsigned
  | 0x0C => trap .equal
  | 0x0E => trap .notEqual
  | 0x10 => branch .negative false true
  | 0x11 => branch .notNegative false true
  | 0x12 => branch .negative true true
  | 0x13 => branch .notNegative true true
  | _ => .reserved w

/-- Decodes the system control coprocessor. The upper half of the selector range is decoded by the
function field. -/
def decodeSystem (w : UInt32) : Instruction :=
  match (rs w).val with
  | 0x00 => .system (.mfc0 (rt w) (rd w))
  | 0x01 => .system (.dmfc0 (rt w) (rd w))
  | 0x04 => .system (.mtc0 (rt w) (rd w))
  | 0x05 => .system (.dmtc0 (rt w) (rd w))
  | selector =>
    if selector < 0x10 then .reserved w
    else
      match (funct w).toNat with
      | 0x01 => .system .tlbr
      | 0x02 => .system .tlbwi
      | 0x06 => .system .tlbwr
      | 0x08 => .system .tlbp
      | 0x18 => .system .eret
      | _ => .reserved w

/-- Decodes the operations on a floating-point format. The registers `fs`, `ft` and `fd` share the
fields of `rd`, `rt` and the shift amount. -/
def decodeFloatFormat (p : Precision) (w : UInt32) : FloatOp :=
  let fs := rd w
  let ft := rt w
  let fd := sa w
  let function := (funct w).toNat
  match function with
  | 0x00 => .binary .add p fd fs ft
  | 0x01 => .binary .sub p fd fs ft
  | 0x02 => .binary .mul p fd fs ft
  | 0x03 => .binary .div p fd fs ft
  | 0x04 => .sqrt p fd fs
  | 0x05 => .abs p fd fs
  | 0x06 => .mov p fd fs
  | 0x07 => .neg p fd fs
  | 0x08 | 0x09 | 0x0A | 0x0B => .toInteger p .long (some (.ofBits function)) fd fs
  | 0x0C | 0x0D | 0x0E | 0x0F => .toInteger p .word (some (.ofBits function)) fd fs
  | 0x20 => if p = .double then .narrow fd fs else .unknown
  | 0x21 => if p = .single then .widen fd fs else .unknown
  | 0x24 => .toInteger p .word none fd fs
  | 0x25 => .toInteger p .long none fd fs
  | _ => if 0x30 ≤ function then .compare p (BitVec.ofNat 4 function) fs ft else .unknown

/-- Decodes the operations on an integer format. -/
def decodeIntegerFormat (source : IntegerFormat) (w : UInt32) : FloatOp :=
  match (funct w).toNat with
  | 0x20 => .fromInteger source .single (sa w) (rd w)
  | 0x21 => .fromInteger source .double (sa w) (rd w)
  | _ => .unknown

/-- Decodes the floating-point unit. In its branches bit 16 selects the condition's value and bit 17
the likely form. -/
def decodeFloat (w : UInt32) : Instruction :=
  match (rs w).val with
  | 0x00 => .float (.mfc1 (rt w) (rd w))
  | 0x01 => .float (.dmfc1 (rt w) (rd w))
  | 0x02 => .float (.cfc1 (rt w) (rd w))
  | 0x04 => .float (.mtc1 (rt w) (rd w))
  | 0x05 => .float (.dmtc1 (rt w) (rd w))
  | 0x06 => .float (.ctc1 (rt w) (rd w))
  | 0x08 =>
    .branch (.floatCondition ((rt w).val.testBit 0)) ((rt w).val.testBit 1) false (branchOffset w)
  | 0x10 => .float (decodeFloatFormat .single w)
  | 0x11 => .float (decodeFloatFormat .double w)
  | 0x14 => .float (decodeIntegerFormat .word w)
  | 0x15 => .float (decodeIntegerFormat .long w)
  | _ => .float .unknown

/-- Decodes the absent third coprocessor, of which only a latch answers. -/
def decodeLatch (w : UInt32) : Instruction :=
  match (rs w).val with
  | 0x00 | 0x02 => .latch (.readWord (rt w))
  | 0x01 => .latch (.readDouble (rt w))
  | 0x04 | 0x05 | 0x06 => .latch (.write (rt w))
  | _ => .unimplemented w

/-- Decodes a word. -/
def decode (w : UInt32) : Instruction :=
  let signed (op : ImmediateOp) : Instruction := .immediate op (rt w) (rs w) (signedImmediate w)
  let unsigned (op : ImmediateOp) : Instruction := .immediate op (rt w) (rs w) (Encoding.immediate w)
  let branch (test : BranchTest) (likely : Bool) : Instruction :=
    .branch test likely false (branchOffset w)
  let load (op : LoadOp) : Instruction := .load op (rt w) (rs w) (signedImmediate w)
  let store (op : StoreOp) : Instruction := .store op (rt w) (rs w) (signedImmediate w)
  match (opcode w).toNat with
  | 0x00 => decodeSpecial w
  | 0x01 => decodeRegisterImmediate w
  | 0x02 => .jump false (regionOffset w)
  | 0x03 => .jump true (regionOffset w)
  | 0x04 => branch (.equal (rs w) (rt w)) false
  | 0x05 => branch (.notEqual (rs w) (rt w)) false
  | 0x06 => branch (.notPositive (rs w)) false
  | 0x07 => branch (.positive (rs w)) false
  | 0x08 => signed .addi
  | 0x09 => signed .addiu
  | 0x0A => signed .slti
  | 0x0B => signed .sltiu
  | 0x0C => unsigned .andi
  | 0x0D => unsigned .ori
  | 0x0E => unsigned .xori
  | 0x0F => unsigned .lui
  | 0x10 => decodeSystem w
  | 0x11 => decodeFloat w
  | 0x12 => decodeLatch w
  | 0x14 => branch (.equal (rs w) (rt w)) true
  | 0x15 => branch (.notEqual (rs w) (rt w)) true
  | 0x16 => branch (.notPositive (rs w)) true
  | 0x17 => branch (.positive (rs w)) true
  | 0x18 => signed .daddi
  | 0x19 => signed .daddiu
  | 0x1A => load .ldl
  | 0x1B => load .ldr
  | 0x20 => load .lb
  | 0x21 => load .lh
  | 0x22 => load .lwl
  | 0x23 => load .lw
  | 0x24 => load .lbu
  | 0x25 => load .lhu
  | 0x26 => load .lwr
  | 0x27 => load .lwu
  | 0x28 => store .sb
  | 0x29 => store .sh
  | 0x2A => store .swl
  | 0x2B => store .sw
  | 0x2C => store .sdl
  | 0x2D => store .sdr
  | 0x2E => store .swr
  | 0x2F => .cache (rt w) (rs w) (signedImmediate w)
  | 0x30 => load .ll
  | 0x31 => load .lwc1
  | 0x34 => load .lld
  | 0x35 => load .ldc1
  | 0x37 => load .ld
  | 0x38 => store .sc
  | 0x39 => store .swc1
  | 0x3C => store .scd
  | 0x3D => store .sdc1
  | 0x3F => store .sd
  | 0x32 | 0x36 | 0x3A | 0x3E => .unimplemented w
  | _ => .reserved w

end Instruction

end Vr4300
