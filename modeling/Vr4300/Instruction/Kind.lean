import Vr4300.Instruction.Basic

/-!
# Kinds of instruction

How much of the machine an instruction can reach. A trivial one reads and writes only general registers
and the multiply/divide pair and always completes, so a run of them may be accounted for at its end.

## Contents

* `InstructionKind`, `Instruction.kind`.
* `Instruction.needsFloat`: whether Status must make the floating-point unit usable.
-/

namespace Vr4300

/-- How much bookkeeping an instruction needs. -/
inductive InstructionKind where
  /-- Always completes and touches only general registers, HI and LO. -/
  | trivial
  /-- Accesses memory, so it may fault, but never branches. -/
  | memory
  /-- May set a branch target or skip a delay slot. -/
  | branch
  /-- Anything else. -/
  | generic
deriving DecidableEq, Repr, Inhabited

namespace Instruction

/-- The kind of an instruction. -/
def kind : Instruction → InstructionKind
  | immediate op .. =>
    match op with
    | .addi | .daddi => .generic
    | _ => .trivial
  | register op .. =>
    match op with
    | .add | .sub | .dadd | .dsub => .generic
    | _ => .trivial
  | shift .. | multiply .. | readHiLo .. | writeHiLo .. | sync => .trivial
  | jump .. | jumpRegister .. | branch .. => .branch
  | load op .. =>
    match op with
    | .ll | .lld => .generic
    | _ => .memory
  | store op .. =>
    match op with
    | .sc | .scd => .generic
    | _ => .memory
  | _ => .generic

/-- The instruction raises an exception while Status does not make the floating-point unit usable. -/
def needsFloat : Instruction → Bool
  | float _ => true
  | branch (.floatCondition _) .. => true
  | load .lwc1 .. | load .ldc1 .. => true
  | store .swc1 .. | store .sdc1 .. => true
  | _ => false

end Instruction

end Vr4300
