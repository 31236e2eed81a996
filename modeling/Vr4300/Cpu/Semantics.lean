import Vr4300.Cpu.Effect
import Vr4300.Instruction.Kind

/-!
# The meaning of instructions

`Cpu.plan` says what an instruction does in a state, or why it does not complete. It takes the
floating-point unit to be usable; `Cpu.planGuarded` looks at that first.

## Contents

* `Cpu.planImmediate`, … one function for each group of instructions.
* `Cpu.plan`, `Cpu.planGuarded`.
-/

namespace Vr4300

namespace Cpu

open FloatingPoint Integer

/-- An instruction that raises an exception. -/
def raise (t : Trap) : Except Fault Plan := .error (.trap t)

/-- An instruction that only writes a general register. -/
def writes (rd : Reg) (v : UInt64) : Except Fault Plan := .ok { effect := .register rd v }

/-- An instruction that writes a general register unless the result overflows. -/
def writesChecked (rd : Reg) : Option UInt64 → Except Fault Plan
  | some v => writes rd v
  | none => raise .overflow

/-! ## Integer instructions -/

/-- Operations between a register and an immediate. -/
def planImmediate (op : ImmediateOp) (rt : Reg) (a value : UInt64) : Except Fault Plan :=
  match op with
  | .addi => writesChecked rt (addWord? a value)
  | .addiu => writes rt (signExtendWord (a + value))
  | .slti => writes rt (setLess a value)
  | .sltiu => writes rt (setBelow a value)
  | .andi => writes rt (a &&& value)
  | .ori => writes rt (a ||| value)
  | .xori => writes rt (a ^^^ value)
  | .lui => writes rt (signExtendWord (value <<< 16))
  | .daddi => writesChecked rt (addDouble? a value)
  | .daddiu => writes rt (a + value)

/-- Operations between two registers. -/
def planRegister (op : RegisterOp) (rd : Reg) (a b : UInt64) : Except Fault Plan :=
  match op with
  | .add => writesChecked rd (addWord? a b)
  | .addu => writes rd (signExtendWord (a + b))
  | .sub => writesChecked rd (subWord? a b)
  | .subu => writes rd (signExtendWord (a - b))
  | .and => writes rd (a &&& b)
  | .or => writes rd (a ||| b)
  | .xor => writes rd (a ^^^ b)
  | .nor => writes rd (~~~(a ||| b))
  | .slt => writes rd (setLess a b)
  | .sltu => writes rd (setBelow a b)
  | .dadd => writesChecked rd (addDouble? a b)
  | .daddu => writes rd (a + b)
  | .dsub => writesChecked rd (subDouble? a b)
  | .dsubu => writes rd (a - b)

/-- Shifts. -/
def shiftResult (op : ShiftOp) (v : UInt64) (amount : UInt32) : UInt64 :=
  match op with
  | .sll => shiftLeftWord v amount
  | .srl => shiftRightWord v amount
  | .sra => shiftRightArithmeticWord v amount
  | .dsll => shiftLeftDouble v amount
  | .dsrl => shiftRightDouble v amount
  | .dsra => shiftRightArithmeticDouble v amount

/-! ## Branches -/

/-- The condition of a branch holds. -/
def testHolds (c : Cpu) : BranchTest → Bool
  | .equal rs rt => c.regs.get rs == c.regs.get rt
  | .notEqual rs rt => c.regs.get rs != c.regs.get rt
  | .notPositive rs => (c.regs.get rs).toInt64 ≤ 0
  | .positive rs => 0 < (c.regs.get rs).toInt64
  | .negative rs => (c.regs.get rs).toInt64 < 0
  | .notNegative rs => 0 ≤ (c.regs.get rs).toInt64
  | .floatCondition value => c.fcr31.condition == value

/-- The return address of a call: the instruction behind the delay slot. -/
def linkAddress (c : Cpu) : UInt64 := c.pc + 8

/-- Writes the return address if a register is given for it. -/
def linkEffect (c : Cpu) : Option Reg → Effect
  | none => .none
  | some rd => .register rd c.linkAddress

/-- Conditional branches. One that is likely and not taken skips its delay slot. -/
def planBranch (c : Cpu) (test : BranchTest) (likely link : Bool) (offset : UInt64) : Plan where
  effect := c.linkEffect (if link then some Instruction.linkRegister else none)
  flow :=
    if c.testHolds test then .branch (branchTarget c.pc offset)
    else if likely then .nullify
    else .sequential

/-! ## Memory -/

/-- Where an access lands, or the fault that it raises. -/
def locate (c : Cpu) (w : Width) (access : Access) (address : UInt64) : Except Fault Location :=
  match c.resolve w access address with
  | .error t => .error (.trap t)
  | .ok l => .ok l

/-- A load of a naturally aligned number. -/
def planLoad (c : Cpu) (w : Width) (address : UInt64) (into : Destination) : Except Fault Plan := do
  let source ← c.locate w .read address
  return { effect := .load w source into }

/-- A load of the container around an address, which is merged into a register. -/
def planMerge (c : Cpu) (w : Width) (op : MergeOp) (rt : Reg) (address : UInt64) :
    Except Fault Plan :=
  c.planLoad w (address &&& ~~~w.alignmentMask) (.merged op rt address)

/-- A load that remembers its physical address. -/
def planLinked (c : Cpu) (w : Width) (rt : Reg) (address : UInt64) : Except Fault Plan := do
  let source ← c.locate w .read address
  return { effect := .load w source (.linked rt source.physical) }

/-- Loads. -/
def planLoadOp (c : Cpu) (op : LoadOp) (rt : Reg) (address : UInt64) : Except Fault Plan :=
  match op with
  | .lb => c.planLoad .byte address (.signed rt)
  | .lbu => c.planLoad .byte address (.unsigned rt)
  | .lh => c.planLoad .half address (.signed rt)
  | .lhu => c.planLoad .half address (.unsigned rt)
  | .lw => c.planLoad .word address (.signed rt)
  | .lwu => c.planLoad .word address (.unsigned rt)
  | .ld => c.planLoad .double address (.unsigned rt)
  | .lwl => c.planMerge .word .wordLeft rt address
  | .lwr => c.planMerge .word .wordRight rt address
  | .ldl => c.planMerge .double .doubleLeft rt address
  | .ldr => c.planMerge .double .doubleRight rt address
  | .ll => c.planLinked .word rt address
  | .lld => c.planLinked .double rt address
  | .lwc1 => c.planLoad .word address (.float .single rt)
  | .ldc1 => c.planLoad .double address (.float .double rt)

/-- A store of a naturally aligned number. -/
def planStore (c : Cpu) (w : Width) (address v : UInt64) : Except Fault Plan := do
  let target ← c.locate w .write address
  return { effect := .store w target v }

/-- A store of some bits of a container. -/
def planMaskedStore (c : Cpu) (w : Width) (s : Lane.MaskedStore) : Except Fault Plan := do
  let target ← c.locate w .write s.address
  return { effect := .storeMasked w target s.value s.mask }

/-- A store that succeeds only while the link is held. The address is translated in either case. -/
def planConditionalStore (c : Cpu) (w : Width) (rt : Reg) (address : UInt64) :
    Except Fault Plan := do
  let target ← c.locate w .write address
  return {
    effect := if c.llBit then .storeLinked w target (c.regs.get rt) rt else .register rt 0 }

/-- Stores. -/
def planStoreOp (c : Cpu) (op : StoreOp) (rt : Reg) (address : UInt64) : Except Fault Plan :=
  match op with
  | .sb => c.planStore .byte address (c.regs.get rt)
  | .sh => c.planStore .half address (c.regs.get rt)
  | .sw => c.planStore .word address (c.regs.get rt)
  | .sd => c.planStore .double address (c.regs.get rt)
  | .swl => c.planMaskedStore .word (Lane.storeWordLeft (c.regs.get rt) address)
  | .swr => c.planMaskedStore .word (Lane.storeWordRight (c.regs.get rt) address)
  | .sdl => c.planMaskedStore .double (Lane.storeDoubleLeft (c.regs.get rt) address)
  | .sdr => c.planMaskedStore .double (Lane.storeDoubleRight (c.regs.get rt) address)
  | .sc => c.planConditionalStore .word rt address
  | .scd => c.planConditionalStore .double rt address
  | .swc1 => c.planStore .word address (c.fpr.single rt).toUInt64
  | .sdc1 => c.planStore .double address (c.fpr.double rt)

/-! ## The system control coprocessor -/

/-- The TLB entry that the control registers describe. -/
def describedEntry (c : Cpu) : TlbEntry :=
  .ofRegisters (c.cp0.get Control.pageMask) (c.cp0.get Control.entryHi)
    (c.cp0.get Control.entryLo0) (c.cp0.get Control.entryLo1)

/-- The entry that Index names. -/
def indexedEntry (c : Cpu) : TlbIndex := Fin.ofNat 32 (c.cp0.get Control.index).toNat

/-- What a probe leaves in Index. -/
def probeResult (c : Cpu) : UInt64 :=
  match c.tlb.probe? (c.cp0.get Control.entryHi) with
  | some i => UInt64.ofNat i
  | none => Control.probeFailure

/-- Operations of the system control coprocessor. -/
def planSystem (c : Cpu) (op : SystemOp) : Plan :=
  match op with
  | .mfc0 rt rd => { effect := .register rt (signExtendWord (c.readControl rd)) }
  | .dmfc0 rt rd => { effect := .register rt (c.readControl rd) }
  | .mtc0 rt rd => { effect := .control rd (signExtendWord (c.regs.get rt)) }
  | .dmtc0 rt rd => { effect := .control rd (c.regs.get rt) }
  | .tlbr => { effect := .entryRegisters (c.tlb.get c.indexedEntry) }
  | .tlbwi => { effect := .tlbEntry c.indexedEntry c.describedEntry }
  | .tlbwr => { effect := .tlbEntry (Fin.ofNat 32 c.random.toNat) c.describedEntry }
  | .tlbp => { effect := .index c.probeResult }
  | .eret => { effect := .leaveException, flow := .resume c.returnAddress }

/-! ## The floating-point unit -/

/-- An operand in a floating-point register. -/
def floatOperand (c : Cpu) (p : Precision) (r : Reg) : UInt64 :=
  match p with
  | .single => (c.fpr.single r).toUInt64
  | .double => c.fpr.double r

/-- Records the exceptions of an operation; if none of them traps, `effect` follows. -/
def recorded (c : Cpu) (raised : ExceptionSet) (effect : Fcr31 → Effect) : Except Fault Plan :=
  match c.fcr31.record raised with
  | (true, fcr31) => .ok { effect := effect fcr31 }
  | (false, fcr31) => .error (.floatingPoint fcr31)

/-- An operation with a result, which is written unless it traps. -/
def planOutcome (c : Cpu) (p : Precision) (fd : Reg) (o : Outcome) : Except Fault Plan :=
  c.recorded o.raised (.float p fd o.bits)

/-- The precision of the register that an integer result is written to. -/
def integerPrecision : IntegerFormat → Precision
  | .word => .single
  | .long => .double

/-- What a floating-point control register reads as. -/
def readFloatControl (c : Cpu) (fs : Reg) : UInt64 :=
  if fs = 0 then ofWord Fcr31.revision
  else if fs = 31 then ofWord (UInt32.ofBitVec c.fcr31.raw)
  else 0

/-- Writes a floating-point control register, of which there is one. An exception that is written as
raised traps after the write. -/
def planFloatControl (fs : Reg) (v : UInt64) : Except Fault Plan :=
  if fs = 31 then
    let fcr31 := Fcr31.ofRaw v.toUInt32.toBitVec
    if fcr31.causeTraps then .error (.floatingPoint fcr31) else .ok { effect := .fcr31 fcr31 }
  else .ok {}

/-- Operations of the floating-point unit. -/
def planFloat (c : Cpu) (op : FloatOp) : Except Fault Plan :=
  let mode := c.fcr31.rounding
  match op with
  | .mfc1 rt fs => writes rt (ofWord (c.fpr.single fs))
  | .dmfc1 rt fs => writes rt (c.fpr.double fs)
  | .cfc1 rt fs => writes rt (c.readFloatControl fs)
  | .mtc1 rt fs => .ok { effect := .float .single fs (c.regs.get rt) c.fcr31 }
  | .dmtc1 rt fs => .ok { effect := .float .double fs (c.regs.get rt) c.fcr31 }
  | .ctc1 rt fs => planFloatControl fs (c.regs.get rt)
  | .binary op p fd fs ft =>
    c.planOutcome p fd (binary p op mode (c.floatOperand p fs) (c.floatOperand p ft))
  | .sqrt p fd fs => c.planOutcome p fd (sqrt p mode (c.floatOperand p fs))
  | .abs p fd fs => c.planOutcome p fd (abs p (c.floatOperand p fs))
  | .neg p fd fs => c.planOutcome p fd (neg p (c.floatOperand p fs))
  | .mov p fd fs => .ok { effect := .float p fd (c.floatOperand p fs) c.fcr31 }
  | .toInteger p target fixed fd fs =>
    c.planOutcome (integerPrecision target) fd
      (toInteger p target (fixed.getD mode) (c.floatOperand p fs))
  | .narrow fd fs => c.planOutcome .single fd (narrow mode (c.floatOperand .double fs))
  | .widen fd fs => c.planOutcome .double fd (widen (c.floatOperand .single fs))
  | .fromInteger source p fd fs =>
    c.planOutcome p fd (fromInteger source p mode (c.floatOperand (integerPrecision source) fs))
  | .compare p condition fs ft =>
    let (holds, raised) :=
      compareOperands p condition (c.floatOperand p fs) (c.floatOperand p ft)
    c.recorded raised fun fcr31 => .fcr31 (fcr31.setCondition holds)
  | .unknown => c.recorded .unimplemented .fcr31

/-! ## All instructions -/

/-- Moves of the third coprocessor, which Status must make usable. -/
def planLatch (c : Cpu) (op : LatchOp) : Except Fault Plan :=
  if c.cp0.hasStatus Control.statusCU2 then
    match op with
    | .readWord rt => writes rt (signExtendWord c.latch)
    | .readDouble rt => writes rt c.latch
    | .write rt => .ok { effect := .latch (c.regs.get rt) }
  else raise (.coprocessorUnusable 2)

/-- The second operand of a conditional trap. -/
def trapOperand (c : Cpu) : TrapOperand → UInt64
  | .register rt => c.regs.get rt
  | .constant v => v

/-- The amount of a shift. -/
def shiftAmount (c : Cpu) : ShiftAmount → UInt32
  | .constant n => n
  | .register rs => (c.regs.get rs).toUInt32

/-- What an instruction does in a state, or why it does not complete. -/
def plan (c : Cpu) (i : Instruction) : Except Fault Plan :=
  match i with
  | .immediate op rt rs value => planImmediate op rt (c.regs.get rs) value
  | .register op rd rs rt => planRegister op rd (c.regs.get rs) (c.regs.get rt)
  | .shift op rd rt amount => writes rd (shiftResult op (c.regs.get rt) (c.shiftAmount amount))
  | .multiply op rs rt => .ok { effect := .hilo (op.apply (c.regs.get rs) (c.regs.get rt)) }
  | .readHiLo .hi rd => writes rd c.hilo.hi
  | .readHiLo .lo rd => writes rd c.hilo.lo
  | .writeHiLo .hi rs => .ok { effect := .hilo { c.hilo with hi := c.regs.get rs } }
  | .writeHiLo .lo rs => .ok { effect := .hilo { c.hilo with lo := c.regs.get rs } }
  | .sync => .ok {}
  | .trapIf test rs operand =>
    if test.holds (c.regs.get rs) (c.trapOperand operand) then raise .trapInstruction else .ok {}
  | .syscall => raise .syscall
  | .breakpoint => raise .breakpoint
  | .jump link offset =>
    .ok {
      effect := c.linkEffect (if link then some Instruction.linkRegister else none)
      flow := .branch (jumpTarget c.pc offset) }
  | .jumpRegister rs link =>
    .ok { effect := c.linkEffect link, flow := .branch (c.regs.get rs) }
  | .branch test likely link offset => .ok (c.planBranch test likely link offset)
  | .load op rt base offset => c.planLoadOp op rt (c.regs.get base + offset)
  | .store op rt base offset => c.planStoreOp op rt (c.regs.get base + offset)
  | .cache selector base offset =>
    if selector.val % 4 = 0 then .ok { effect := .invalidateCode (c.regs.get base + offset) }
    else .ok {}
  | .system op => .ok (c.planSystem op)
  | .float op => c.planFloat op
  | .latch op => c.planLatch op
  | .reserved word => raise (.reservedInstruction word)
  | .unimplemented word => .error (.fatal (.unimplementedInstruction c.pc word))

/-- What an instruction does, where one that needs the floating-point unit raises an exception while
the unit is not usable. -/
def planGuarded (c : Cpu) (i : Instruction) : Except Fault Plan :=
  if i.needsFloat && !c.floatUsable then raise (.coprocessorUnusable 1) else c.plan i

end Cpu

end Vr4300
