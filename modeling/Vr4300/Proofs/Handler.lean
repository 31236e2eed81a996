import Vr4300.Cpu.Step

/-!
# `Proofs.Handler` — instructions as handlers

A processor need not decide first and carry out afterwards. Its instructions are handlers that read, check
and write as they go, and a handler that fails leaves whatever it has written by then. Each handler here makes
its accesses, checks and writes in the order in which the instruction makes them.

A handler works on a `Workbench`. The pending target is consumed before it starts, and a branch leaves its
target for the end of the instruction. `Cpu.executeHandler` is the frame around a handler.

## Contents

* `Workbench`, `HandlerFault`, `Handler`: what handlers work on, how they fail, how they are put together;
* the steps of handlers: registers, branches, memory, recording of exceptions;
* `handle`, one function for each group of instructions; `handler`: the handler of a word;
* `Cpu.executeHandler`.
-/

namespace Vr4300

open FloatingPoint Integer

/-- What a handler works on. -/
structure Workbench where
  /-- The processor, whose pending target is consumed. -/
  cpu : Cpu
  /-- Where execution continues. -/
  next : UInt64
  /-- The target of the branch, if the instruction is one that is taken. -/
  target : Option UInt64 := none
  /-- The instruction waits for an event. -/
  idle : Bool := false

/-- Why a handler does not complete. -/
inductive HandlerFault where
  /-- It raises an exception. -/
  | trap (t : Trap)
  /-- It stops the machine. -/
  | fatal (e : FatalError)
deriving DecidableEq, Repr

/-- A handler changes its workbench; one that fails leaves the changes that it has made. -/
def Handler (α : Type) := Workbench → Except HandlerFault α × Workbench

namespace Handler

variable {α : Type}

instance : Monad Handler where
  pure a b := (.ok a, b)
  bind x f b :=
    match x b with
    | (.ok a, b) => f a b
    | (.error e, b) => (.error e, b)

theorem bind_run {β : Type} (x : Handler α) (f : α → Handler β) (b : Workbench) :
    (x >>= f) b =
      match x b with
      | (.ok a, b) => f a b
      | (.error e, b) => (.error e, b) := rfl

/-! ## Steps -/

/-- Looks at the processor. -/
def look (f : Cpu → α) : Handler α := fun b => (.ok (f b.cpu), b)

theorem look_bind {β : Type} (f : Cpu → β) (g : β → Handler α) (b : Workbench) :
    (look f >>= g) b = g (f b.cpu) b := rfl

/-- Changes the processor. -/
def change (f : Cpu → Cpu) : Handler Unit := fun b => (.ok (), { b with cpu := f b.cpu })

/-- Raises an exception. -/
def raise (t : Trap) : Handler α := fun b => (.error (.trap t), b)

/-- Stops the machine. -/
def stop (e : FatalError) : Handler α := fun b => (.error (.fatal e), b)

/-- Makes an access, which may raise an exception. -/
def access (x : Cpu → Except Trap α × Cpu) : Handler α := fun b =>
  match x b.cpu with
  | (.ok a, c) => (.ok a, { b with cpu := c })
  | (.error t, c) => (.error (.trap t), { b with cpu := c })

/-- The result of a sum, unless it overflows. -/
def noOverflow : Option UInt64 → Handler UInt64
  | some v => pure v
  | none => raise .overflow

/-- Reads a general register. -/
def readRegister (r : Reg) : Handler UInt64 := look (·.regs.get r)

/-- Writes a general register. -/
def writeRegister (r : Reg) (v : UInt64) : Handler Unit := change (·.setRegister r v)

/-- Writes a floating-point register. -/
def writeFloat (p : Precision) (r : Reg) (bits : UInt64) : Handler Unit := change (·.setFloat p r bits)

/-- Branches to a target. -/
def setBranch (target : UInt64) : Handler Unit := fun b =>
  (.ok (), { b with target := some target, idle := if b.cpu.idles (.branch target) then true else b.idle })

/-- Skips the delay slot. -/
def nullify : Handler Unit := fun b => (.ok (), { b with next := b.next + 4 })

/-- Branches if the branch is taken. -/
def branch (taken likely : Bool) (offset : UInt64) : Handler Unit := do
  if taken then
    let pc ← look (·.pc)
    setBranch (branchTarget pc offset)
  else if likely then nullify

/-- Writes the return address. -/
def link (rd : Reg) : Handler Unit := change fun c => c.setRegister rd c.linkAddress

/-- Reads at an address. -/
def load (w : Width) (address : UInt64) : Handler UInt64 := access (·.load w address)

/-- Writes at an address. -/
def store (w : Width) (address v : UInt64) : Handler Unit := access (·.store w address v)

/-- Replaces bits at an address. -/
def storeMasked (w : Width) (s : Lane.MaskedStore) : Handler Unit :=
  access (·.storeMasked w s.address s.value s.mask)

/-- Translates an address. -/
def translate (w : Width) (kind : Access) (address : UInt64) : Handler UInt64 :=
  access fun c => (c.translate w kind address, c)

/-- Records the exceptions of a floating-point operation, and raises one if one of them traps. -/
def record (raised : ExceptionSet) : Handler Unit := fun b =>
  let (quiet, fcr31) := b.cpu.fcr31.record raised
  (if quiet then .ok () else .error (.trap .floatingPoint), { b with cpu := { b.cpu with fcr31 := fcr31 } })

/-- Records the exceptions of an operation and writes its result. -/
def commit (p : Precision) (fd : Reg) (o : Outcome) : Handler Unit := do
  record o.raised
  writeFloat p fd o.bits

/-! ## Groups of instructions -/

/-- Operations between a register and an immediate. -/
def handleImmediate (op : ImmediateOp) (rt rs : Reg) (value : UInt64) : Handler Unit := do
  let a ← readRegister rs
  let v ← match op with
    | .addi => noOverflow (addWord? a value)
    | .addiu => pure (signExtendWord (a + value))
    | .slti => pure (setLess a value)
    | .sltiu => pure (setBelow a value)
    | .andi => pure (a &&& value)
    | .ori => pure (a ||| value)
    | .xori => pure (a ^^^ value)
    | .lui => pure (signExtendWord (value <<< 16))
    | .daddi => noOverflow (addDouble? a value)
    | .daddiu => pure (a + value)
  writeRegister rt v

/-- Operations between two registers. -/
def handleRegister (op : RegisterOp) (rd rs rt : Reg) : Handler Unit := do
  let a ← readRegister rs
  let b ← readRegister rt
  let v ← match op with
    | .add => noOverflow (addWord? a b)
    | .addu => pure (signExtendWord (a + b))
    | .sub => noOverflow (subWord? a b)
    | .subu => pure (signExtendWord (a - b))
    | .and => pure (a &&& b)
    | .or => pure (a ||| b)
    | .xor => pure (a ^^^ b)
    | .nor => pure (~~~(a ||| b))
    | .slt => pure (setLess a b)
    | .sltu => pure (setBelow a b)
    | .dadd => noOverflow (addDouble? a b)
    | .daddu => pure (a + b)
    | .dsub => noOverflow (subDouble? a b)
    | .dsubu => pure (a - b)
  writeRegister rd v

/-- Loads of the container around an address, which is merged into a register. -/
def handleMerge (w : Width) (op : MergeOp) (rt : Reg) (address : UInt64) : Handler Unit := do
  let container ← load w (address &&& ~~~w.alignmentMask)
  let old ← readRegister rt
  writeRegister rt (op.apply old container address)

/-- Loads that take the link. -/
def handleLinked (w : Width) (rt : Reg) (address : UInt64) : Handler Unit := do
  let physical ← translate w .read address
  let v ← load w address
  writeRegister rt (w.signExtend v)
  change fun c => { c with llBit := true }
  change fun c => { c with cp0 := c.cp0.put Control.llAddr (physical >>> 4) }

/-- Loads. -/
def handleLoad (op : LoadOp) (rt base : Reg) (offset : UInt64) : Handler Unit := do
  let start ← readRegister base
  let address := start + offset
  let signed (w : Width) : Handler Unit := do
    let v ← load w address
    writeRegister rt (w.signExtend v)
  let unsigned (w : Width) : Handler Unit := do
    let v ← load w address
    writeRegister rt v
  let float (w : Width) (p : Precision) : Handler Unit := do
    let v ← load w address
    writeFloat p rt v
  match op with
  | .lb => signed .byte
  | .lbu => unsigned .byte
  | .lh => signed .half
  | .lhu => unsigned .half
  | .lw => signed .word
  | .lwu => unsigned .word
  | .ld => unsigned .double
  | .lwl => handleMerge .word .wordLeft rt address
  | .lwr => handleMerge .word .wordRight rt address
  | .ldl => handleMerge .double .doubleLeft rt address
  | .ldr => handleMerge .double .doubleRight rt address
  | .ll => handleLinked .word rt address
  | .lld => handleLinked .double rt address
  | .lwc1 => float .word .single
  | .ldc1 => float .double .double

/-- Stores that need the link. Without it the address is translated all the same. -/
def handleConditional (w : Width) (rt : Reg) (address : UInt64) : Handler Unit := do
  let held ← look (·.llBit)
  if held then
    let v ← readRegister rt
    store w address v
    writeRegister rt 1
  else
    let _ ← translate w .write address
    writeRegister rt 0

/-- Stores. -/
def handleStore (op : StoreOp) (rt base : Reg) (offset : UInt64) : Handler Unit := do
  let start ← readRegister base
  let address := start + offset
  let v ← readRegister rt
  match op with
  | .sb => store .byte address v
  | .sh => store .half address v
  | .sw => store .word address v
  | .sd => store .double address v
  | .swl => storeMasked .word (Lane.storeWordLeft v address)
  | .swr => storeMasked .word (Lane.storeWordRight v address)
  | .sdl => storeMasked .double (Lane.storeDoubleLeft v address)
  | .sdr => storeMasked .double (Lane.storeDoubleRight v address)
  | .sc => handleConditional .word rt address
  | .scd => handleConditional .double rt address
  | .swc1 =>
    let single ← look fun c => c.fpr.single rt
    store .word address single.toUInt64
  | .sdc1 =>
    let double ← look fun c => c.fpr.double rt
    store .double address double

/-- Writes a TLB entry from the control registers. -/
def writeEntry (i : TlbIndex) : Handler Unit := do
  let e ← look Cpu.describedEntry
  change fun c => { c with tlb := c.tlb.set i e }
  change fun c => { c with tlbDirty := true }

/-- Operations of the system control coprocessor. -/
def handleSystem : SystemOp → Handler Unit
  | .mfc0 rt rd => do
    let v ← look (·.readControl rd)
    writeRegister rt (signExtendWord v)
  | .dmfc0 rt rd => do
    let v ← look (·.readControl rd)
    writeRegister rt v
  | .mtc0 rt rd => do
    let v ← readRegister rt
    change (·.writeControl rd (signExtendWord v))
  | .dmtc0 rt rd => do
    let v ← readRegister rt
    change (·.writeControl rd v)
  | .tlbr => do
    let e ← look fun c => c.tlb.get c.indexedEntry
    change fun c => { c with cp0 := c.cp0.put Control.pageMask e.pageMask }
    change fun c => { c with cp0 := c.cp0.put Control.entryHi e.entryHi }
    change fun c => { c with cp0 := c.cp0.put Control.entryLo0 (e.readPage e.entryLo0) }
    change fun c => { c with cp0 := c.cp0.put Control.entryLo1 (e.readPage e.entryLo1) }
  | .tlbwi => do
    let i ← look Cpu.indexedEntry
    writeEntry i
  | .tlbwr => do
    let n ← look Cpu.random
    writeEntry (Fin.ofNat 32 n.toNat)
  | .tlbp => do
    let v ← look Cpu.probeResult
    change fun c => { c with cp0 := c.cp0.put Control.index v }
  | .eret => do
    let address ← look Cpu.returnAddress
    (fun b => (.ok (), { b with next := address }) : Handler Unit)
    change Cpu.leaveException

/-- Writes a floating-point control register, and raises an exception if one is written as raised. -/
def handleFloatControl (rt fs : Reg) : Handler Unit := do
  if fs = 31 then
    let v ← readRegister rt
    change fun c => { c with fcr31 := Fcr31.ofRaw v.toUInt32.toBitVec }
    let traps ← look (·.fcr31.causeTraps)
    if traps then raise .floatingPoint

/-- Operations of the floating-point unit. -/
def handleFloat (op : FloatOp) : Handler Unit := do
  let mode ← look (·.fcr31.rounding)
  let operand (p : Precision) (r : Reg) : Handler UInt64 := look (·.floatOperand p r)
  match op with
  | .mfc1 rt fs =>
    let v ← look fun c => c.fpr.single fs
    writeRegister rt (ofWord v)
  | .dmfc1 rt fs =>
    let v ← look fun c => c.fpr.double fs
    writeRegister rt v
  | .cfc1 rt fs =>
    let v ← look (·.readFloatControl fs)
    writeRegister rt v
  | .mtc1 rt fs =>
    let v ← readRegister rt
    writeFloat .single fs v
  | .dmtc1 rt fs =>
    let v ← readRegister rt
    writeFloat .double fs v
  | .ctc1 rt fs => handleFloatControl rt fs
  | .binary op p fd fs ft =>
    let a ← operand p fs
    let b ← operand p ft
    commit p fd (binary p op mode a b)
  | .sqrt p fd fs =>
    let a ← operand p fs
    commit p fd (sqrt p mode a)
  | .abs p fd fs =>
    let a ← operand p fs
    commit p fd (abs p a)
  | .neg p fd fs =>
    let a ← operand p fs
    commit p fd (neg p a)
  | .mov p fd fs =>
    let a ← operand p fs
    writeFloat p fd a
  | .toInteger p target fixed fd fs =>
    let a ← operand p fs
    commit (Cpu.integerPrecision target) fd (toInteger p target (fixed.getD mode) a)
  | .narrow fd fs =>
    let a ← operand .double fs
    commit .single fd (narrow mode a)
  | .widen fd fs =>
    let a ← operand .single fs
    commit .double fd (widen a)
  | .fromInteger source p fd fs =>
    let a ← operand (Cpu.integerPrecision source) fs
    commit p fd (fromInteger source p mode a)
  | .compare p condition fs ft =>
    let a ← operand p fs
    let b ← operand p ft
    let (holds, raised) := compareOperands p condition a b
    record raised
    change fun c => { c with fcr31 := c.fcr31.setCondition holds }
  | .unknown => record .unimplemented

/-- Moves of the third coprocessor. -/
def handleLatch (op : LatchOp) : Handler Unit := do
  let usable ← look (·.cp0.hasStatus Control.statusCU2)
  if usable then
    match op with
    | .readWord rt =>
      let v ← look (·.latch)
      writeRegister rt (signExtendWord v)
    | .readDouble rt =>
      let v ← look (·.latch)
      writeRegister rt v
    | .write rt =>
      let v ← readRegister rt
      change fun c => { c with latch := v }
  else raise (.coprocessorUnusable 2)

/-- The handler of an instruction. -/
def handle : Instruction → Handler Unit
  | .immediate op rt rs value => handleImmediate op rt rs value
  | .register op rd rs rt => handleRegister op rd rs rt
  | .shift op rd rt amount => do
    let v ← readRegister rt
    let n ← look (·.shiftAmount amount)
    writeRegister rd (Cpu.shiftResult op v n)
  | .multiply op rs rt => do
    let a ← readRegister rs
    let b ← readRegister rt
    change fun c => { c with hilo := op.apply a b }
  | .readHiLo .hi rd => do
    let v ← look (·.hilo.hi)
    writeRegister rd v
  | .readHiLo .lo rd => do
    let v ← look (·.hilo.lo)
    writeRegister rd v
  | .writeHiLo .hi rs => do
    let v ← readRegister rs
    change fun c => { c with hilo := { c.hilo with hi := v } }
  | .writeHiLo .lo rs => do
    let v ← readRegister rs
    change fun c => { c with hilo := { c.hilo with lo := v } }
  | .sync => pure ()
  | .trapIf test rs operand => do
    let a ← readRegister rs
    let b ← look (·.trapOperand operand)
    if test.holds a b then raise .trapInstruction
  | .syscall => raise .syscall
  | .breakpoint => raise .breakpoint
  | .jump linked offset => do
    if linked then link Instruction.linkRegister
    let pc ← look (·.pc)
    setBranch (jumpTarget pc offset)
  | .jumpRegister rs linked => do
    let target ← readRegister rs
    if let some rd := linked then link rd
    setBranch target
  | .branch test likely linked offset => do
    -- the condition is decided first: the link may overwrite the register that it tests
    let taken ← look (·.testHolds test)
    if linked then link Instruction.linkRegister
    branch taken likely offset
  | .load op rt base offset => handleLoad op rt base offset
  | .store op rt base offset => handleStore op rt base offset
  | .cache selector base offset => do
    if selector.val % 4 = 0 then
      let start ← readRegister base
      change (·.invalidateCode (start + offset) Cpu.codeLineSize)
  | .system op => handleSystem op
  | .float op => handleFloat op
  | .latch op => handleLatch op
  | .reserved word => raise (.reservedInstruction word)
  | .unimplemented word => do
    let pc ← look (·.pc)
    stop (.unimplementedInstruction pc word)

end Handler

/-- The handler of an instruction word. -/
def handler (word : UInt32) : Handler Unit := do
  let usable ← Handler.look (·.floatUsable)
  if (Instruction.decode word).needsFloat && !usable then Handler.raise (.coprocessorUnusable 1)
  else Handler.handle (.decode word)

namespace Cpu

/-- The workbench on which an instruction starts. -/
def workbench (c : Cpu) : Workbench where
  cpu := { c with delaySlot := none }
  next := c.successor

/-- Executes the instruction at `pc` with its handler. A fatal error puts the pending target back. -/
def executeHandler (c : Cpu) (word : UInt32) : Except FatalError Retired × Cpu :=
  let retired : Retired :=
    { address := c.pc, word := word, inDelaySlot := c.inDelaySlot, trapped := false }
  match handler word c.workbench with
  | (.ok (), b) =>
    let c := retire { b.cpu with pc := b.next, delaySlot := b.target }
    (.ok retired, if b.idle then c.skipIdle else c)
  | (.error (.trap t), b) =>
    (.ok { retired with trapped := true }, (b.cpu.takeException t retired.inDelaySlot).retire)
  | (.error (.fatal e), b) => (.error e, { b.cpu with delaySlot := c.delaySlot })

end Cpu

end Vr4300
