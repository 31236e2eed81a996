import Vr4300.Cpu.Exception
import Vr4300.FloatingPoint.Operation
import Vr4300.Memory.Lane

/-!
# What an instruction does

Executing an instruction has two halves. First it is decided, by looking at the state only, what will be
done (`Plan`) or why nothing can be (`Fault`). Then the plan is carried out, which cannot fail. So a
faulting instruction leaves no trace, except for the exceptions that a floating-point operation records.

## Contents

* `Fault`: why an instruction does not complete.
* `Destination`, `Effect`, `Flow`, `Plan`.
* `Cpu.apply`: carrying out an effect.
-/

namespace Vr4300

open FloatingPoint

/-- Why an instruction does not complete. -/
inductive Fault where
  /-- It raises an exception. -/
  | trap (t : Trap)
  /-- It raises a floating-point exception, with what it leaves in the control register. -/
  | floatingPoint (fcr31 : Fcr31)
  /-- It stops the machine. -/
  | fatal (e : FatalError)
deriving DecidableEq, Repr, Inhabited

/-- The loads that merge a part of memory into a register. -/
inductive MergeOp where
  | wordLeft | wordRight | doubleLeft | doubleRight
deriving DecidableEq, Repr, Inhabited

/-- The register after a merging load at an address, from the aligned container that it reads. -/
def MergeOp.apply (op : MergeOp) (old container address : UInt64) : UInt64 :=
  match op with
  | wordLeft => Lane.wordLeft old container.toUInt32 address
  | wordRight => Lane.wordRight old container.toUInt32 address
  | doubleLeft => Lane.doubleLeft old container address
  | doubleRight => Lane.doubleRight old container address

/-- Where a load puts the number that it reads. -/
inductive Destination where
  /-- A general register, sign-extended. -/
  | signed (rt : Reg)
  /-- A general register, zero-extended. -/
  | unsigned (rt : Reg)
  /-- A general register, part of which is kept. -/
  | merged (op : MergeOp) (rt : Reg) (address : UInt64)
  /-- A general register, sign-extended, linked to a physical address. -/
  | linked (rt : Reg) (physical : UInt64)
  /-- A floating-point register. -/
  | float (p : Precision) (ft : Reg)
deriving DecidableEq, Repr, Inhabited

/-- What an instruction changes, apart from where execution continues. -/
inductive Effect where
  /-- Nothing. -/
  | none
  /-- A general register. -/
  | register (rd : Reg) (v : UInt64)
  /-- The multiply/divide pair. -/
  | hilo (v : HiLo)
  /-- A register, from memory. -/
  | load (w : Width) (source : Location) (into : Destination)
  /-- Memory. -/
  | store (w : Width) (target : Location) (v : UInt64)
  /-- Some bits of memory. -/
  | storeMasked (w : Width) (target : Location) (v mask : UInt64)
  /-- Memory, and a register that tells so. -/
  | storeLinked (w : Width) (target : Location) (v : UInt64) (rt : Reg)
  /-- A control register, with what that sets in motion. -/
  | control (rd : Reg) (v : UInt64)
  /-- The control registers that describe a TLB entry. -/
  | entryRegisters (e : TlbEntry)
  /-- The control register that holds an entry number. -/
  | index (v : UInt64)
  /-- A TLB entry. -/
  | tlbEntry (i : TlbIndex) (e : TlbEntry)
  /-- The end of an exception handler. -/
  | leaveException
  /-- A floating-point register and the floating-point control register. -/
  | float (p : Precision) (fd : Reg) (bits : UInt64) (fcr31 : Fcr31)
  /-- The floating-point control register. -/
  | fcr31 (v : Fcr31)
  /-- The latch of the third coprocessor. -/
  | latch (v : UInt64)
  /-- The compiled code of a line. -/
  | invalidateCode (address : UInt64)
deriving DecidableEq, Repr, Inhabited

/-- Where execution continues after an instruction. Its natural successor is the pending target, if it
is in a delay slot, and else the instruction behind it. -/
inductive Flow where
  /-- At the natural successor. -/
  | sequential
  /-- At the natural successor, which is the delay slot of a branch to the target. -/
  | branch (target : UInt64)
  /-- Behind the natural successor, which is skipped. -/
  | nullify
  /-- At an address, without a delay slot. -/
  | resume (address : UInt64)
deriving DecidableEq, Repr, Inhabited

/-- What an instruction that completes does. -/
structure Plan where
  /-- What it changes. -/
  effect : Effect := .none
  /-- Where execution continues. -/
  flow : Flow := .sequential
deriving DecidableEq, Repr, Inhabited

namespace Cpu

/-- Writes a general register. -/
def setRegister (c : Cpu) (r : Reg) (v : UInt64) : Cpu :=
  { c with regs := c.regs.set r v }

/-- Writes a floating-point register. -/
def setFloat (c : Cpu) (p : Precision) (r : Reg) (bits : UInt64) : Cpu :=
  match p with
  | .single => { c with fpr := c.fpr.setSingle r bits.toUInt32 }
  | .double => { c with fpr := c.fpr.setDouble r bits }

/-- Puts a loaded number where it belongs. -/
def deliver (c : Cpu) (w : Width) (v : UInt64) : Destination → Cpu
  | .signed rt => c.setRegister rt (w.signExtend v)
  | .unsigned rt => c.setRegister rt v
  | .merged op rt address => c.setRegister rt (op.apply (c.regs.get rt) v address)
  | .linked rt physical =>
    { c.setRegister rt (w.signExtend v) with
      llBit := true
      cp0 := c.cp0.put Control.llAddr (physical >>> 4) }
  | .float p ft => c.setFloat p ft v

/-- Puts a TLB entry into the control registers. -/
def showEntry (c : Cpu) (e : TlbEntry) : Cpu :=
  let cp0 := (c.cp0.put Control.pageMask e.pageMask).put Control.entryHi e.entryHi
  let cp0 := cp0.put Control.entryLo0 (e.readPage e.entryLo0)
  { c with cp0 := cp0.put Control.entryLo1 (e.readPage e.entryLo1) }

/-- Carries out an effect. -/
def apply (c : Cpu) : Effect → Cpu
  | .none => c
  | .register rd v => c.setRegister rd v
  | .hilo v => { c with hilo := v }
  | .load w source into =>
    let (v, c) := c.readAt w source
    c.deliver w v into
  | .store w target v => c.writeAt w target v
  | .storeMasked w target v mask => c.writeMaskedAt w target v mask
  | .storeLinked w target v rt => (c.writeAt w target v).setRegister rt 1
  | .control rd v => c.writeControl rd v
  | .entryRegisters e => c.showEntry e
  | .index v => { c with cp0 := c.cp0.put Control.index v }
  | .tlbEntry i e => { c with tlb := c.tlb.set i e, tlbDirty := true }
  | .leaveException => c.leaveException
  | .float p fd bits fcr31 => { c.setFloat p fd bits with fcr31 := fcr31 }
  | .fcr31 v => { c with fcr31 := v }
  | .latch v => { c with latch := v }
  | .invalidateCode address => c.invalidateCode address codeLineSize

end Cpu

end Vr4300
