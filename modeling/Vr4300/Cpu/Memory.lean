import Vr4300.Access
import Vr4300.Cpu.Basic

/-!
# Memory as instructions see it

An access is checked for alignment, translated, and then served by main memory or by the bus. The
addresses from the base of `kseg0` that fall into main memory are not looked up.

## Contents

* `Location`, `Cpu.resolve`: where an access lands, or the exception that it raises.
* `Cpu.readAt`, `Cpu.writeAt`, `Cpu.writeMaskedAt`: accesses at a location.
* `Cpu.load`, `Cpu.store`, `Cpu.storeMasked`, `Cpu.fetch`: accesses at an address.
* `Cpu.peek?`: looking at an instruction without touching a device.
-/

namespace Vr4300

/-- Where an access lands. -/
inductive Location where
  /-- In main memory. -/
  | ram (offset : UInt64)
  /-- On the bus. -/
  | bus (address : UInt64)
deriving DecidableEq, Repr, Inhabited

/-- The physical address of a location. -/
def Location.physical : Location → UInt64
  | ram a | bus a => a

namespace Cpu

/-- The address space in EntryHi. -/
def asid (c : Cpu) : UInt64 := c.cp0.get Control.entryHi &&& TlbEntry.asidBits

/-- Where an access lands, or the exception that it raises. -/
def resolve (c : Cpu) (w : Width) (access : Access) (address : UInt64) : Except Trap Location :=
  if !w.isAligned address then
    .error (if access = .write then .addressErrorStore address else .addressErrorLoad address)
  else
    let offset := address - Address.kseg0Base
    if offset.toNat < c.ram.size then .ok (.ram offset)
    else
      match c.tlb.physical address access c.asid with
      | .error t => .error t
      | .ok p => .ok (if p.toNat < c.ram.size then .ram p else .bus p)

/-- The physical address of an access. -/
def translate (c : Cpu) (w : Width) (access : Access) (address : UInt64) : Except Trap UInt64 :=
  (c.resolve w access address).map Location.physical

/-- Reads at a location. -/
def readAt (c : Cpu) (w : Width) (l : Location) : UInt64 × Cpu :=
  match l with
  | .ram offset => (c.ram.read w offset, c)
  | .bus address =>
    let (v, bus) := c.bus.read w address
    (v, { c with bus := bus })

/-- Writes at a location. -/
def writeAt (c : Cpu) (w : Width) (l : Location) (v : UInt64) : Cpu :=
  match l with
  | .ram offset => { c with ram := c.ram.write w offset v }
  | .bus address => { c with bus := c.bus.write w address v }

/-- Reads at a location and writes back with the bits of a mask replaced. -/
def writeMaskedAt (c : Cpu) (w : Width) (l : Location) (v mask : UInt64) : Cpu :=
  let (old, c) := c.readAt w l
  c.writeAt w l (blend old v mask)

/-- Reads at an address. -/
def load (c : Cpu) (w : Width) (address : UInt64) : Except Trap UInt64 × Cpu :=
  match c.resolve w .read address with
  | .error t => (.error t, c)
  | .ok l =>
    let (v, c) := c.readAt w l
    (.ok v, c)

/-- Writes at an address. -/
def store (c : Cpu) (w : Width) (address v : UInt64) : Except Trap Unit × Cpu :=
  match c.resolve w .write address with
  | .error t => (.error t, c)
  | .ok l => (.ok (), c.writeAt w l v)

/-- Replaces the bits of a mask at an address. -/
def storeMasked (c : Cpu) (w : Width) (address v mask : UInt64) : Except Trap Unit × Cpu :=
  match c.resolve w .write address with
  | .error t => (.error t, c)
  | .ok l => (.ok (), c.writeMaskedAt w l v mask)

/-- Reads the instruction at an address. -/
def fetch (c : Cpu) (address : UInt64) : Except Trap UInt32 × Cpu :=
  match c.resolve .word .fetch address with
  | .error t => (.error t, c)
  | .ok l =>
    let (v, c) := c.readAt .word l
    (.ok v.toUInt32, c)

/-- The instruction at an address, if it lies in main memory. -/
def peek? (c : Cpu) (address : UInt64) : Option UInt32 :=
  match c.resolve .word .fetch address with
  | .ok (.ram offset) => some (c.ram.read .word offset).toUInt32
  | _ => none

end Cpu

end Vr4300
