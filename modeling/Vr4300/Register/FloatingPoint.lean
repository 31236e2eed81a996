import Vr4300.Register.File

/-!
# Floating-point registers

Thirty-two slots of 64 bits behind two views. In the full view every register is a slot of its own. In
the half view the singles pair up: an even one is the low word of its slot, the odd one after it the
high word of the same slot, and doubles live in the even slots.
-/

namespace Vr4300

/-- The floating-point register file. -/
structure FloatRegisters where
  /-- The storage, which a change of view leaves alone. -/
  slots : RegisterFile UInt64 := .filled 0
  /-- The full view is selected. -/
  fullWidth : Bool := false
deriving DecidableEq, Repr, Inhabited

namespace FloatRegisters

/-- The even register of the pair that `r` belongs to. -/
def pairBase (r : Reg) : Reg := Fin.ofNat 32 (r.val / 2 * 2)

/-- The slot that holds register `r`. -/
def slot (f : FloatRegisters) (r : Reg) : Reg :=
  if f.fullWidth then r else pairBase r

/-- The single `r` is the high word of its slot. -/
def isHigh (f : FloatRegisters) (r : Reg) : Bool :=
  !f.fullWidth && r.val % 2 == 1

/-- The bits of a single. -/
def single (f : FloatRegisters) (r : Reg) : UInt32 :=
  let v := f.slots.read (f.slot r)
  if f.isHigh r then (v >>> 32).toUInt32 else v.toUInt32

/-- The bits of a double. -/
def double (f : FloatRegisters) (r : Reg) : UInt64 :=
  f.slots.read (f.slot r)

/-- Writes a single; the other word of its slot is kept. -/
def setSingle (f : FloatRegisters) (r : Reg) (v : UInt32) : FloatRegisters :=
  let shift : UInt64 := if f.isHigh r then 32 else 0
  let s := f.slot r
  { f with
    slots :=
      f.slots.write s (blend (f.slots.read s) (v.toUInt64 <<< shift) (0xFFFFFFFF <<< shift)) }

/-- Writes a double. -/
def setDouble (f : FloatRegisters) (r : Reg) (v : UInt64) : FloatRegisters :=
  { f with slots := f.slots.write (f.slot r) v }

/-- Selects a view. -/
def select (f : FloatRegisters) (full : Bool) : FloatRegisters :=
  { f with fullWidth := full }

end FloatRegisters

end Vr4300
