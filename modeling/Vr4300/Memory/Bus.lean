import Vr4300.Memory.Ram
import Vr4300.Text.Hex
import Vr4300.Text.Quote

/-!
# The physical bus

Devices outside main memory answer at ranges of physical addresses. Where ranges overlap, the device
that comes first in the order of base addresses answers; of equal bases, the one added first. An
address that no device claims reads zero and drops writes.

The bus remembers the device that answered last and asks it first. What a device does is its own affair: it
has a state, which a read may change as well as a write. The bus records every access that reaches one.

## Contents

* `Device`, `Device.memory`, `DeviceAccess`.
* `Bus`: adding devices, routing, reading and writing.
-/

namespace Vr4300

/-- A device: its range, its state, and what an access of a width at a distance from its base does. -/
structure Device where
  /-- The name that accesses are recorded under. -/
  name : String
  /-- The physical address of its first byte. -/
  base : UInt64
  /-- The number of bytes that it claims. -/
  size : UInt64
  /-- Its state, in an encoding of its own. -/
  state : ByteArray
  /-- The answer to a read, and the state behind it. -/
  respond : ByteArray → Width → UInt64 → UInt64 × ByteArray
  /-- The state behind a write of a value. -/
  accept : ByteArray → Width → UInt64 → UInt64 → ByteArray
deriving Inhabited

/-- A device that is a block of memory; bytes beyond its contents read zero and drop writes. -/
def Device.memory (name : String) (base size : UInt64) (contents : ByteArray) : Device where
  name := name
  base := base
  size := size
  state := contents
  respond contents w offset := (Bytes.read contents w.bytes offset.toNat, contents)
  accept contents w offset v := Bytes.write contents w.bytes offset.toNat v

/-- The device claims a physical address. -/
def Device.claims (d : Device) (address : UInt64) : Bool :=
  d.base ≤ address && address - d.base < d.size

/-- An access that reached a device. -/
structure DeviceAccess where
  /-- The device. -/
  name : String
  /-- It was a write. -/
  isWrite : Bool
  /-- The width. -/
  width : Width
  /-- The distance from the base of the device. -/
  offset : UInt64
  /-- The value read or written. -/
  value : UInt64
deriving DecidableEq, Repr, Inhabited

open Text in
/-- An access as text: device, direction with the width in bits, offset and value. -/
def DeviceAccess.text (a : DeviceAccess) : String :=
  let direction := if a.isWrite then "w" else "r"
  s!"{a.name}.{direction}{8 * a.width.bytes}@{hex a.offset.toNat}={hex a.value.toNat}"

/-- The physical bus. -/
structure Bus where
  /-- The devices, in the order of their bases. -/
  devices : Array Device := #[]
  /-- The position of the device that answered last. -/
  recent : Nat := 0
  /-- The accesses that reached a device, the latest first. -/
  accesses : List DeviceAccess := []
deriving Inhabited

namespace Bus

/-- Inserts a device behind all that have its base or a lower one. -/
def insertByBase (d : Device) : List Device → List Device
  | [] => [d]
  | e :: rest => if e.base ≤ d.base then e :: insertByBase d rest else d :: e :: rest

/-- Adds a device. -/
def add (b : Bus) (d : Device) : Bus :=
  { b with devices := (insertByBase d b.devices.toList).toArray, recent := 0 }

/-- Some device claims the address. -/
def isValid (b : Bus) (address : UInt64) : Bool :=
  b.devices.any (·.claims address)

/-- The position of the device that answers an address: the recent one if it claims the address, else
the first that does. -/
def route? (b : Bus) (address : UInt64) : Option Nat :=
  match b.devices[b.recent]? with
  | some d => if d.claims address then some b.recent else b.devices.findIdx? (·.claims address)
  | none => b.devices.findIdx? (·.claims address)

/-- Reads a number, recording the access. -/
def read (b : Bus) (w : Width) (address : UInt64) : UInt64 × Bus :=
  match b.route? address with
  | none => (0, b)
  | some i =>
    match b.devices[i]? with
    | none => (0, b)
    | some d =>
      let offset := address - d.base
      let (answer, state) := d.respond d.state w offset
      let value := w.truncate answer
      (value, { b with
        devices := b.devices.setIfInBounds i { d with state := state }
        recent := i
        accesses := ⟨d.name, false, w, offset, value⟩ :: b.accesses })

/-- Writes a number, recording the access. -/
def write (b : Bus) (w : Width) (address v : UInt64) : Bus :=
  match b.route? address with
  | none => b
  | some i =>
    match b.devices[i]? with
    | none => b
    | some d =>
      let offset := address - d.base
      let value := w.truncate v
      { b with
        devices := b.devices.setIfInBounds i { d with state := d.accept d.state w offset value }
        recent := i
        accesses := ⟨d.name, true, w, offset, value⟩ :: b.accesses }

/-- The devices as text: name, base and size of each. -/
def listing (b : Bus) : String :=
  let entry (d : Device) : String := s!"({Text.quote d.name}, ({d.base.toNat}, {d.size.toNat}))"
  "[" ++ ", ".intercalate (b.devices.toList.map entry) ++ "]"

end Bus

end Vr4300
