import Vr4300.Word

/-!
# Byte lanes

The left and right forms of loads and stores reach the bytes of an aligned container that lie on one
side of an address. Lanes are numbered big-endian, so offset zero is the most significant byte. A load
merges the bytes into the register; a store gives a value and the mask of the bits to replace.

## Contents

* `wordLeft`, `wordRight`, `doubleLeft`, `doubleRight`: the merged register of a load.
* `MaskedStore`, and `storeWordLeft` and its family.
-/

namespace Vr4300.Lane

/-- The shift, in bits, that brings the byte at `address` to the top of its word. -/
def wordShift (address : UInt64) : UInt32 := 8 * (address &&& 3).toUInt32

/-- The shift, in bits, that brings the byte at `address` to the bottom of its word. -/
def wordRightShift (address : UInt64) : UInt32 := 8 * (3 - (address &&& 3).toUInt32)

/-- The shift, in bits, that brings the byte at `address` to the top of its doubleword. -/
def doubleShift (address : UInt64) : UInt64 := 8 * (address &&& 7)

/-- The shift, in bits, that brings the byte at `address` to the bottom of its doubleword. -/
def doubleRightShift (address : UInt64) : UInt64 := 8 * (7 - (address &&& 7))

/-- Merges the bytes from `address` to the end of its word into the top of the low word. -/
def wordLeft (rt : UInt64) (container : UInt32) (address : UInt64) : UInt64 :=
  let shift := wordShift address
  ofWord ((rt.toUInt32 &&& ~~~(0xFFFFFFFF <<< shift)) ||| (container <<< shift))

/-- Merges the bytes up to `address` into the bottom of the register. The whole word replaces the
register with sign extension; otherwise all bits above it stay. -/
def wordRight (rt : UInt64) (container : UInt32) (address : UInt64) : UInt64 :=
  let shift := wordRightShift address
  if shift = 0 then ofWord container
  else
    (rt &&& ~~~((0xFFFFFFFF : UInt32) >>> shift).toUInt64) ||| (container >>> shift).toUInt64

/-- Merges the bytes from `address` to the end of its doubleword into the top of the register. -/
def doubleLeft (rt container address : UInt64) : UInt64 :=
  let shift := doubleShift address
  (rt &&& ~~~(0xFFFFFFFFFFFFFFFF <<< shift)) ||| (container <<< shift)

/-- Merges the bytes up to `address` into the bottom of the register. -/
def doubleRight (rt container address : UInt64) : UInt64 :=
  let shift := doubleRightShift address
  (rt &&& ~~~(0xFFFFFFFFFFFFFFFF >>> shift)) ||| (container >>> shift)

/-- A store of some bits of an aligned container. -/
structure MaskedStore where
  /-- The address of the container. -/
  address : UInt64
  /-- The data, in its lanes. -/
  value : UInt64
  /-- The bits to replace. -/
  mask : UInt64
deriving DecidableEq, Repr, Inhabited

/-- Stores the top bytes of the low word from `address` to the end of its word. -/
def storeWordLeft (rt address : UInt64) : MaskedStore :=
  let shift := wordShift address
  ⟨address &&& ~~~3, (rt.toUInt32 >>> shift).toUInt64, ((0xFFFFFFFF : UInt32) >>> shift).toUInt64⟩

/-- Stores the bottom bytes of the low word up to `address`. -/
def storeWordRight (rt address : UInt64) : MaskedStore :=
  let shift := wordRightShift address
  ⟨address &&& ~~~3, (rt.toUInt32 <<< shift).toUInt64, ((0xFFFFFFFF : UInt32) <<< shift).toUInt64⟩

/-- Stores the top bytes of the register from `address` to the end of its doubleword. -/
def storeDoubleLeft (rt address : UInt64) : MaskedStore :=
  let shift := doubleShift address
  ⟨address &&& ~~~7, rt >>> shift, 0xFFFFFFFFFFFFFFFF >>> shift⟩

/-- Stores the bottom bytes of the register up to `address`. -/
def storeDoubleRight (rt address : UInt64) : MaskedStore :=
  let shift := doubleRightShift address
  ⟨address &&& ~~~7, rt <<< shift, 0xFFFFFFFFFFFFFFFF <<< shift⟩

end Vr4300.Lane
