/-!
# Virtual addresses

Addresses have 64 bits, of which the low 32 choose a segment of the compatibility address space.
`kseg0` and `kseg1` are two unmapped windows onto the low 512 MiB of physical memory; all other
segments are translated through the TLB.

## Contents

* `Segment`, `segment`: the segment of an address.
* `unmappedPhysical?`: the physical address behind an unmapped window.
* `unmappedAlias?`: the same physical byte seen through the other window.
-/

namespace Vr4300

/-- The segments of the 32-bit compatibility address space. -/
inductive Segment where
  /-- The low 2 GiB, mapped. -/
  | kuseg
  /-- From `0x80000000`, unmapped and cached. -/
  | kseg0
  /-- From `0xA0000000`, unmapped and uncached. -/
  | kseg1
  /-- From `0xC0000000`, mapped. -/
  | ksseg
  /-- From `0xE0000000`, mapped. -/
  | kseg3
deriving DecidableEq, Repr, Inhabited

/-- Addresses of the segment are translated through the TLB. -/
def Segment.isMapped : Segment → Bool
  | kuseg | ksseg | kseg3 => true
  | kseg0 | kseg1 => false

namespace Address

/-- The sign-extended base of `kseg0`. -/
def kseg0Base : UInt64 := 0xFFFFFFFF80000000

/-- The distance from a `kseg0` address to its `kseg1` view. -/
def aliasDistance : UInt64 := 0x20000000

/-- The low 32 bits, which alone select the segment. -/
def compat (address : UInt64) : UInt32 :=
  address.toUInt32

/-- The segment that an address lies in. -/
def segment (address : UInt64) : Segment :=
  match (compat address >>> 29).toNat with
  | 0 | 1 | 2 | 3 => .kuseg
  | 4 => .kseg0
  | 5 => .kseg1
  | 6 => .ksseg
  | _ => .kseg3

/-- The physical address of an unmapped address; `none` in a mapped segment. -/
def unmappedPhysical? (address : UInt64) : Option UInt64 :=
  if (segment address).isMapped then none else some (compat address &&& 0x1FFFFFFF).toUInt64

/-- The view of an unmapped address through the other window; `none` in a mapped segment. -/
def unmappedAlias? (address : UInt64) : Option UInt64 :=
  match segment address with
  | .kseg0 => some (address + aliasDistance)
  | .kseg1 => some (address - aliasDistance)
  | _ => none

end Address

end Vr4300
