import Vr4300.Word

/-!
# Memory accesses

What an access does (`Access`) decides which exception it may raise and whether a page must be
writable; how wide it is (`Width`) decides the alignment that it needs.
-/

namespace Vr4300

/-- What a memory access does. -/
inductive Access where
  /-- Reads an instruction. -/
  | fetch
  /-- Reads data. -/
  | read
  /-- Writes data; the page must be marked dirty. -/
  | write
deriving DecidableEq, Repr, Inhabited

/-- The width of a memory access. -/
inductive Width where
  /-- Eight bits. -/
  | byte
  /-- Sixteen bits. -/
  | half
  /-- Thirty-two bits. -/
  | word
  /-- Sixty-four bits. -/
  | double
deriving DecidableEq, Repr, Inhabited

namespace Width

/-- The number of bytes of an access. -/
def bytes : Width → Nat
  | byte => 1
  | half => 2
  | word => 4
  | double => 8

/-- The low address bits that are clear in a naturally aligned address. -/
def alignmentMask : Width → UInt64
  | byte => 0
  | half => 1
  | word => 3
  | double => 7

/-- The address is naturally aligned for the width. -/
def isAligned (w : Width) (address : UInt64) : Bool :=
  address &&& w.alignmentMask == 0

/-- The part of a value that an access of this width carries. -/
def truncate (w : Width) (v : UInt64) : UInt64 :=
  match w with
  | byte => v.toUInt8.toUInt64
  | half => v.toUInt16.toUInt64
  | word => v.toUInt32.toUInt64
  | double => v

/-- The value of this width, sign-extended to 64 bits. -/
def signExtend (w : Width) (v : UInt64) : UInt64 :=
  match w with
  | byte => v.toUInt8.toInt8.toInt64.toUInt64
  | half => v.toUInt16.toInt16.toInt64.toUInt64
  | word => signExtendWord v
  | double => v

end Width

end Vr4300
