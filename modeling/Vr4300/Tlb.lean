import Vr4300.Access
import Vr4300.Address
import Vr4300.Trap
import Vr4300.Word

/-!
# Mapped addresses

The TLB has 32 entries. An entry maps two neighbouring pages of one size, within one
address space unless it is global. The lowest matching entry answers.

## Contents

* `TlbEntry`: an entry with the masks that are derived from its page size.
* `Tlb`: writing, probing and translating.
* `Tlb.physical`: the physical address behind any address, through the unmapped windows or the TLB.
-/

namespace Vr4300

/-- A TLB entry. -/
structure TlbEntry where
  /-- The page size, as the mask of the offset bits above the least page pair. -/
  pageMask : UInt64
  /-- The region, the page number and the address space. -/
  entryHi : UInt64
  /-- The even page. -/
  entryLo0 : UInt64
  /-- The odd page. -/
  entryLo1 : UInt64
deriving DecidableEq, Repr, Inhabited

namespace TlbEntry

/-- The writable bits of a page mask. -/
def pageMaskBits : UInt64 := 0x01FFE000

/-- The odd bit of each pair of page-mask bits. -/
def pageMaskOddBits : UInt64 := 0x01554000

/-- The bits of an address that a page of the least size is compared by. -/
def pageNumberBits : UInt64 := 0xC00000FFFFFFE000

/-- The address space in EntryHi. -/
def asidBits : UInt64 := 0xFF

/-- The bits of a page that are kept. -/
def pageBits : UInt64 := 0x3FFFFFFF

/-- The page is global. -/
def globalBit : UInt64 := 1

/-- The page is valid. -/
def validBit : UInt64 := 2

/-- The page may be written. -/
def dirtyBit : UInt64 := 4

/-- A page mask as the hardware keeps it: a set odd bit of a pair sets the even one too. -/
def canonicalPageMask (mask : UInt64) : UInt64 :=
  (mask ||| ((mask &&& pageMaskOddBits) >>> 1)) &&& pageMaskBits

/-- The address bits above the page pair, for a canonical page mask. -/
def pageNumberMask (pageMask : UInt64) : UInt64 :=
  ~~~(pageMask ||| 0x1FFF) &&& pageNumberBits

/-- The entry that the registers describe. -/
def ofRegisters (pageMask entryHi entryLo0 entryLo1 : UInt64) : TlbEntry :=
  let mask := canonicalPageMask pageMask
  { pageMask := mask
    entryHi := entryHi &&& (pageNumberMask mask ||| asidBits)
    entryLo0 := entryLo0 &&& pageBits
    entryLo1 := entryLo1 &&& pageBits }

/-- The bits of an address that are compared. -/
def vpnMask (e : TlbEntry) : UInt64 := pageNumberMask e.pageMask

/-- The bits of an address that pass through. -/
def offsetMask (e : TlbEntry) : UInt64 := (e.pageMask >>> 1) ||| 0xFFF

/-- The bit of an address that selects the odd page. -/
def oddBit (e : TlbEntry) : UInt64 := e.offsetMask + 1

/-- The physical base of a page. -/
def frame (page : UInt64) : UInt64 := ((page >>> 6) &&& 0xFFFFF) <<< 12

/-- The entry belongs to every address space. -/
def isGlobal (e : TlbEntry) : Bool := e.entryLo0 &&& e.entryLo1 &&& globalBit != 0

/-- The entry maps an address of an address space. -/
def isMatch (e : TlbEntry) (address asid : UInt64) : Bool :=
  address &&& e.vpnMask == e.entryHi &&& e.vpnMask &&
    (e.isGlobal || e.entryHi &&& asidBits == asid &&& asidBits)

/-- A page as it is read back: both pages carry the bit of a global entry. -/
def readPage (e : TlbEntry) (page : UInt64) : UInt64 :=
  (page &&& ~~~globalBit) ||| ofCondition e.isGlobal

/-- The page of the pair that an address lies in. -/
def page (e : TlbEntry) (address : UInt64) : UInt64 :=
  if address &&& e.oddBit != 0 then e.entryLo1 else e.entryLo0

end TlbEntry

/-- The entry number given by the low bits of a register. -/
abbrev TlbIndex := Fin 32

/-- The lookaside buffer for mapped addresses. -/
structure Tlb where
  /-- The entries, in the order in which they are searched. -/
  entries : Vector TlbEntry 32 := Vector.replicate 32 (TlbEntry.ofRegisters 0 0 0 0)
deriving DecidableEq, Repr, Inhabited

namespace Tlb

/-- Replaces an entry. -/
def set (t : Tlb) (i : TlbIndex) (e : TlbEntry) : Tlb :=
  ⟨t.entries.set i e⟩

/-- The entry with a number. -/
def get (t : Tlb) (i : TlbIndex) : TlbEntry :=
  t.entries[i]

@[simp] theorem get_set_self (t : Tlb) (i : TlbIndex) (e : TlbEntry) : (t.set i e).get i = e := by
  simp [get, set]

theorem get_set_of_ne (t : Tlb) {i j : TlbIndex} (e : TlbEntry) (h : i ≠ j) :
    (t.set i e).get j = t.get j := by
  have : i.val ≠ j.val := fun hv => h (Fin.ext hv)
  simp [get, set, this]

/-- The lowest entry that maps an address of an address space. -/
def find? (t : Tlb) (address asid : UInt64) : Option TlbEntry :=
  t.entries.toList.find? (·.isMatch address asid)

/-- The number of the lowest entry that maps the page and address space of EntryHi. -/
def probe? (t : Tlb) (entryHi : UInt64) : Option Nat :=
  t.entries.toList.findIdx? (·.isMatch entryHi (entryHi &&& TlbEntry.asidBits))

/-- Translates a mapped address. A missing entry comes first, then a page that is not valid, then a
store to a page that is not dirty. The offset is added to the frame, which need not be aligned to the
page size. -/
def translate (t : Tlb) (address : UInt64) (access : Access) (asid : UInt64) :
    Except Trap UInt64 :=
  let isStore : Bool := access == .write
  match t.find? address asid with
  | none => .error (if isStore then .tlbRefillStore address else .tlbRefillLoad address)
  | some e =>
    let page := e.page address
    if page &&& TlbEntry.validBit == 0 then
      .error (if isStore then .tlbInvalidStore address else .tlbInvalidLoad address)
    else if isStore && page &&& TlbEntry.dirtyBit == 0 then .error (.tlbModified address)
    else .ok (TlbEntry.frame page + (address &&& e.offsetMask))

/-- Translates any address: directly in an unmapped window, else through the entries. -/
def physical (t : Tlb) (address : UInt64) (access : Access) (asid : UInt64) :
    Except Trap UInt64 :=
  match Address.unmappedPhysical? address with
  | some p => .ok p
  | none => t.translate address access asid

end Tlb

end Vr4300
