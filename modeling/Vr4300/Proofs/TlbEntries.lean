import Mathlib.Data.Nat.Bitwise
import Vr4300.Proofs.Interrupts
import Vr4300.Tlb

/-!
# `Proofs.TlbEntries` — which entry maps an address

EntryHi, as an exception leaves it for its handler, stands for the page of an address and for an address space. An
entry matches it if and only if it maps the address there, whatever its page size. An entry that is made from it maps
the address, whatever the page size, and if no other entry does, it is the one that a probe reports and that a
translation goes through.

## Contents

* `TlbEntry.StandsFor`: EntryHi for an address; `TlbEntry.pageHi`, `standsFor_pageHi`, `isMatch_ofRegisters`;
* `TlbEntry.Admits`, `TlbEntry.Gives`: pages that admit an access, and what an access through an entry comes to;
* `Tlb.Lowest`: the entry that answers for an address; `probe?_eq_some_iff`, `Lowest.translate`;
* `Tlb.OnlyMatch`: one entry alone maps an address; `onlyMatch_set`;
* `admits_page`, `frame_kept`: what an entry keeps of its pages;
* `TlbEntry.sizeMask`: the page sizes of the architecture, with `offset_of_size`, `page_of_size`.
-/

namespace Vr4300

/-- Under one of two masks, the other one makes no difference. -/
theorem and_or_and_left (x a b : UInt64) : x &&& (a ||| b) &&& a = x &&& a := by
  have habsorb : (a ||| b) &&& a = a := by
    apply UInt64.toBitVec_inj.mp
    ext i hi
    simp only [UInt64.toBitVec_and, UInt64.toBitVec_or, BitVec.getElem_and, BitVec.getElem_or]
    cases a.toBitVec[i] <;> simp
  rw [UInt64.and_assoc, habsorb]

namespace Access

/-- The exception of an access that no entry maps. -/
def refill (access : Access) (address : UInt64) : Trap :=
  if access = .write then .tlbRefillStore address else .tlbRefillLoad address

/-- The exception of an access to a page that is not valid. -/
def invalid (access : Access) (address : UInt64) : Trap :=
  if access = .write then .tlbInvalidStore address else .tlbInvalidLoad address

end Access

namespace TlbEntry

/-- EntryHi for the page of an address in an address space. -/
def pageHi (address asid : UInt64) : UInt64 := (address &&& pageNumberBits) ||| asid

/-- The page is valid, and it may be written if the access does so. -/
structure Admits (access : Access) (page : UInt64) : Prop where
  /-- It is valid. -/
  valid : page &&& validBit ≠ 0
  /-- It may be written. -/
  dirty : access = .write → page &&& dirtyBit ≠ 0

/-- EntryHi stands for an address in an address space: every entry that matches it maps the address there. -/
def StandsFor (entryHi address asid : UInt64) : Prop :=
  ∀ e : TlbEntry, e.isMatch entryHi (entryHi &&& asidBits) = e.isMatch address asid

/-- What an access through an entry comes to: a page that is not valid is refused first, then a store to a page that
may not be written. -/
inductive Gives (e : TlbEntry) (address : UInt64) (access : Access) : Except Trap UInt64 → Prop where
  /-- The page is not valid. -/
  | invalid (hvalid : e.page address &&& validBit = 0) : Gives e address access (.error (access.invalid address))
  /-- The page is valid, but it may not be written. -/
  | modified (hvalid : e.page address &&& validBit ≠ 0) (hwrite : access = .write)
    (hdirty : e.page address &&& dirtyBit = 0) : Gives e address access (.error (.tlbModified address))
  /-- The page admits the access. -/
  | mapped (hpage : Admits access (e.page address)) :
    Gives e address access (.ok (frame (e.page address) + (address &&& e.offsetMask)))

/-- It comes to one thing. -/
theorem Gives.unique {e : TlbEntry} {address : UInt64} {access : Access} {r r' : Except Trap UInt64}
    (h : e.Gives address access r) (h' : e.Gives address access r') : r = r' := by
  cases h with
  | invalid hvalid =>
    cases h' with
    | invalid => rfl
    | modified hvalid' => exact absurd hvalid hvalid'
    | mapped hpage => exact absurd hvalid hpage.valid
  | modified hvalid hwrite hdirty =>
    cases h' with
    | invalid hvalid' => exact absurd hvalid' hvalid
    | modified => rfl
    | mapped hpage => exact absurd hdirty (hpage.dirty hwrite)
  | mapped hpage =>
    cases h' with
    | invalid hvalid => exact absurd hvalid hpage.valid
    | modified _ hwrite hdirty => exact absurd hdirty (hpage.dirty hwrite)
    | mapped => rfl

/-- An access through an entry does not miss. -/
theorem Gives.ne_refill {e : TlbEntry} {address : UInt64} {access : Access} {r : Except Trap UInt64}
    (h : e.Gives address access r) : r ≠ .error (access.refill address) := by
  cases h <;> cases access <;> simp [Access.refill, Access.invalid]

theorem Gives.physical_eq {e : TlbEntry} {address p : UInt64} {access : Access} (h : e.Gives address access (.ok p)) :
    p = frame (e.page address) + (address &&& e.offsetMask) := by
  cases h
  rfl

section

variable (mask hi lo0 lo1 : UInt64)

@[simp] theorem ofRegisters_pageMask : (ofRegisters mask hi lo0 lo1).pageMask = canonicalPageMask mask := rfl

/-- An entry keeps the page number of EntryHi. -/
theorem ofRegisters_vpn : (ofRegisters mask hi lo0 lo1).entryHi &&& (ofRegisters mask hi lo0 lo1).vpnMask =
    hi &&& pageNumberMask (canonicalPageMask mask) :=
  and_or_and_left _ _ _

/-- An entry keeps the address space of EntryHi. -/
theorem ofRegisters_asid : (ofRegisters mask hi lo0 lo1).entryHi &&& asidBits = hi &&& asidBits := by
  unfold ofRegisters
  dsimp only
  rw [UInt64.or_comm, and_or_and_left]

end

section

variable {address asid : UInt64} (hasid : asid &&& asidBits = asid)

include hasid

theorem pageHi_asid : pageHi address asid &&& asidBits = asid := by
  unfold pageHi
  rw [or_and_distrib, UInt64.and_assoc, show pageNumberBits &&& asidBits = 0 by decide, UInt64.and_zero, UInt64.zero_or,
    hasid]

/-- The page number in EntryHi is the one of the address, for each page size. -/
theorem pageHi_vpn (mask : UInt64) : pageHi address asid &&& pageNumberMask mask = address &&& pageNumberMask mask := by
  have hspace : asid &&& pageNumberBits = 0 := by
    rw [← hasid, UInt64.and_assoc, show asidBits &&& pageNumberBits = 0 by decide, UInt64.and_zero]
  unfold pageHi pageNumberMask
  rw [UInt64.and_comm (~~~_), ← UInt64.and_assoc, ← UInt64.and_assoc, or_and_distrib, hspace, UInt64.or_zero,
    UInt64.and_assoc address, UInt64.and_self]

/-- **An entry matches EntryHi** if and only if it maps the address. -/
theorem standsFor_pageHi : StandsFor (pageHi address asid) address asid := by
  intro e
  unfold isMatch vpnMask
  rw [pageHi_vpn hasid, pageHi_asid hasid]

omit hasid in
/-- The address space may carry other bits. -/
theorem standsFor_page : StandsFor (pageHi address (asid &&& asidBits)) address asid := by
  intro e
  rw [standsFor_pageHi (by rw [UInt64.and_assoc, UInt64.and_self])]
  unfold isMatch
  rw [UInt64.and_assoc, UInt64.and_self]

/-- **An entry made from EntryHi** maps the address, whatever its page size. -/
theorem isMatch_ofRegisters (mask lo0 lo1 : UInt64) :
    (ofRegisters mask (pageHi address asid) lo0 lo1).isMatch address asid = true := by
  unfold isMatch
  rw [ofRegisters_vpn, ofRegisters_asid, pageHi_asid hasid, hasid, vpnMask, ofRegisters_pageMask, pageHi_vpn hasid]
  simp

end

end TlbEntry

/-! ## One entry alone -/

namespace Tlb

variable {t : Tlb} {i : TlbIndex} {hi address asid : UInt64}

theorem find?_eq_none_iff : t.find? address asid = none ↔ ∀ j, (t.get j).isMatch address asid = false := by
  unfold find?
  rw [List.find?_eq_none]
  simp only [Vector.mem_toList_iff, Vector.forall_mem_iff_forall_getElem, Bool.not_eq_true]
  exact ⟨fun h j => h j.val j.isLt, fun h j hj => h ⟨j, hj⟩⟩

/-- **A probe** fails if and only if no entry maps the address. -/
theorem probe?_eq_none_iff (hhi : TlbEntry.StandsFor hi address asid) :
    t.probe? hi = none ↔ ∀ j, (t.get j).isMatch address asid = false := by
  unfold probe?
  rw [List.findIdx?_eq_none_iff]
  simp only [Vector.mem_toList_iff, Vector.forall_mem_iff_forall_getElem, hhi _]
  exact ⟨fun h j => h j.val j.isLt, fun h j hj => h ⟨j, hj⟩⟩

/-- An address that no entry maps is missed. -/
theorem translate_of_absent (access : Access) (habsent : ∀ j, (t.get j).isMatch address asid = false) :
    t.translate address access asid = .error (access.refill address) := by
  unfold translate
  rw [find?_eq_none_iff.mpr habsent]
  cases access <;> rfl

/-- The entry `i` maps the address, and no lower one does. -/
structure Lowest (t : Tlb) (i : TlbIndex) (address asid : UInt64) : Prop where
  /-- It maps the address. -/
  maps : (t.get i).isMatch address asid = true
  /-- No lower one does. -/
  below : ∀ j < i, (t.get j).isMatch address asid = false

namespace Lowest

variable (h : t.Lowest i address asid)
include h

theorem find? : t.find? address asid = some (t.get i) := by
  unfold Tlb.find?
  rw [List.find?_eq_some_iff_getElem]
  refine ⟨h.maps, i, by simp, Vector.getElem_toList _, ?_⟩
  intro j hj
  rw [Vector.getElem_toList]
  have hbelow := h.below ⟨j, by omega⟩ hj
  exact Bool.not_eq_true' _ ▸ hbelow

/-- **A translation** goes through the entry. -/
theorem translate (access : Access) : TlbEntry.Gives (t.get i) address access (t.translate address access asid) := by
  unfold Tlb.translate
  rw [h.find?]
  dsimp only
  by_cases hvalid : (t.get i).page address &&& TlbEntry.validBit = 0
  · rw [if_pos (beq_iff_eq.mpr hvalid)]
    cases access <;> exact .invalid hvalid
  rw [if_neg (mt beq_iff_eq.mp hvalid)]
  by_cases hdirty : access = .write ∧ (t.get i).page address &&& TlbEntry.dirtyBit = 0
  · rw [if_pos (by simpa using hdirty)]
    exact .modified hvalid hdirty.1 hdirty.2
  · rw [if_neg (by simpa using hdirty)]
    exact .mapped ⟨hvalid, fun hwrite hzero => hdirty ⟨hwrite, hzero⟩⟩

end Lowest

/-- **A probe** reports the lowest entry that maps the address. -/
theorem probe?_eq_some_iff (hhi : TlbEntry.StandsFor hi address asid) {k : Nat} :
    t.probe? hi = some k ↔ ∃ i : TlbIndex, k = i.val ∧ t.Lowest i address asid := by
  unfold probe?
  simp only [List.findIdx?_eq_some_iff_getElem, Vector.length_toList, Vector.getElem_toList, hhi _, Bool.not_eq_true]
  constructor
  · rintro ⟨hlt, hmaps, hbelow⟩
    exact ⟨⟨k, hlt⟩, rfl, hmaps, fun j hj => hbelow j.val hj⟩
  · rintro ⟨i, rfl, hmaps, hbelow⟩
    exact ⟨i.isLt, hmaps, fun j hj => hbelow ⟨j, Nat.lt_trans hj i.isLt⟩ hj⟩

/-- The entry `i` maps the address, and no other does. -/
def OnlyMatch (t : Tlb) (i : TlbIndex) (address asid : UInt64) : Prop :=
  ∀ j, (t.get j).isMatch address asid = true ↔ j = i

/-- **An entry that maps the address**, written where no entry does, is the only one. -/
theorem onlyMatch_set {e : TlbEntry} (hnone : ∀ j, (t.get j).isMatch address asid = false)
    (hmatch : e.isMatch address asid = true) (i : TlbIndex) : (t.set i e).OnlyMatch i address asid := by
  intro j
  by_cases hj : j = i
  · subst hj
    rw [get_set_self, hmatch]
    exact ⟨fun _ => rfl, fun _ => rfl⟩
  · rw [get_set_of_ne t e (Ne.symm hj), hnone j]
    exact ⟨fun h => (by cases h), fun h => absurd h hj⟩

theorem OnlyMatch.lowest (h : t.OnlyMatch i address asid) : t.Lowest i address asid :=
  ⟨(h i).mpr rfl, fun j hj => Bool.not_eq_true _ ▸ mt (h j).mp (Fin.ne_of_lt hj)⟩

end Tlb

/-! ## Pages -/

namespace TlbEntry

/-- A page of an entry admits the access whose bits in EntryLo do. -/
theorem admits_page {access : Access} {mask hi lo0 lo1 : UInt64} (h0 : Admits access lo0) (h1 : Admits access lo1)
    (address : UInt64) : Admits access ((ofRegisters mask hi lo0 lo1).page address) := by
  have hkept {lo : UInt64} (h : Admits access lo) : Admits access (lo &&& pageBits) := by
    constructor
    · rw [UInt64.and_assoc, show pageBits &&& validBit = validBit by decide]
      exact h.valid
    · rw [UInt64.and_assoc, show pageBits &&& dirtyBit = dirtyBit by decide]
      exact h.dirty
  unfold page
  split
  · exact hkept h1
  · exact hkept h0

/-- The frame of a page is in the bits of its number. -/
theorem frame_and (lo : UInt64) {bits : UInt64} (hbits : bits >>> 6 &&& 0xFFFFF = 0xFFFFF) :
    frame (lo &&& bits) = frame lo := by
  have hshift : (lo &&& bits) >>> 6 = (lo >>> 6) &&& (bits >>> 6) := by
    apply UInt64.toBitVec_inj.mp
    exact BitVec.ushiftRight_and_distrib _ _ 6
  unfold frame
  rw [hshift, UInt64.and_assoc, hbits]

/-- An entry keeps it. -/
theorem frame_kept (lo : UInt64) : frame (lo &&& pageBits) = frame lo := frame_and lo (by decide)

/-- PageMask for pages of `4 ^ n` times the least size. -/
def sizeMask (n : Nat) : UInt64 := UInt64.ofNat ((4 ^ n - 1) * 0x2000)

/-- The size of these pages. -/
def pageSize (n : Nat) : Nat := 2 ^ (12 + 2 * n)

section

variable {n : Nat} (hn : n ≤ 6) (hi lo0 lo1 address : UInt64)

include hn

theorem masks_of_size :
    (ofRegisters (sizeMask n) hi lo0 lo1).offsetMask.toNat = 2 ^ (12 + 2 * n) - 1 ∧
      (ofRegisters (sizeMask n) hi lo0 lo1).oddBit.toNat = 2 ^ (12 + 2 * n) := by
  have hall : ∀ m : Fin 7,
      ((canonicalPageMask (sizeMask m) >>> 1) ||| 0xFFF).toNat = 2 ^ (12 + 2 * m.val) - 1 ∧
        (((canonicalPageMask (sizeMask m) >>> 1) ||| 0xFFF) + 1).toNat = 2 ^ (12 + 2 * m.val) := by
    decide
  exact hall ⟨n, by omega⟩

/-- **The offset** in a page of one of the sizes is the rest modulo the size. -/
theorem offset_of_size :
    (address &&& (ofRegisters (sizeMask n) hi lo0 lo1).offsetMask).toNat = address.toNat % pageSize n := by
  rw [UInt64.toNat_and, (masks_of_size hn hi lo0 lo1).1]
  exact Nat.and_two_pow_sub_one_eq_mod _ _

/-- **The page** is the odd one of the pair if the number of the page is odd. -/
theorem page_of_size :
    (ofRegisters (sizeMask n) hi lo0 lo1).page address =
      if address.toNat / pageSize n % 2 = 1 then lo1 &&& pageBits else lo0 &&& pageBits := by
  have hbit : (address &&& (ofRegisters (sizeMask n) hi lo0 lo1).oddBit).toNat =
      (decide (address.toNat / pageSize n % 2 = 1)).toNat * 2 ^ (12 + 2 * n) := by
    rw [UInt64.toNat_and, (masks_of_size hn hi lo0 lo1).2, Nat.and_two_pow, Nat.testBit_eq_decide_div_mod_eq]
    rfl
  unfold page
  by_cases hodd : address.toNat / pageSize n % 2 = 1
  · have hset : address &&& (ofRegisters (sizeMask n) hi lo0 lo1).oddBit ≠ 0 := by
      intro hzero
      rw [hzero, decide_eq_true hodd, Bool.toNat_true, Nat.one_mul] at hbit
      exact Nat.ne_of_lt (Nat.two_pow_pos (12 + 2 * n)) hbit
    rw [if_pos hodd, if_pos (bne_iff_ne.mpr hset)]
    rfl
  · have hclear : address &&& (ofRegisters (sizeMask n) hi lo0 lo1).oddBit = 0 := by
      rw [decide_eq_false hodd, Bool.toNat_false, Nat.zero_mul] at hbit
      exact UInt64.toNat_inj.mp hbit
    rw [if_neg hodd, hclear]
    rfl

end

end TlbEntry

end Vr4300
