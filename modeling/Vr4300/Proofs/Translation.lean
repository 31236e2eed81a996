import Vr4300.Proofs.TlbEntries

/-!
# `Proofs.Translation` — translation against the reference

For every content of the TLB, an address is translated through the entry that a probe for its page reports, and
misses if the probe fails. What an entry maps is told from the registers that it was written from, in the numbers of
the architecture: the region, the address bits above a pair of pages, the address space, and the number of the frame.

## Contents

* `TlbEntry.SamePair`, `TlbEntry.SharesSpace`: when registers describe an address; `isMatch_of_size`.
* `TlbEntry.frameNumber`, `physical_of_size`: the physical address.
* `translation_refines_probe`: translation, for every content.
-/

namespace Vr4300

namespace TlbEntry

/-! ## The pair of pages -/

/-- EntryHi names the pair of pages of an address: they agree in the region and in the address bits above a pair. -/
def SamePair (n : Nat) (address hi : UInt64) : Prop :=
  address.toNat / 2 ^ 62 = hi.toNat / 2 ^ 62 ∧
    address.toNat % 2 ^ 40 / (2 * pageSize n) = hi.toNat % 2 ^ 40 / (2 * pageSize n)

/-- The registers describe an entry of the address space: EntryHi names it, or both pages are global. -/
def SharesSpace (asid hi lo0 lo1 : UInt64) : Prop :=
  asid.toNat % 256 = hi.toNat % 256 ∨ lo0.toNat % 2 = 1 ∧ lo1.toNat % 2 = 1

/-- Under a mask, words are equal that agree in its bits. -/
theorem and_eq_and_iff (a b mask : UInt64) :
    a &&& mask = b &&& mask ↔ ∀ k < 64, mask.toNat.testBit k = true → a.toNat.testBit k = b.toNat.testBit k := by
  rw [← UInt64.toNat_inj, UInt64.toNat_and, UInt64.toNat_and]
  constructor
  · intro h k _ hk
    have hbit := congrArg (Nat.testBit · k) h
    simpa [Nat.testBit_and, hk] using hbit
  · intro h
    refine Nat.eq_of_testBit_eq fun k => ?_
    rw [Nat.testBit_and, Nat.testBit_and]
    cases hk : mask.toNat.testBit k with
    | false => rw [Bool.and_false, Bool.and_false]
    | true =>
      have hlt : k < 64 := Nat.lt_of_not_le fun hle => by
        rw [Nat.testBit_lt_two_pow (lt_of_lt_of_le mask.toNat_lt (Nat.pow_le_pow_right (by decide) hle))] at hk
        cases hk
      rw [h k hlt hk]

/-- The page number of an entry with pages of one of the sizes: the region, and the bits above a pair up to bit 39. -/
theorem pageNumberMask_of_size (n : Fin 7) (k : Fin 64) :
    (pageNumberMask (canonicalPageMask (sizeMask n))).toNat.testBit k =
      decide (62 ≤ k.val ∨ 13 + 2 * n.val ≤ k.val ∧ k.val < 40) := by
  revert n k
  decide +kernel

/-- The bits of a field of a number are the bits of the number there. -/
theorem div_mod_eq_iff (a b lo hi : Nat) : a % 2 ^ hi / 2 ^ lo = b % 2 ^ hi / 2 ^ lo ↔
    ∀ k, lo ≤ k → k < hi → a.testBit k = b.testBit k := by
  constructor
  · intro h k hlo hhi
    have hbit := congrArg (Nat.testBit · (k - lo)) h
    simpa [Nat.testBit_div_two_pow, Nat.testBit_mod_two_pow, Nat.sub_add_cancel hlo, hhi] using hbit
  · intro h
    refine Nat.eq_of_testBit_eq fun k => ?_
    rw [Nat.testBit_div_two_pow, Nat.testBit_div_two_pow, Nat.testBit_mod_two_pow, Nat.testBit_mod_two_pow]
    by_cases hk : k + lo < hi
    · rw [h _ (Nat.le_add_left _ _) hk]
    · rw [decide_eq_false hk, Bool.false_and, Bool.false_and]

theorem samePair_iff (n : Fin 7) (address hi : UInt64) :
    address &&& pageNumberMask (canonicalPageMask (sizeMask n)) =
        hi &&& pageNumberMask (canonicalPageMask (sizeMask n)) ↔ SamePair n address hi := by
  have hregion : address.toNat / 2 ^ 62 = hi.toNat / 2 ^ 62 ↔
      ∀ k, 62 ≤ k → k < 64 → address.toNat.testBit k = hi.toNat.testBit k := by
    rw [← div_mod_eq_iff, Nat.mod_eq_of_lt address.toNat_lt, Nat.mod_eq_of_lt hi.toNat_lt]
  have hsize : 2 * pageSize n = 2 ^ (13 + 2 * n.val) := by
    rw [show 13 + 2 * n.val = 12 + 2 * n.val + 1 by omega, Nat.pow_succ']
    rfl
  unfold SamePair
  rw [and_eq_and_iff, hregion, hsize, div_mod_eq_iff]
  have hbit {k : Nat} (hk : k < 64) := pageNumberMask_of_size n ⟨k, hk⟩
  constructor
  · intro h
    exact ⟨fun k hlo hhi => h k hhi (by rw [hbit hhi]; exact decide_eq_true (.inl hlo)),
      fun k hlo hhi => h k (by omega) (by rw [hbit (by omega)]; exact decide_eq_true (.inr ⟨hlo, hhi⟩))⟩
  · rintro ⟨hhigh, hlow⟩ k hk hmask
    rw [hbit hk, decide_eq_true_eq] at hmask
    exact hmask.elim (fun hlo => hhigh k hlo hk) fun h => hlow k h.1 h.2

/-! ## The address space -/

/-- An entry is global if both of its pages are. -/
theorem isGlobal_iff (e : TlbEntry) :
    e.isGlobal = true ↔ e.entryLo0.toNat % 2 = 1 ∧ e.entryLo1.toNat % 2 = 1 := by
  have hone : globalBit.toNat = 1 := rfl
  unfold isGlobal
  rw [bne_iff_ne, ne_eq, ← UInt64.toNat_inj, UInt64.toNat_and, hone, Nat.and_one_is_mod, UInt64.toNat_zero,
    ← ne_eq, Nat.mod_two_ne_zero, UInt64.toNat_and, Nat.and_mod_two_eq_one]

theorem isGlobal_ofRegisters (mask hi lo0 lo1 : UInt64) :
    (ofRegisters mask hi lo0 lo1).isGlobal = true ↔ lo0.toNat % 2 = 1 ∧ lo1.toNat % 2 = 1 := by
  have hkept (lo : UInt64) : (lo &&& pageBits).toNat % 2 = 1 ↔ lo.toNat % 2 = 1 := by
    rw [UInt64.toNat_and, Nat.and_mod_two_eq_one]
    exact and_iff_left (by decide)
  rw [isGlobal_iff]
  exact and_congr (hkept lo0) (hkept lo1)

theorem asid_eq_iff (asid hi : UInt64) : hi &&& asidBits = asid &&& asidBits ↔ asid.toNat % 256 = hi.toNat % 256 := by
  have hbits (x : UInt64) : (x &&& asidBits).toNat = x.toNat % 256 := by
    rw [UInt64.toNat_and]
    exact Nat.and_two_pow_sub_one_eq_mod _ 8
  rw [← UInt64.toNat_inj, hbits, hbits]
  exact eq_comm

/-- **What an entry maps**, told from the registers: the addresses of a pair of pages, in the address space. -/
theorem isMatch_of_size (n : Fin 7) (hi lo0 lo1 address asid : UInt64) :
    (ofRegisters (sizeMask n) hi lo0 lo1).isMatch address asid = true ↔
      SamePair n address hi ∧ SharesSpace asid hi lo0 lo1 := by
  unfold isMatch SharesSpace
  rw [ofRegisters_vpn, ofRegisters_asid, Bool.and_eq_true, Bool.or_eq_true, beq_iff_eq, beq_iff_eq, vpnMask,
    ofRegisters_pageMask, samePair_iff, isGlobal_ofRegisters, asid_eq_iff]
  exact and_congr_right' or_comm

/-! ## The physical address -/

/-- The number of the frame that a register gives to its page. -/
def frameNumber (lo : UInt64) : Nat := lo.toNat / 2 ^ 6 % 2 ^ 20

theorem frame_toNat (lo : UInt64) : (frame lo).toNat = frameNumber lo * 4096 := by
  have hlt : frameNumber lo < 2 ^ 20 := Nat.mod_lt _ (by decide)
  have hnumber : ((lo >>> 6) &&& 0xFFFFF).toNat = frameNumber lo := by
    rw [UInt64.toNat_and, UInt64.toNat_shiftRight, Nat.shiftRight_eq_div_pow]
    exact Nat.and_two_pow_sub_one_eq_mod _ 20
  unfold frame
  rw [UInt64.toNat_shiftLeft, hnumber, Nat.shiftLeft_eq, Nat.mod_eq_of_lt]
  · rfl
  · calc frameNumber lo * 2 ^ (12 : Nat) < 2 ^ 20 * 2 ^ 12 := by omega
      _ < 2 ^ 64 := by decide

/-- **The physical address** of a page of one of the sizes. -/
theorem physical_of_size (n : Fin 7) (hi lo0 lo1 address : UInt64) :
    (frame ((ofRegisters (sizeMask n) hi lo0 lo1).page address) +
      (address &&& (ofRegisters (sizeMask n) hi lo0 lo1).offsetMask)).toNat =
      frameNumber (if address.toNat / pageSize n % 2 = 1 then lo1 else lo0) * 4096 + address.toNat % pageSize n := by
  have hn : n.val ≤ 6 := by omega
  have hframe : frame ((ofRegisters (sizeMask n) hi lo0 lo1).page address) =
      frame (if address.toNat / pageSize n % 2 = 1 then lo1 else lo0) := by
    rw [page_of_size hn]
    split <;> exact frame_kept _
  have hnumber : frameNumber (if address.toNat / pageSize n % 2 = 1 then lo1 else lo0) < 2 ^ 20 :=
    Nat.mod_lt _ (by decide)
  have hoffset : address.toNat % pageSize n < 2 ^ 24 :=
    lt_of_lt_of_le (Nat.mod_lt _ (Nat.two_pow_pos _)) (Nat.pow_le_pow_right (by decide) (by omega))
  rw [UInt64.toNat_add, hframe, frame_toNat, offset_of_size hn, Nat.mod_eq_of_lt]
  omega

end TlbEntry

/-! ## Translation -/

open TlbEntry

/-- **Translation** goes through the entry that a probe for the page of the address and the address space reports,
which is the lowest one that maps it, and misses if the probe fails. A page that is not valid is refused first, then a
store to a page that may not be written. An entry with pages of one of the sizes maps the addresses that agree with
EntryHi in the region and above a pair of pages, if the address space does or both pages are global. What it maps is
found in the frame of the page with the parity of the page number, at the same offset. -/
theorem translation_refines_probe (t : Tlb) (address asid : UInt64) (access : Access) :
    (t.translate address access asid = .error (access.refill address) ↔
      t.probe? (pageHi address (asid &&& asidBits)) = none) ∧
    (∀ k, t.probe? (pageHi address (asid &&& asidBits)) = some k → ∃ i : TlbIndex, k = i.val ∧
      t.Lowest i address asid ∧ (t.get i).Gives address access (t.translate address access asid) ∧
      ∀ (n : Fin 7) (hi lo0 lo1 : UInt64), t.get i = ofRegisters (sizeMask n) hi lo0 lo1 →
        ∀ p, t.translate address access asid = .ok p →
          p.toNat = frameNumber (if address.toNat / pageSize n % 2 = 1 then lo1 else lo0) * 4096 +
            address.toNat % pageSize n) ∧
    ∀ (n : Fin 7) (hi lo0 lo1 : UInt64), (ofRegisters (sizeMask n) hi lo0 lo1).isMatch address asid = true ↔
      SamePair n address hi ∧ SharesSpace asid hi lo0 lo1 := by
  refine ⟨⟨fun hrefill => ?_, fun hprobe => ?_⟩, fun k hk => ?_,
    fun n hi lo0 lo1 => isMatch_of_size n hi lo0 lo1 address asid⟩
  · -- an entry that a probe reports would be gone through
    rw [Option.eq_none_iff_forall_ne_some]
    intro k hk
    obtain ⟨i, -, hlowest⟩ := (Tlb.probe?_eq_some_iff standsFor_page).mp hk
    exact (hlowest.translate access).ne_refill hrefill
  · exact Tlb.translate_of_absent access ((Tlb.probe?_eq_none_iff standsFor_page).mp hprobe)
  · obtain ⟨i, rfl, hlowest⟩ := (Tlb.probe?_eq_some_iff standsFor_page).mp hk
    have hgives := hlowest.translate access
    refine ⟨i, rfl, hlowest, hgives, fun n hi lo0 lo1 hwritten p hp => ?_⟩
    rw [hp] at hgives
    rw [hgives.physical_eq, hwritten]
    exact physical_of_size n hi lo0 lo1 address

/-- A pair of pages of 16 KiB in address space 10, after a write of entry 5. -/
def Tlb.onePair : Tlb := ({} : Tlb).set 5 (ofRegisters (sizeMask 1) 0x10000A 0x10006 0x20006)

/-- A store to the odd page, with more bits than the address space has. -/
theorem translation_refines_probe_odd :
    Tlb.onePair.probe? (pageHi 0x104ABC (0x10A &&& asidBits)) = some 5 ∧
      Tlb.onePair.translate 0x104ABC .write 0x10A = .ok 0x800ABC ∧
      (0x800ABC : UInt64).toNat = frameNumber 0x20006 * 4096 + 0x104ABC % pageSize 1 := by
  have hprobe : Tlb.onePair.probe? (pageHi 0x104ABC (0x10A &&& asidBits)) = some 5 := by decide +kernel
  have htranslate : Tlb.onePair.translate 0x104ABC .write 0x10A = .ok 0x800ABC := by decide +kernel
  obtain ⟨-, hreported, -⟩ := translation_refines_probe Tlb.onePair 0x104ABC 0x10A .write
  obtain ⟨i, hi, -, -, hsize⟩ := hreported 5 hprobe
  obtain rfl : i = 5 := Fin.ext hi.symm
  exact ⟨hprobe, htranslate, hsize 1 0x10000A 0x10006 0x20006 (Tlb.get_set_self _ _ _) _ htranslate⟩

end Vr4300
