import Vr4300.Proofs.Coherence
import Vr4300.Proofs.FastPath
import Vr4300.Proofs.Lanes
import Vr4300.Proofs.Refill
import Vr4300.Proofs.Translation

/-!
# `Proofs.Unaligned` — pairs of left and right forms

A number at an address that is not a multiple of its width lies in two containers. The left form is used at its first
byte and serves the lanes of the first container, the right form at its last byte and those of the second one; each byte
has a lane in one of them, and where it has one in both, they are the same byte of memory. So the order of the two is
free.

## Contents

* `Width.toNat_container`, `Cpu.resolve_inside`: a container that is resolved resolves its bytes;
* `Span.Lane`, `Span.exists_lane`: the bytes of the number and the lanes of the sides;
* `Cpu.LoadsSide`, `Cpu.StoresSide`, `executed_load`, `executed_store`: what one instruction does;
* `Cpu.Contains`, `Cpu.Located`: where containers and bytes are (`Located.injective`);
* `merged_pair`, `stored_pair`, and `unaligned_pairs`.
-/

namespace Vr4300

/-! ## Containers -/

/-- Numbers without common bits. -/
theorem add_eq_or {x y : UInt64} (h : x &&& y = 0) : x + y = x ||| y := by
  apply UInt64.toBitVec_inj.mp
  exact BitVec.add_eq_or_of_and_eq_zero _ _ (congrArg UInt64.toBitVec h)

namespace Width

theorem toNat_and_mask (w : Width) (va : UInt64) : (va &&& w.alignmentMask).toNat = va.toNat % w.bytes := by
  rw [UInt64.toNat_and]
  cases w with
  | byte => exact (Nat.and_zero _).trans (Nat.mod_one _).symm
  | half => exact Nat.and_two_pow_sub_one_eq_mod va.toNat 1
  | word => exact Nat.and_two_pow_sub_one_eq_mod va.toNat 2
  | double => exact Nat.and_two_pow_sub_one_eq_mod va.toNat 3

/-- An address is aligned if it is a multiple of the width. -/
theorem isAligned_iff (w : Width) (va : UInt64) : w.isAligned va = true ↔ va.toNat % w.bytes = 0 := by
  unfold isAligned
  rw [beq_iff_eq, ← UInt64.toNat_inj, toNat_and_mask]
  rfl

/-- **A container** begins at the last multiple of the width in front of an address. -/
theorem toNat_container (w : Width) (va : UInt64) :
    (va &&& ~~~w.alignmentMask).toNat = va.toNat - va.toNat % w.bytes := by
  have hsplit : (va &&& ~~~w.alignmentMask) + (va &&& w.alignmentMask) = va := by
    have hdisjoint : va &&& ~~~w.alignmentMask &&& (va &&& w.alignmentMask) = 0 := by
      rw [UInt64.and_assoc, UInt64.and_comm (~~~_), UInt64.and_assoc, UInt64.and_not_self, UInt64.and_zero,
        UInt64.and_zero]
    rw [add_eq_or hdisjoint]
    apply UInt64.toBitVec_inj.mp
    ext i hi
    cases hbit : va.toBitVec[i] <;> simp [hbit]
  have hle : (va &&& ~~~w.alignmentMask).toNat ≤ va.toNat := by
    rw [UInt64.toNat_and]
    exact Nat.and_le_left
  have hrest : va.toNat % w.bytes < 8 := by cases w <;> simp only [bytes] <;> omega
  have hsum := congrArg UInt64.toNat hsplit
  rw [UInt64.toNat_add, toNat_and_mask] at hsum
  have hlt := va.toNat_lt
  omega

section

variable {w : Width} {va : UInt64} {j : Nat} (hva : va.toNat % w.bytes = 0) (hj : j < w.bytes)

include hj in
/-- A place in a container is a place in a doubleword. -/
theorem and_place : UInt64.ofNat j &&& w.alignmentMask = UInt64.ofNat j ∧ UInt64.ofNat j &&& 7 = UInt64.ofNat j := by
  have hlt : j < 8 := by cases w <;> simp only [bytes] at hj <;> omega
  have hvalue : (UInt64.ofNat j).toNat = j := by
    rw [UInt64.toNat_ofNat']
    omega
  have hmask (k : Nat) (h : j < 2 ^ k) : j &&& (2 ^ k - 1) = j := Nat.and_two_pow_sub_one_of_lt_two_pow h
  rw [← UInt64.toNat_inj, ← UInt64.toNat_inj, UInt64.toNat_and, UInt64.toNat_and, hvalue]
  refine ⟨?_, hmask 3 hlt⟩
  cases w with
  | byte => exact hmask 0 hj
  | half => exact hmask 1 hj
  | word => exact hmask 2 hj
  | double => exact hmask 3 hj

include hva hj

/-- Addresses in a container do not wrap around. -/
theorem toNat_inside : (va + UInt64.ofNat j).toNat = va.toNat + j := by
  have hlt := va.toNat_lt
  rw [UInt64.toNat_add, UInt64.toNat_ofNat']
  cases w <;> simp only [bytes] at hva hj <;> omega

/-- The place in a container has bits of its own. -/
theorem and_inside : va &&& UInt64.ofNat j = 0 := by
  have haligned : va &&& w.alignmentMask = 0 := beq_iff_eq.mp ((w.isAligned_iff va).mpr hva)
  rw [← (and_place hj).1, UInt64.and_comm (UInt64.ofNat j), ← UInt64.and_assoc, haligned, UInt64.zero_and]

/-- A mask without the bits of a place in a doubleword makes no difference between the addresses in a container. -/
theorem and_inside_of_upper {mask : UInt64} (h : 7 &&& mask = 0) : (va + UInt64.ofNat j) &&& mask = va &&& mask := by
  rw [add_eq_or (and_inside hva hj), or_and_distrib, ← (and_place hj).2, UInt64.and_assoc, h, UInt64.and_zero,
    UInt64.or_zero]

/-- A mask with these bits keeps the place. -/
theorem and_inside_of_lower {mask : UInt64} (h : 7 &&& mask = 7) :
    (va + UInt64.ofNat j) &&& mask = (va &&& mask) + UInt64.ofNat j := by
  have hplace : UInt64.ofNat j &&& mask = UInt64.ofNat j := by
    rw [← (and_place hj).2, UInt64.and_assoc, h]
  have hdisjoint : va &&& mask &&& UInt64.ofNat j = 0 := by
    rw [UInt64.and_assoc, UInt64.and_comm mask, ← UInt64.and_assoc, and_inside hva hj, UInt64.zero_and]
  rw [add_eq_or (and_inside hva hj), or_and_distrib, hplace, add_eq_or hdisjoint]

end

end Width

namespace TlbEntry

/-- The page number has no bits of a place in a doubleword. -/
theorem vpnMask_upper (e : TlbEntry) : 7 &&& e.vpnMask = 0 := by
  unfold vpnMask pageNumberMask
  rw [UInt64.and_comm (~~~_), ← UInt64.and_assoc, show 7 &&& pageNumberBits = 0 by decide, UInt64.zero_and]

/-- The offset has all of them. -/
theorem offsetMask_lower (e : TlbEntry) : 7 &&& e.offsetMask = 7 := by
  have habsorb := and_or_and_left 7 0xFFF (e.pageMask >>> 1)
  rw [UInt64.or_comm, UInt64.and_assoc, UInt64.and_comm _ 0xFFF, ← UInt64.and_assoc,
    show (7 : UInt64) &&& 0xFFF = 7 by decide] at habsorb
  exact habsorb

/-- The bit that selects the odd page is another one. -/
theorem oddBit_upper (e : TlbEntry) : 7 &&& e.oddBit = 0 := by
  have hlower := congrArg UInt64.toNat e.offsetMask_lower
  rw [UInt64.and_comm, Lane.toNat_and_seven, show (7 : UInt64).toNat = 7 from rfl] at hlower
  rw [← UInt64.toNat_inj, UInt64.and_comm, Lane.toNat_and_seven]
  show (e.offsetMask + 1).toNat % 8 = 0
  rw [UInt64.toNat_add, show (1 : UInt64).toNat = 1 from rfl]
  omega

end TlbEntry

section

variable {w : Width} {va p : UInt64} {j : Nat} (hva : va.toNat % w.bytes = 0) (hj : j < w.bytes)
include hva hj

theorem Address.segment_inside : Address.segment (va + UInt64.ofNat j) = Address.segment va := by
  unfold Address.segment
  rw [Address.toNat_compat_shift, Address.toNat_compat_shift, Width.toNat_inside hva hj,
    show (va.toNat + j) % 2 ^ 32 / 2 ^ 29 = va.toNat % 2 ^ 32 / 2 ^ 29 by
      cases w <;> simp only [Width.bytes] at hva hj <;> omega]

/-- The entry that maps an address in a container maps the others. -/
theorem Tlb.find?_inside (t : Tlb) (asid : UInt64) : t.find? (va + UInt64.ofNat j) asid = t.find? va asid := by
  unfold find?
  refine congrArg (List.find? · _) (funext fun e => ?_)
  unfold TlbEntry.isMatch
  rw [Width.and_inside_of_upper hva hj e.vpnMask_upper]

/-- **A mapped container** is in one page. -/
theorem Tlb.translate_inside {t : Tlb} {access : Access} {asid : UInt64} (h : t.translate va access asid = .ok p) :
    p.toNat % w.bytes = 0 ∧ t.translate (va + UInt64.ofNat j) access asid = .ok (p + UInt64.ofNat j) := by
  unfold translate at h ⊢
  rw [find?_inside hva hj]
  cases hfind : t.find? va asid with
  | none => rw [hfind] at h; cases h
  | some e =>
    have hpage : e.page (va + UInt64.ofNat j) = e.page va := by
      unfold TlbEntry.page
      rw [Width.and_inside_of_upper hva hj e.oddBit_upper]
    rw [hfind] at h
    dsimp only at h ⊢
    rw [hpage]
    split at h
    · cases h
    · rename_i hvalid
      rw [if_neg hvalid]
      split at h
      · cases h
      · rename_i hdirty
        obtain rfl := Except.ok.inj h
        rw [if_neg hdirty, Width.and_inside_of_lower hva hj e.offsetMask_lower, ← UInt64.add_assoc]
        refine ⟨?_, rfl⟩
        have haligned : va &&& w.alignmentMask = 0 := beq_iff_eq.mp ((w.isAligned_iff va).mpr hva)
        have hoffset : (va &&& e.offsetMask).toNat % w.bytes = 0 := by
          rw [← Width.toNat_and_mask, UInt64.and_assoc, UInt64.and_comm e.offsetMask, ← UInt64.and_assoc, haligned,
            UInt64.zero_and]
          rfl
        rw [UInt64.toNat_add, TlbEntry.frame_toNat]
        cases w <;> simp only [Width.bytes] at hoffset ⊢ <;> omega

/-- **An address in a container** leads to its place behind the physical address of the container. -/
theorem Tlb.physical_inside {t : Tlb} {access : Access} {asid : UInt64} (h : t.physical va access asid = .ok p) :
    p.toNat % w.bytes = 0 ∧ t.physical (va + UInt64.ofNat j) access asid = .ok (p + UInt64.ofNat j) := by
  have hsegment := Address.segment_inside hva hj
  cases hmapped : (Address.segment va).isMapped with
  | true =>
    have hnone {a : UInt64} (ha : (Address.segment a).isMapped = true) :
        t.physical a access asid = t.translate a access asid := by
      unfold physical Address.unmappedPhysical?
      rw [ha, if_pos rfl]
    rw [hnone hmapped] at h
    rw [hnone (hsegment ▸ hmapped)]
    exact translate_inside hva hj h
  | false =>
    obtain ⟨q, hq, hvalue⟩ := t.physical_of_unmapped hmapped access asid
    obtain ⟨q', hq', hvalue'⟩ := t.physical_of_unmapped (hsegment ▸ hmapped) access asid
    obtain rfl := Except.ok.inj (h.symm.trans hq)
    rw [Width.toNat_inside hva hj] at hvalue'
    have haligned : p.toNat % w.bytes = 0 := by
      cases w <;> simp only [Width.bytes] at hva ⊢ <;> omega
    refine ⟨haligned, hq'.trans (congrArg Except.ok (UInt64.toNat_inj.mp ?_))⟩
    rw [Width.toNat_inside haligned hj]
    cases w <;> simp only [Width.bytes] at hva hj <;> omega

/-- **A container in main memory** is there as a whole: its bytes are at the places behind its physical address. -/
theorem Cpu.resolve_inside {c : Cpu} {access : Access} (h : c.resolve w access va = .ok (.ram p))
    (hin : c.ram.Within w p) :
    p.toNat % w.bytes = 0 ∧ c.resolve .byte access (va + UInt64.ofNat j) = .ok (.ram (p + UInt64.ofNat j)) := by
  have hbyte (va : UInt64) : Width.isAligned .byte va = true := (Width.isAligned_iff .byte va).mpr (Nat.mod_one _)
  have hin : p.toNat + w.bytes ≤ c.ram.size := hin
  have hplace : va + UInt64.ofNat j - Address.kseg0Base = va - Address.kseg0Base + UInt64.ofNat j := by
    rw [UInt64.sub_eq_add_neg, UInt64.sub_eq_add_neg, UInt64.add_assoc, UInt64.add_assoc,
      UInt64.add_comm (UInt64.ofNat j)]
  have hdistance : (va - Address.kseg0Base).toNat % w.bytes = 0 := by
    rw [UInt64.toNat_sub, show Address.kseg0Base.toNat = 2 ^ 64 - 2 ^ 31 from rfl]
    cases w <;> simp only [Width.bytes] at hva ⊢ <;> omega
  have haligned := (w.isAligned_iff va).mpr hva
  by_cases hwindow : (va - Address.kseg0Base).toNat < c.ram.size
  · obtain rfl := Location.ram.inj (Except.ok.inj ((resolve_of_window w access haligned hwindow).symm.trans h))
    refine ⟨hdistance, ?_⟩
    rw [← hplace]
    refine resolve_of_window .byte access (hbyte _) ?_
    rw [hplace, Width.toNat_inside hdistance hj]
    omega
  · have hfar := Nat.not_lt.mp hwindow
    have hphysical : c.tlb.physical va access c.asid = .ok p := by
      rw [resolve_far w access hfar] at h
      unfold resolveTranslated at h
      rw [if_pos haligned] at h
      cases hp : c.tlb.physical va access c.asid with
      | error t => rw [hp] at h; cases h
      | ok q =>
        rw [hp] at h
        have hlocation : (if q.toNat < c.ram.size then Location.ram q else .bus q) = .ram p := Except.ok.inj h
        split at hlocation
        · exact congrArg Except.ok (Location.ram.inj hlocation)
        · cases hlocation
    obtain ⟨hp, hinside⟩ := Tlb.physical_inside hva hj hphysical
    refine ⟨hp, ?_⟩
    rw [resolve_far .byte access (by rw [hplace, Width.toNat_inside hdistance hj]; omega)]
    refine resolveTranslated_of_physical .byte access (hbyte _) hinside ?_
    rw [Width.toNat_inside hp hj]
    omega

end

/-! ## Numbers across containers -/

namespace Span

/-- The load of one side. -/
def load : Span → Side → LoadOp
  | word, .left => .lwl
  | word, .right => .lwr
  | double, .left => .ldl
  | double, .right => .ldr

/-- The store of one side. -/
def store : Span → Side → StoreOp
  | word, .left => .swl
  | word, .right => .swr
  | double, .left => .sdl
  | double, .right => .sdr

/-- Where a form is used for the number at an address: at its first byte, or at its last one. -/
def address (span : Span) (a : UInt64) : Side → UInt64
  | .left => a
  | .right => a + span.width.alignmentMask

/-- The place of this address in its container. -/
def place (span : Span) (a : UInt64) (side : Side) : Nat := (span.address a side).toNat % span.bytes

/-- The container around it. -/
def container (span : Span) (a : UInt64) (side : Side) : UInt64 := span.address a side &&& ~~~span.width.alignmentMask

/-- The byte `i` of the number at an address is in the lane `j` of one side. -/
def Lane (span : Span) (a : UInt64) (side : Side) (i j : Nat) : Prop :=
  i < span.bytes ∧ j < span.bytes ∧ side.Lane span.bytes (span.place a side) i j

variable {span : Span} {a : UInt64} {side : Side} {i j : Nat}

/-- The place of the last byte follows from that of the first one. -/
theorem place_cases (span : Span) (a : UInt64) :
    span.place a .left < span.bytes ∧
      (span.place a .left = 0 ∧ span.place a .right + 1 = span.bytes ∨
        span.place a .left = span.place a .right + 1) := by
  unfold place address
  dsimp only
  rw [UInt64.toNat_add]
  cases span with
  | word =>
    show a.toNat % 4 < 4 ∧ (a.toNat % 4 = 0 ∧ (a.toNat + 3) % 2 ^ 64 % 4 + 1 = 4 ∨
      a.toNat % 4 = (a.toNat + 3) % 2 ^ 64 % 4 + 1)
    omega
  | double =>
    show a.toNat % 8 < 8 ∧ (a.toNat % 8 = 0 ∧ (a.toNat + 7) % 2 ^ 64 % 8 + 1 = 8 ∨
      a.toNat % 8 = (a.toNat + 7) % 2 ^ 64 % 8 + 1)
    omega

/-- **Each byte** of the number is in a lane of one of the sides. -/
theorem exists_lane {first second : Side} (h : first ≠ second) (hi : i < span.bytes)
    (hnone : ∀ j, ¬ span.Lane a second i j) : ∃ j, span.Lane a first i j := by
  obtain ⟨hplace, hcases⟩ := span.place_cases a
  cases first with
  | left =>
    cases second with
    | left => exact absurd rfl h
    | right =>
      have hright := hnone (i + span.place a .right + 1 - span.bytes)
      unfold Lane Side.Lane at hright
      exact ⟨i + span.place a .left, hi, by omega, rfl⟩
  | right =>
    cases second with
    | right => exact absurd rfl h
    | left =>
      have hleft := hnone (i + span.place a .left)
      unfold Lane Side.Lane at hleft
      exact ⟨i + span.place a .right + 1 - span.bytes, hi, by omega, show _ + _ = _ by omega⟩

theorem container_aligned (span : Span) (a : UInt64) (side : Side) :
    (span.container a side).toNat % span.width.bytes = 0 := by
  have hvalue := Width.toNat_container span.width (span.address a side)
  unfold container
  rw [hvalue]
  cases span <;> simp only [width, Width.bytes] <;> omega

/-- **A lane** leads to the address of the byte. -/
theorem Lane.address_eq (h : span.Lane a side i j) :
    a + UInt64.ofNat i = span.container a side + UInt64.ofNat j := by
  obtain ⟨hi, hj, hlane⟩ := h
  have hcontainer : (span.container a side).toNat = (span.address a side).toNat - span.place a side :=
    Width.toNat_container span.width _
  have hlt := a.toNat_lt
  rw [← UInt64.toNat_inj, Width.toNat_inside (span.container_aligned a side) hj, hcontainer, UInt64.toNat_add,
    UInt64.toNat_ofNat']
  cases side with
  | left =>
    have hlane : j = i + span.place a .left := hlane
    unfold place address at *
    cases span <;> simp only [bytes, width, Width.bytes] at * <;> omega
  | right =>
    have hlane : j + span.bytes = i + span.place a .right + 1 := hlane
    unfold place address at *
    simp only [UInt64.toNat_add] at *
    cases span with
    | word =>
      simp only [bytes, width, Width.bytes, Width.alignmentMask, show (3 : UInt64).toNat = 3 from rfl] at *
      omega
    | double =>
      simp only [bytes, width, Width.bytes, Width.alignmentMask, show (7 : UInt64).toNat = 7 from rfl] at *
      omega

end Span

/-! ## One instruction -/

namespace Cpu

/-- **The containers** of the number at an address lie in main memory, at given places. -/
structure Contains (c : Cpu) (span : Span) (access : Access) (a : UInt64) (places : Side → UInt64) : Prop where
  /-- They lead there. -/
  resolved : ∀ side, c.resolve span.width access (span.container a side) = .ok (.ram (places side))
  /-- They are inside. -/
  within : ∀ side, c.ram.Within span.width (places side)

/-- The word loads one side of the number at an address into a register, from which the address is not computed. -/
def LoadsSide (c : Cpu) (word : UInt32) (span : Span) (side : Side) (rt : Reg) (a : UInt64) : Prop :=
  ∃ base offset, Instruction.decode word = .load (span.load side) rt base offset ∧ base ≠ rt ∧
    c.regs.get base + offset = span.address a side

/-- The word stores one side of a register as the number at an address. -/
def StoresSide (c : Cpu) (word : UInt32) (span : Span) (side : Side) (rt : Reg) (a : UInt64) : Prop :=
  ∃ base offset, Instruction.decode word = .store (span.store side) rt base offset ∧
    c.regs.get base + offset = span.address a side

/-- The execution of a word. -/
def executing (c : Cpu) (word : UInt32) : Execution := ⟨c, word, c.planGuarded (.decode word)⟩

/-- The instruction completes. -/
def Completes (c : Cpu) (word : UInt32) : Prop :=
  ∃ retired, (c.executeWord word).1 = .ok retired ∧ retired.trapped = false

variable {c : Cpu} {word : UInt32} {span : Span} {side : Side} {rt : Reg} {a : UInt64} {places : Side → UInt64}

/-- What decides where addresses lead decides where accesses land. -/
theorem resolve_of_mapping {c' : Cpu} (h : c'.mapping = c.mapping) (w : Width) (access : Access) (va : UInt64) :
    c'.resolve w access va = c.resolve w access va := by
  have htlb : c'.tlb = c.tlb := congrArg Mapping.tlb h
  have hentry : c'.cp0.get Control.entryHi = c.cp0.get Control.entryHi := congrArg Mapping.entryHi h
  have hsize : c'.ram.size = c.ram.size := congrArg Mapping.ramSize h
  unfold resolve asid
  rw [htlb, hentry, hsize]

theorem Contains.of_mapping {access : Access} {c' : Cpu} (h : c.Contains span access a places)
    (hmapping : c'.mapping = c.mapping) : c'.Contains span access a places where
  resolved side := (resolve_of_mapping hmapping _ _ _).trans (h.resolved side)
  within side := by
    have hsize : c'.ram.size = c.ram.size := congrArg Mapping.ramSize hmapping
    unfold Ram.Within
    rw [hsize]
    exact h.within side

/-- **Where the bytes are.** -/
theorem Contains.byte {access : Access} (h : c.Contains span access a places) {i j : Nat}
    (hlane : span.Lane a side i j) :
    c.resolve .byte access (a + UInt64.ofNat i) = .ok (.ram (places side + UInt64.ofNat j)) ∧
      (places side + UInt64.ofNat j).toNat = (places side).toNat + j ∧ (places side).toNat % span.bytes = 0 := by
  obtain ⟨haligned, hresolve⟩ :=
    resolve_inside (span.container_aligned a side) hlane.2.1 (h.resolved side) (h.within side)
  rw [hlane.address_eq]
  exact ⟨hresolve, Width.toNat_inside haligned hlane.2.1, haligned⟩

/-- What a load of one side plans. -/
theorem planned_load (h : c.LoadsSide word span side rt a) (hc : c.Contains span .read a places) :
    (c.executing word).planned = .ok
      { effect := .load span.width (.ram (places side)) (.merged (span.merge side) rt (span.address a side)) } := by
  obtain ⟨base, offset, hword, -, haddress⟩ := h
  have hresolve : c.resolve span.width .read (span.address a side &&& ~~~span.width.alignmentMask) = _ :=
    hc.resolved side
  show c.planGuarded (.decode word) = _
  rw [hword, planGuarded_of_usable (by cases span <;> cases side <;> exact nofun)]
  have hplan : c.plan (.load (span.load side) rt base offset) =
      c.planMerge span.width (span.merge side) rt (span.address a side) := by
    rw [← haddress]
    cases span <;> cases side <;> rfl
  rw [hplan]
  unfold planMerge planLoad locate
  rw [hresolve]
  rfl

/-- What a store of one side plans. -/
theorem planned_store (h : c.StoresSide word span side rt a) (hc : c.Contains span .write a places) :
    (c.executing word).planned = .ok
      { effect :=
          .storeMasked span.width (.ram (places side))
            (span.masked side (c.regs.get rt) (span.address a side)).value
            (span.masked side (c.regs.get rt) (span.address a side)).mask } := by
  obtain ⟨base, offset, hword, haddress⟩ := h
  have hresolve : c.resolve span.width .write (span.masked side (c.regs.get rt) (span.address a side)).address =
      .ok (.ram (places side)) := by
    refine Eq.trans ?_ (hc.resolved side)
    cases span <;> cases side <;> rfl
  show c.planGuarded (.decode word) = _
  rw [hword, planGuarded_of_usable (by cases span <;> cases side <;> exact nofun)]
  have hplan : c.plan (.store (span.store side) rt base offset) =
      c.planMaskedStore span.width (span.masked side (c.regs.get rt) (span.address a side)) := by
    rw [← haddress]
    cases span <;> cases side <;> rfl
  rw [hplan]
  unfold planMaskedStore locate
  rw [hresolve]
  rfl

/-- An instruction whose plan is to carry out an effect completes, and leaves the registers and the memory of the
effect. -/
theorem executed_effect {e : Effect} (h : (c.executing word).planned = .ok { effect := e }) :
    c.Completes word ∧ (c.executeWord word).2.regs = (c.apply e).regs ∧
      (c.executeWord word).2.ram = (c.apply e).ram := by
  have hlasting := Execution.lasting_after (Execution.worked_of_plan h)
  refine ⟨?_, ?_, ?_⟩
  · have hplan : c.planGuarded (.decode word) = .ok { effect := e } := h
    unfold Completes executeWord execute
    dsimp only
    rw [hplan]
    exact ⟨_, rfl, rfl⟩
  · exact same_of_lasting hlasting (·.regs) fun _ => rfl
  · exact same_of_lasting hlasting (·.ram) fun _ => rfl

/-- The register behind a load of one side. -/
def merged (c : Cpu) (span : Span) (side : Side) (a : UInt64) (places : Side → UInt64) (old : UInt64) : UInt64 :=
  (span.merge side).apply old (c.ram.read span.width (places side)) (span.address a side)

/-- Main memory behind a store of one side. -/
def stored (c : Cpu) (span : Span) (side : Side) (a : UInt64) (places : Side → UInt64) (v : UInt64) : Ram :=
  c.ram.write span.width (places side)
    (span.stored side v (span.address a side) (c.ram.read span.width (places side)))

/-- **A load of one side** merges its container into the register. -/
theorem executed_load (h : c.LoadsSide word span side rt a) (hc : c.Contains span .read a places) :
    c.Completes word ∧
      (c.executeWord word).2.regs = c.regs.set rt (c.merged span side a places (c.regs.get rt)) ∧
      (c.executeWord word).2.ram = c.ram ∧ (c.executeWord word).2.mapping = c.mapping := by
  have hplanned := planned_load h hc
  obtain ⟨hcompletes, hregs, hram⟩ := executed_effect hplanned
  refine ⟨hcompletes, hregs, hram, ?_⟩
  exact Execution.mapping_after (e := c.executing word) (by unfold Execution.keepsMapping; rw [hplanned]; rfl)

/-- **A store of one side** merges the register into its container. -/
theorem executed_store (h : c.StoresSide word span side rt a) (hc : c.Contains span .write a places) :
    c.Completes word ∧ (c.executeWord word).2.regs = c.regs ∧
      (c.executeWord word).2.ram = c.stored span side a places (c.regs.get rt) ∧
      (c.executeWord word).2.mapping = c.mapping := by
  have hplanned := planned_store h hc
  obtain ⟨hcompletes, hregs, hram⟩ := executed_effect hplanned
  refine ⟨hcompletes, hregs, hram, ?_⟩
  exact Execution.mapping_after (e := c.executing word) (by unfold Execution.keepsMapping; rw [hplanned]; rfl)

/-- **The bytes of the register** behind a load of one side. -/
theorem digit_merged (side : Side) (hc : c.Contains span .read a places) (old : UInt64) {i : Nat}
    (hi : i < span.bytes) :
    (∀ j, span.Lane a side i j → Bytes.digit span.bytes i (c.merged span side a places old) =
      c.ram.byteAt ((places side).toNat + j)) ∧
    ((∀ j, ¬ span.Lane a side i j) →
      Bytes.digit span.bytes i (c.merged span side a places old) = Bytes.digit span.bytes i old) := by
  obtain ⟨htaken, hkept⟩ := digit_merge span side (span.address a side) old (c.ram.read span.width (places side)) hi
  constructor
  · intro j hlane
    exact (htaken j hlane.2.1 hlane.2.2).trans (Ram.digit_read (hc.within side) hlane.2.1)
  · intro hnone
    exact hkept fun j hj hlane => hnone j ⟨hi, hj, hlane⟩

/-- **The bytes of memory** behind a store of one side. -/
theorem byteAt_stored (side : Side) (hc : c.Contains span .write a places) (v : UInt64) :
    (∀ i j, span.Lane a side i j →
      (c.stored span side a places v).byteAt ((places side).toNat + j) = Bytes.digit span.bytes i v) ∧
    ∀ x, (∀ i j, span.Lane a side i j → (places side).toNat + j ≠ x) →
      (c.stored span side a places v).byteAt x = c.ram.byteAt x := by
  unfold stored
  have hdigit {j : Nat} (hj : j < span.bytes) :=
    digit_stored span side (span.address a side) v (c.ram.read span.width (places side)) hj
  constructor
  · intro i j hlane
    rw [Ram.byteAt_write (hc.within side), if_pos ⟨Nat.le_add_right _ _, Nat.add_lt_add_left hlane.2.1 _⟩,
      Nat.add_sub_cancel_left]
    exact (hdigit hlane.2.1).1 i hlane.1 hlane.2.2
  · intro x hx
    rw [Ram.byteAt_write (hc.within side)]
    split
    · rename_i hin
      have hj : x - (places side).toNat < span.bytes := show _ < span.width.bytes by omega
      have hnone : ∀ i < span.bytes, ¬ side.Lane span.bytes ((span.address a side).toNat % span.bytes) i
          (x - (places side).toNat) :=
        fun i hi hlane => hx i _ ⟨hi, hj, hlane⟩ (Nat.add_sub_cancel' hin.1)
      refine ((hdigit hj).2 hnone).trans ((Ram.digit_read (hc.within side) hj).trans ?_)
      rw [Nat.add_sub_cancel' hin.1]
    · rfl

/-! ## Where the bytes are -/

/-- The bytes of the number at an address are at given places of main memory. -/
def Located (c : Cpu) (span : Span) (access : Access) (a : UInt64) (locate : Nat → UInt64) : Prop :=
  ∀ i < span.bytes, c.resolve .byte access (a + UInt64.ofNat i) = .ok (.ram (locate i))

section

variable {access : Access} {locate : Nat → UInt64}

/-- Each byte is somewhere in one of the containers. -/
theorem Contains.exists_located (h : c.Contains span access a places) : ∃ locate, c.Located span access a locate := by
  have hbyte (i : Nat) : ∃ p, i < span.bytes → c.resolve .byte access (a + UInt64.ofNat i) = .ok (.ram p) := by
    by_cases hi : i < span.bytes
    · by_cases hright : ∃ j, span.Lane a .right i j
      · obtain ⟨j, hlane⟩ := hright
        exact ⟨_, fun _ => (h.byte hlane).1⟩
      · obtain ⟨j, hlane⟩ := Span.exists_lane (show Side.left ≠ .right by decide) hi (not_exists.mp hright)
        exact ⟨_, fun _ => (h.byte hlane).1⟩
    · exact ⟨0, fun hin => absurd hin hi⟩
  choose locate hlocate using hbyte
  exact ⟨locate, hlocate⟩

/-- **A lane** leads to the place of the byte. -/
theorem Located.eq_of_lane (hl : c.Located span access a locate) (h : c.Contains span access a places) {i j : Nat}
    (hlane : span.Lane a side i j) : (locate i).toNat = (places side).toNat + j := by
  obtain ⟨hresolve, hplace, -⟩ := h.byte hlane
  have heq := Location.ram.inj (Except.ok.inj ((hl i hlane.1).symm.trans hresolve))
  rw [heq, hplace]

/-- The place of a byte in its container is that of its address. -/
theorem Located.mod_bytes (hl : c.Located span access a locate) (h : c.Contains span access a places) {i : Nat}
    (hi : i < span.bytes) : (locate i).toNat % span.bytes = (a.toNat + i) % span.bytes := by
  have hlane {side : Side} {j : Nat} (hlane : span.Lane a side i j) :
      (locate i).toNat % span.bytes = (a.toNat + i) % span.bytes := by
    have haligned := span.container_aligned a side
    have haddress := congrArg UInt64.toNat hlane.address_eq
    rw [Width.toNat_inside haligned hlane.2.1, UInt64.toNat_add, UInt64.toNat_ofNat'] at haddress
    obtain ⟨-, -, hplaces⟩ := h.byte hlane
    rw [hl.eq_of_lane h hlane]
    have hj := hlane.2.1
    cases span <;> simp only [Span.bytes, Span.width, Width.bytes] at * <;> omega
  by_cases hright : ∃ j, span.Lane a .right i j
  · exact hlane hright.choose_spec
  · obtain ⟨j, hleft⟩ := Span.exists_lane (show Side.left ≠ .right by decide) hi (not_exists.mp hright)
    exact hlane hleft

/-- **Different bytes** are at different places. -/
theorem Located.injective (hl : c.Located span access a locate) (h : c.Contains span access a places) {i i' : Nat}
    (hi : i < span.bytes) (hi' : i' < span.bytes) (heq : (locate i).toNat = (locate i').toNat) : i = i' := by
  have hmod := hl.mod_bytes h hi
  rw [heq, hl.mod_bytes h hi'] at hmod
  cases span <;> simp only [Span.bytes, Span.width, Width.bytes] at * <;> omega

end

/-! ## Pairs -/

/-- **A pair of loads** assembles the number. -/
theorem merged_pair {first second : Side} (h : first ≠ second) (hc : c.Contains span .read a places)
    {locate : Nat → UInt64} (hl : c.Located span .read a locate) (old : UInt64) :
    c.merged span second a places (c.merged span first a places old) =
      span.width.signExtend (Bytes.assemble (fun i => c.ram.byteAt (locate i).toNat) span.bytes) := by
  refine Span.Extended.eq_of_digits (extended_merge span h _ _ _ _ _) fun i hi => ?_
  obtain ⟨htaken, hkept⟩ := digit_merged second hc (c.merged span first a places old) hi
  by_cases hsecond : ∃ j, span.Lane a second i j
  · obtain ⟨j, hlane⟩ := hsecond
    exact (htaken j hlane).trans (congrArg c.ram.byteAt (hl.eq_of_lane hc hlane).symm)
  · obtain ⟨j, hlane⟩ := Span.exists_lane h hi (not_exists.mp hsecond)
    refine (hkept (not_exists.mp hsecond)).trans (((digit_merged first hc old hi).1 j hlane).trans ?_)
    exact congrArg c.ram.byteAt (hl.eq_of_lane hc hlane).symm

/-- **A pair of stores** takes the number apart, and leaves all other bytes. -/
theorem stored_pair {first second : Side} (h : first ≠ second) (hc : c.Contains span .write a places)
    {locate : Nat → UInt64} (hl : c.Located span .write a locate) {v : UInt64} {c' : Cpu}
    (hmapping : c'.mapping = c.mapping) (hram : c'.ram = c.stored span first a places v) :
    (∀ i < span.bytes, (c'.stored span second a places v).byteAt (locate i).toNat = Bytes.digit span.bytes i v) ∧
      ∀ x, (∀ i < span.bytes, (locate i).toNat ≠ x) →
        (c'.stored span second a places v).byteAt x = c.ram.byteAt x := by
  obtain ⟨hfirst, hothers⟩ := byteAt_stored first hc v
  obtain ⟨hsecond, hothers'⟩ := byteAt_stored second (hc.of_mapping hmapping) v
  rw [← hram] at hfirst hothers
  refine ⟨fun i hi => ?_, fun x hx => ?_⟩
  · by_cases hlast : ∃ j, span.Lane a second i j
    · obtain ⟨j, hlane⟩ := hlast
      rw [hl.eq_of_lane hc hlane]
      exact hsecond i j hlane
    · -- the second store has no lane for the byte of the first one
      obtain ⟨j, hlane⟩ := Span.exists_lane h hi (not_exists.mp hlast)
      have hkept : ∀ i' j', span.Lane a second i' j' → (places second).toNat + j' ≠ (locate i).toNat := by
        intro i' j' hlane' heq
        rw [← hl.eq_of_lane hc hlane'] at heq
        obtain rfl := hl.injective hc hlane'.1 hi heq
        exact hlast ⟨j', hlane'⟩
      rw [hothers' _ hkept, hl.eq_of_lane hc hlane]
      exact hfirst i j hlane
  · have houtside {side : Side} (i j : Nat) (hlane : span.Lane a side i j) : (places side).toNat + j ≠ x := by
      rw [← hl.eq_of_lane hc hlane]
      exact hx i hlane.1
    exact (hothers' x houtside).trans (hothers x houtside)

end Cpu

/-- Between instructions the general registers are kept. -/
theorem Quiet.regs {a b : Cpu} (h : Quiet a b) : b.regs = a.regs := by
  cases h with
  | sample => rfl
  | interrupt =>
    obtain ⟨cp0, pc, fpr, usable, pending, statistics, heq⟩ := a.takeException_frame .interrupt a.inDelaySlot
    rw [Cpu.deliverInterrupt, heq]
  | outside => rfl

/-- **Behind the instruction** the next one finds the registers, the memory and the mapping that it left. -/
theorem Chain.kept {a b : Cpu} (h : Chain a [] b) : b.regs = a.regs ∧ b.ram = a.ram ∧ b.mapping = a.mapping := by
  refine ⟨h.same (·.regs) (fun _ _ hq => hq.regs) ?_, h.ram ?_, h.mapping ?_⟩ <;>
  · intro e he
    exact absurd he List.not_mem_nil

open Cpu in
/-- **Left and right pairs access numbers at all addresses.** If the containers of the number at an address are in main
memory, the two forms, used in either order at its first and at its last byte, complete. As loads they leave the number
of its bytes, with the most significant one first and a word sign-extended, in the register, and nothing else changes
among registers and main memory. As stores they write the bytes of the register there, and no other byte of main memory
and no register changes. -/
theorem unaligned_pairs (span : Span) {first second : Side} (hsides : first ≠ second) {c c' : Cpu} {x y : UInt32}
    {rt : Reg} {a : UInt64} {places : Side → UInt64} (hbetween : Chain (c.executeWord x).2 [] c') :
    (c.LoadsSide x span first rt a → c.LoadsSide y span second rt a → c.Contains span .read a places →
      c.Completes x ∧ c'.Completes y ∧ ∃ locate, c.Located span .read a locate ∧
        (c'.executeWord y).2.regs = c.regs.set rt
          (span.width.signExtend (Bytes.assemble (fun i => c.ram.byteAt (locate i).toNat) span.bytes)) ∧
        (c'.executeWord y).2.ram = c.ram) ∧
    (c.StoresSide x span first rt a → c.StoresSide y span second rt a → c.Contains span .write a places →
      c.Completes x ∧ c'.Completes y ∧ ∃ locate, c.Located span .write a locate ∧
        (∀ i < span.bytes,
          (c'.executeWord y).2.ram.byteAt (locate i).toNat = Bytes.digit span.bytes i (c.regs.get rt)) ∧
        (∀ p, (∀ i < span.bytes, (locate i).toNat ≠ p) → (c'.executeWord y).2.ram.byteAt p = c.ram.byteAt p) ∧
        (c'.executeWord y).2.regs = c.regs) := by
  obtain ⟨hregs', hram', hmapping'⟩ := hbetween.kept
  constructor
  · intro hx hy hc
    obtain ⟨hcompletes, hregs, hram, hmapping⟩ := executed_load hx hc
    rw [hregs] at hregs'
    rw [hram] at hram'
    rw [hmapping] at hmapping'
    have hy' : c'.LoadsSide y span second rt a := by
      obtain ⟨base, offset, hword, hbase, haddress⟩ := hy
      refine ⟨base, offset, hword, hbase, ?_⟩
      rw [hregs', GeneralRegisters.get_set_of_ne _ _ (Ne.symm hbase)]
      exact haddress
    obtain ⟨hcompletes', hregs'', hram'', -⟩ := executed_load hy' (hc.of_mapping hmapping')
    obtain ⟨locate, hl⟩ := hc.exists_located
    refine ⟨hcompletes, hcompletes', locate, hl, ?_, hram''.trans hram'⟩
    rw [hregs'', hregs', GeneralRegisters.set_set]
    by_cases hrt : rt = 0
    · rw [hrt, GeneralRegisters.set_zero, GeneralRegisters.set_zero]
    · rw [GeneralRegisters.get_set_self _ _ hrt, ← merged_pair hsides hc hl (c.regs.get rt)]
      unfold merged
      rw [hram']
  · intro hx hy hc
    obtain ⟨hcompletes, hregs, hram, hmapping⟩ := executed_store hx hc
    rw [hregs] at hregs'
    rw [hram] at hram'
    rw [hmapping] at hmapping'
    have hy' : c'.StoresSide y span second rt a := by
      obtain ⟨base, offset, hword, haddress⟩ := hy
      exact ⟨base, offset, hword, (congrArg (·.get base + offset) hregs').trans haddress⟩
    obtain ⟨hcompletes', hregs'', hram'', -⟩ := executed_store hy' (hc.of_mapping hmapping')
    obtain ⟨locate, hl⟩ := hc.exists_located
    obtain ⟨hwritten, hkept⟩ := stored_pair hsides hc hl hmapping' hram'
    rw [hram'', hregs']
    exact ⟨hcompletes, hcompletes', locate, hl, hwritten, hkept, hregs''.trans hregs'⟩

/-- A word is stored across the end of a word of main memory, the right form first, and loaded from there, the left form
first. -/
theorem unaligned_pairs_across :
    let start :=
      (Machine.create { general := { startPc := 0xFFFFFFFF80000000 }, memory := { ramSize := 32 } } {} {}).cpu
    let c := { start with regs := (start.regs.set 8 0xFFFFFFFF80000000).set 9 0xAABBCCDD }
    let c1 := (c.executeWord 0xB9090014).2
    let c2 := (c1.executeWord 0xA9090011).2
    let c3 := (c2.executeWord 0x890A0011).2
    let c4 := (c3.executeWord 0x990A0014).2
    (∀ i < 4, c2.ram.byteAt (0x11 + i) = Bytes.digit 4 i 0xAABBCCDD) ∧
      c4.regs = c2.regs.set 10 0xFFFFFFFFAABBCCDD := by
  intro start c c1 c2 c3 c4
  let places : Side → UInt64 := fun side => if side = .left then 0x10 else 0x14
  have hwrite : c.Contains .word .write 0xFFFFFFFF80000011 places :=
    ⟨by rintro ⟨⟩ <;> decide +kernel, by rintro ⟨⟩ <;> decide +kernel⟩
  have hread : c2.Contains .word .read 0xFFFFFFFF80000011 places :=
    ⟨by rintro ⟨⟩ <;> decide +kernel, by rintro ⟨⟩ <;> decide +kernel⟩
  have hright : c.StoresSide 0xB9090014 .word .right 9 0xFFFFFFFF80000011 :=
    ⟨8, 0x14, by decide +kernel, by decide +kernel⟩
  have hleft : c.StoresSide 0xA9090011 .word .left 9 0xFFFFFFFF80000011 :=
    ⟨8, 0x11, by decide +kernel, by decide +kernel⟩
  have hleft' : c2.LoadsSide 0x890A0011 .word .left 10 0xFFFFFFFF80000011 :=
    ⟨8, 0x11, by decide +kernel, by decide, by decide +kernel⟩
  have hright' : c2.LoadsSide 0x990A0014 .word .right 10 0xFFFFFFFF80000011 :=
    ⟨8, 0x14, by decide +kernel, by decide, by decide +kernel⟩
  obtain ⟨-, -, locate, hlocated, hwritten, -, -⟩ :=
    (unaligned_pairs .word (by decide) (.nil c1)).2 hright hleft hwrite
  obtain ⟨-, -, locate', hlocated', hregs, -⟩ := (unaligned_pairs .word (by decide) (.nil c3)).1 hleft' hright' hread
  have hplace : ∀ i < 4, (UInt64.ofNat (0x11 + i)).toNat = 0x11 + i := by decide
  have hin : ∀ i < 4, c.resolve .byte .write (0xFFFFFFFF80000011 + UInt64.ofNat i) =
      .ok (.ram (UInt64.ofNat (0x11 + i))) := by decide +kernel
  have hin' : ∀ i < 4, c2.resolve .byte .read (0xFFFFFFFF80000011 + UInt64.ofNat i) =
      .ok (.ram (UInt64.ofNat (0x11 + i))) := by decide +kernel
  have hbyte : ∀ i < 4, c2.ram.byteAt (0x11 + i) = Bytes.digit 4 i 0xAABBCCDD := by
    intro i hi
    have hlocate := Location.ram.inj (Except.ok.inj ((hlocated i hi).symm.trans (hin i hi)))
    rw [← hplace i hi, ← hlocate]
    exact hwritten i hi
  have hloaded : ∀ i < 4, c2.ram.byteAt (locate' i).toNat = Bytes.digit 4 i 0xAABBCCDD := by
    intro i hi
    have hlocate := Location.ram.inj (Except.ok.inj ((hlocated' i hi).symm.trans (hin' i hi)))
    rw [hlocate, hplace i hi]
    exact hbyte i hi
  refine ⟨hbyte, hregs.trans (congrArg (c2.regs.set 10) ?_)⟩
  show signExtendWord (Bytes.assemble _ 4) = _
  simp only [Bytes.assemble, hloaded 0 (by decide), hloaded 1 (by decide), hloaded 2 (by decide), hloaded 3 (by decide)]
  decide

end Vr4300
