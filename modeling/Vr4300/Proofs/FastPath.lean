import Vr4300.Proofs.Addresses
import Vr4300.Cpu.Memory

/-!
# `Proofs.FastPath` — addresses that are not looked up

From the base of `kseg0` on, an address is not translated if its distance from there falls into main memory. The
distance is taken in 64 bits, while segments are told apart by the low 32 bits alone, and physical addresses of the
unmapped segments have 29 bits. The two agree for the 512 MiB of `kseg0`. There the second window begins, which leads
to physical address zero again: in a larger memory the first address behind `kseg0` is served at another place than
the one it leads to.

## Contents

* `Cpu.resolveTranslated`: where accesses land if every address is translated;
* `segment_of_near`, `physical_of_unmapped`: where the windows lead;
* `resolve_near`, `resolve_far`: the addresses on which both agree, `resolve_behind`: one on which they do not;
* `fast_path_transparent_iff`.
-/

namespace Vr4300

namespace Address

/-- The addresses of `kseg0` with their sign are the 512 MiB from its base on. -/
theorem toNat_of_near {a : UInt64} (h : (a - kseg0Base).toNat < 2 ^ 29) :
    a.toNat % 2 ^ 32 / 2 ^ 29 = 4 ∧ a.toNat % 2 ^ 29 = (a - kseg0Base).toNat := by
  have ha := congrArg UInt64.toNat (UInt64.sub_add_cancel a kseg0Base)
  rw [UInt64.toNat_add, show kseg0Base.toNat = 2 ^ 64 - 2 ^ 31 from rfl] at ha
  omega

end Address

/-- **An unmapped address** leads to its low 29 bits, whatever the entries say. -/
theorem Tlb.physical_of_unmapped (t : Tlb) {a : UInt64} (h : (Address.segment a).isMapped = false) (access : Access)
    (asid : UInt64) : ∃ p, t.physical a access asid = .ok p ∧ p.toNat = a.toNat % 2 ^ 29 := by
  have hunmapped : Address.unmappedPhysical? a = some (Address.compat a &&& 0x1FFFFFFF).toUInt64 := by
    unfold Address.unmappedPhysical?
    rw [h, if_neg Bool.false_ne_true]
  refine ⟨_, ?_, Address.toNat_unmappedPhysical? hunmapped⟩
  unfold physical
  rw [hunmapped]

namespace Cpu

/-- Where an access lands, or the exception that it raises, if every address is translated. Main memory serves the
physical addresses below its size. -/
def resolveTranslated (c : Cpu) (w : Width) (access : Access) (address : UInt64) : Except Trap Location :=
  if w.isAligned address then
    (c.tlb.physical address access c.asid).map fun p => if p.toNat < c.ram.size then .ram p else .bus p
  else .error (if access = .write then .addressErrorStore address else .addressErrorLoad address)

variable {c : Cpu} {address : UInt64} (w : Width) (access : Access)

/-- An access that is not aligned is refused before anything else. -/
theorem resolve_of_not_aligned (h : w.isAligned address = false) :
    c.resolve w access address = c.resolveTranslated w access address := by
  unfold resolve resolveTranslated
  rw [h]
  rfl

/-- An address whose distance from the base of `kseg0` is not in main memory is translated. -/
theorem resolve_far (h : c.ram.size ≤ (address - Address.kseg0Base).toNat) :
    c.resolve w access address = c.resolveTranslated w access address := by
  cases haligned : w.isAligned address with
  | false => exact resolve_of_not_aligned w access haligned
  | true =>
    unfold resolve resolveTranslated
    rw [haligned, if_pos rfl]
    rw [Bool.not_true, if_neg Bool.false_ne_true]
    dsimp only
    rw [if_neg (Nat.not_lt.mpr h)]
    cases c.tlb.physical address access c.asid <;> rfl

/-- An aligned address whose distance is in main memory is served there. -/
theorem resolve_of_window (haligned : w.isAligned address = true)
    (h : (address - Address.kseg0Base).toNat < c.ram.size) :
    c.resolve w access address = .ok (.ram (address - Address.kseg0Base)) := by
  unfold resolve
  rw [haligned]
  exact if_pos h

/-- An aligned address that leads into main memory is served there, if it is translated. -/
theorem resolveTranslated_of_physical {p : UInt64} (haligned : w.isAligned address = true)
    (h : c.tlb.physical address access c.asid = .ok p) (hp : p.toNat < c.ram.size) :
    c.resolveTranslated w access address = .ok (.ram p) := by
  unfold resolveTranslated
  rw [haligned, if_pos rfl, h]
  exact congrArg Except.ok (if_pos hp)

/-- **In `kseg0`** an address leads where its distance from the base does. -/
theorem resolve_near (h : (address - Address.kseg0Base).toNat < 2 ^ 29) :
    c.resolve w access address = c.resolveTranslated w access address := by
  cases haligned : w.isAligned address with
  | false => exact resolve_of_not_aligned w access haligned
  | true =>
    by_cases hwindow : (address - Address.kseg0Base).toNat < c.ram.size
    · obtain ⟨hsegment, hlow⟩ := Address.toNat_of_near h
      have hunmapped : (Address.segment address).isMapped = false := by
        rw [Address.segment_of_four hsegment]
        rfl
      obtain ⟨p, hp, hvalue⟩ := c.tlb.physical_of_unmapped hunmapped access c.asid
      obtain rfl : p = address - Address.kseg0Base := UInt64.toNat_inj.mp (hvalue.trans hlow)
      rw [resolve_of_window w access haligned hwindow,
        resolveTranslated_of_physical w access haligned hp hwindow]
    · exact resolve_far w access (Nat.not_lt.mp hwindow)

/-- **Behind `kseg0`** the second window begins again at physical address zero, but a memory that reaches so far is
served at the distance. -/
theorem resolve_behind (h : 2 ^ 29 < c.ram.size) :
    c.resolve w access 0xFFFFFFFFA0000000 = .ok (.ram 0x20000000) ∧
      c.resolveTranslated w access 0xFFFFFFFFA0000000 = .ok (.ram 0) := by
  have haligned : w.isAligned 0xFFFFFFFFA0000000 = true := by cases w <;> rfl
  have hunmapped : (Address.segment 0xFFFFFFFFA0000000).isMapped = false := by decide
  obtain ⟨p, hp, hvalue⟩ := c.tlb.physical_of_unmapped hunmapped access c.asid
  obtain rfl : p = 0 := UInt64.toNat_inj.mp (hvalue.trans (by decide))
  exact ⟨resolve_of_window w access haligned h,
    resolveTranslated_of_physical w access haligned hp (Nat.zero_lt_of_lt h)⟩

/-- Accesses land where they would if every address were translated. -/
def TranslatesAll (c : Cpu) : Prop :=
  ∀ w access address, c.resolve w access address = c.resolveTranslated w access address

theorem translatesAll_iff (c : Cpu) : c.TranslatesAll ↔ c.ram.size ≤ 2 ^ 29 := by
  constructor
  · intro h
    refine Nat.not_lt.mp fun hlarge => ?_
    obtain ⟨hserved, hled⟩ := c.resolve_behind .byte .read hlarge
    have heq := hserved.symm.trans ((h .byte .read 0xFFFFFFFFA0000000).trans hled)
    exact absurd heq (by decide)
  · intro hsize w access address
    rcases Nat.lt_or_ge (address - Address.kseg0Base).toNat c.ram.size with hwindow | hfar
    · exact resolve_near w access (Nat.lt_of_lt_of_le hwindow hsize)
    · exact resolve_far w access hfar

end Cpu

/-- **The addresses that are not looked up** make no difference exactly up to 512 MiB. For every size of main memory,
every access of every width and kind lands where it would if its address were translated, or raises the same
exception, whatever the entries and the address space are, if and only if the size is at most 512 MiB. In a larger
memory there is a difference whatever they are. -/
theorem fast_path_transparent_iff (size : Nat) :
    ((∀ c : Cpu, c.ram.size = size → c.TranslatesAll) ↔ size ≤ 2 ^ 29) ∧
      ∀ c : Cpu, c.TranslatesAll ↔ c.ram.size ≤ 2 ^ 29 := by
  refine ⟨⟨fun h => ?_, fun hsize c hc => c.translatesAll_iff.mpr (hc.symm ▸ hsize)⟩, Cpu.translatesAll_iff⟩
  let c : Cpu := { pc := 0, cp0 := default, ram := .zeros size, settings := {}, resetValues := {} }
  have hc : c.ram.size = size := Ram.size_zeros size
  exact hc ▸ c.translatesAll_iff.mp (h c hc)

end Vr4300
