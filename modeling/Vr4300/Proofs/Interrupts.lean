import Vr4300.Tandem

/-!
# `Proofs.Interrupts` — the register bank and the sampling of the interrupt line

`Cpu.updateInterrupts` runs between any two instructions, and a second time at places where it changes
nothing any more. Which places those are follows from how writes to the bank commute, and from the fact
that sampling writes one bit of Cause and nothing else.

## Contents

* writes to different registers commute (`RegisterFile.write_comm`, `ControlRegisters.put_comm`);
* masks (`or_and_of_disjoint`, `clear_and_of_disjoint`);
* `ControlRegisters.sample`, what it commutes with, and that the last sample wins (`sample_sample`);
* `Cpu.Settled`: a state that sampling leaves alone;
* `interruptsPending_takeException`: an exception masks the interrupts.
-/

namespace Vr4300

/-! ## Writes to the bank -/

namespace RegisterFile

variable {α : Type}

theorem write_comm (f : RegisterFile α) {r s : Reg} (v w : α) (h : r ≠ s) :
    (f.write r v).write s w = (f.write s w).write r v :=
  Vector.set_comm v w fun e => h (Fin.ext e)

@[simp] theorem write_write (f : RegisterFile α) (r : Reg) (v w : α) :
    (f.write r v).write r w = f.write r w :=
  Vector.set_set v r.isLt

end RegisterFile

/-- A second write of a register replaces the first one. -/
theorem GeneralRegisters.set_set (g : GeneralRegisters) (r : Reg) (v w : UInt64) :
    (g.set r v).set r w = g.set r w := by
  unfold set
  split
  · rfl
  · rw [RegisterFile.write_write]

/-! ## Masks -/

theorem or_and_distrib (x b m : UInt64) : (x ||| b) &&& m = (x &&& m) ||| (b &&& m) := by
  apply UInt64.toBitVec_inj.mp
  ext i hi
  simp only [UInt64.toBitVec_and, UInt64.toBitVec_or, BitVec.getElem_and, BitVec.getElem_or]
  cases m.toBitVec[i] <;> simp

theorem or_and_of_disjoint {b m : UInt64} (h : b &&& m = 0) (x : UInt64) :
    (x ||| b) &&& m = x &&& m := by
  rw [or_and_distrib, h, UInt64.or_zero]

theorem clear_and_of_disjoint {b m : UInt64} (h : b &&& m = 0) (x : UInt64) :
    (x &&& ~~~b) &&& m = x &&& m := by
  have hb := congrArg UInt64.toBitVec h
  apply UInt64.toBitVec_inj.mp
  ext i hi
  have hi := congrArg (·[i]) hb
  simp only [UInt64.toBitVec_and, UInt64.toBitVec_not, BitVec.getElem_and, BitVec.getElem_not] at hi ⊢
  revert hi
  cases b.toBitVec[i] <;> cases m.toBitVec[i] <;> simp

theorem or_clear (x b : UInt64) : (x ||| b) &&& ~~~b = x &&& ~~~b := by
  apply UInt64.toBitVec_inj.mp
  ext i hi
  simp only [UInt64.toBitVec_and, UInt64.toBitVec_or, UInt64.toBitVec_not, BitVec.getElem_and,
    BitVec.getElem_or, BitVec.getElem_not]
  cases b.toBitVec[i] <;> simp

theorem clear_or (x b : UInt64) : (x &&& ~~~b) ||| b = x ||| b := by
  apply UInt64.toBitVec_inj.mp
  ext i hi
  simp only [UInt64.toBitVec_and, UInt64.toBitVec_or, UInt64.toBitVec_not, BitVec.getElem_and,
    BitVec.getElem_or, BitVec.getElem_not]
  cases b.toBitVec[i] <;> simp

theorem or_and_self_ne_zero {b m : UInt64} (h : b &&& m = b) (hb : b ≠ 0) (x : UInt64) :
    (x ||| b) &&& m ≠ 0 := by
  intro hz
  rw [or_and_distrib, h] at hz
  exact hb (UInt64.or_eq_zero_iff.mp hz).2

namespace ControlRegisters

open Control

theorem put_comm (c : ControlRegisters) {r s : Reg} (v w : UInt64) (h : r ≠ s) :
    (c.put r v).put s w = (c.put s w).put r v := by
  unfold put
  rw [RegisterFile.write_comm _ _ _ h]

@[simp] theorem put_put (c : ControlRegisters) (r : Reg) (v w : UInt64) :
    (c.put r v).put r w = c.put r w := by
  unfold put
  rw [RegisterFile.write_write]

theorem hasStatus_put (c : ControlRegisters) {r : Reg} (v bit : UInt64) (h : r ≠ status) :
    (c.put r v).hasStatus bit = c.hasStatus bit := by
  unfold hasStatus
  rw [values_put, RegisterFile.read_write_of_ne _ _ h]

/-- If none of some bits of Status is set, each of them is clear. -/
theorem hasStatus_of_clear {c : ControlRegisters} {bits bit : UInt64} (h : c.hasStatus bits = false)
    (hbit : bits &&& bit = bit) : c.hasStatus bit = false := by
  have hclear : c.values.read status &&& bits = 0 := by simpa [hasStatus] using h
  unfold hasStatus
  rw [← hbit, ← UInt64.and_assoc, hclear, UInt64.zero_and]
  rfl

theorem interruptPending_put (c : ControlRegisters) {r : Reg} (v : UInt64) (hc : r ≠ cause)
    (hs : r ≠ status) : (c.put r v).interruptPending = c.interruptPending := by
  unfold interruptPending
  rw [hasStatus_put c v _ hs, hasStatus_put c v _ hs, values_put, RegisterFile.read_write_of_ne _ _ hc,
    RegisterFile.read_write_of_ne _ _ hs]

/-! ## Sampling the line -/

/-- The bank with the level of the external line in Cause. -/
def sample (c : ControlRegisters) (level : Bool) : ControlRegisters :=
  if level then c.setBits cause causeIP2 else c.clearBits cause causeIP2

/-- Sampling writes Cause and nothing else. -/
theorem sample_eq_put (c : ControlRegisters) (level : Bool) :
    ∃ v, c.sample level = c.put cause v ∧
      ∀ m, causeIP2 &&& m = 0 → v &&& m = c.values.read cause &&& m := by
  cases level with
  | true => exact ⟨_, rfl, fun m h => or_and_of_disjoint h _⟩
  | false => exact ⟨_, rfl, fun m h => clear_and_of_disjoint h _⟩

/-- **The last sample wins.** -/
@[simp] theorem sample_sample (c : ControlRegisters) (first last : Bool) :
    (c.sample first).sample last = c.sample last := by
  unfold sample setBits clearBits
  cases first <;> cases last <;>
    simp only [if_true, Bool.false_eq_true, if_false, values_put, RegisterFile.read_write_self, put_put,
      or_clear, clear_or, UInt64.or_assoc, UInt64.or_self, UInt64.and_assoc, UInt64.and_self]

theorem sample_put (c : ControlRegisters) {r : Reg} (v : UInt64) (level : Bool) (h : r ≠ cause) :
    (c.put r v).sample level = (c.sample level).put r v := by
  unfold sample setBits clearBits
  rw [values_put, RegisterFile.read_write_of_ne _ _ h, put_comm _ _ _ h, put_comm _ _ _ h]
  cases level <;> rfl

theorem get_sample (c : ControlRegisters) {r : Reg} (level : Bool) (h : r ≠ cause) :
    (c.sample level).get r = c.get r := by
  obtain ⟨v, hv, -⟩ := sample_eq_put c level
  rw [hv, get_put_of_ne c v (Ne.symm h)]

theorem hasStatus_sample (c : ControlRegisters) (level : Bool) (bit : UInt64) :
    (c.sample level).hasStatus bit = c.hasStatus bit := by
  obtain ⟨v, hv, -⟩ := sample_eq_put c level
  rw [hv, hasStatus_put c v bit (by decide)]

end ControlRegisters

/-! ## Settled states -/

namespace Cpu

open Control

theorem updateInterrupts_eq (c : Cpu) :
    c.updateInterrupts =
      { c with cp0 := c.cp0.sample c.line, interruptsPending := (c.cp0.sample c.line).interruptPending } :=
  rfl

/-- Sampling the line changes nothing. -/
def Settled (c : Cpu) : Prop := c.updateInterrupts = c

/-- What sampling computes depends on the bank up to its last sample, and on the line. -/
theorem updateInterrupts_updateInterrupts (c : Cpu) :
    c.updateInterrupts.updateInterrupts = c.updateInterrupts := by
  rw [updateInterrupts_eq, updateInterrupts_eq c, ControlRegisters.sample_sample]

theorem settled_updateInterrupts (c : Cpu) : c.updateInterrupts.Settled :=
  updateInterrupts_updateInterrupts c

/-- An exception masks the interrupts. -/
theorem interruptsPending_takeException (c : Cpu) (t : Trap) (inDelay : Bool) :
    (c.takeException t inDelay).interruptsPending = false := by
  have hpending (b : Cpu) (hb : b.cp0.hasStatus (statusEXL ||| statusERL) = true) :
      b.statusChanged.interruptsPending = false := by
    show (b.cp0.sample b.line).interruptPending = false
    unfold ControlRegisters.interruptPending
    rw [ControlRegisters.hasStatus_sample, ControlRegisters.hasStatus_sample, hb]
    simp
  apply hpending
  show ControlRegisters.hasStatus (ControlRegisters.setBits _ status statusEXL) _ = true
  unfold ControlRegisters.hasStatus ControlRegisters.setBits
  rw [ControlRegisters.values_put, RegisterFile.read_write_self]
  exact bne_iff_ne.mpr (or_and_self_ne_zero (by decide) (by decide) _)

end Cpu

end Vr4300
