import Mathlib.Algebra.Group.Nat.Defs
import Mathlib.Tactic.Common
import Vr4300.Address
import Vr4300.Fragment.Basic

/-!
# `Proofs.Addresses` — segments, and what the ranges of a trace cover

Before a fragment is entered, the breakpoints are compared with the ranges of its addresses and not with the
addresses. A range ends behind its last instruction, and behind the last word of the address space there is
nothing: such a range ends at zero and holds no address at all. So an address of a trace lies in one of its
ranges, or the trace goes on from there word by word to the top of the address space (`covered_or_topped`). The
unmapped segments are far from the top.

## Contents

* `eighth_of_unmapped`, `toNat_add_of_unmapped`: the unmapped segments as numbers;
* `pairwise_ascending`: sorted addresses ascend;
* `Topped`, `Covered`, `covered_or_topped`, `covered_addressRuns`.
-/

namespace Vr4300

/-! ## Segments -/

namespace Address

/-- The segment of an address is in the upper three bits of its low half. -/
theorem toNat_compat_shift (a : UInt64) : (compat a >>> 29).toNat = a.toNat % 2 ^ 32 / 2 ^ 29 := by
  unfold compat
  rw [UInt32.toNat_shiftRight, UInt64.toNat_toUInt32, Nat.shiftRight_eq_div_pow]
  rfl

theorem segment_of_four {a : UInt64} (h : a.toNat % 2 ^ 32 / 2 ^ 29 = 4) : segment a = .kseg0 := by
  unfold segment
  rw [toNat_compat_shift, h]
  rfl

/-- The unmapped windows are two of the eight parts of the low half. -/
theorem eighth_of_unmapped {a : UInt64} (h : (segment a).isMapped = false) :
    a.toNat % 2 ^ 32 / 2 ^ 29 = 4 ∨ a.toNat % 2 ^ 32 / 2 ^ 29 = 5 := by
  unfold segment at h
  rw [toNat_compat_shift] at h
  generalize a.toNat % 2 ^ 32 / 2 ^ 29 = n at h
  split at h
  all_goals first | (cases h; done) | simp

theorem toNat_unmappedPhysical? {a p : UInt64} (h : unmappedPhysical? a = some p) : p.toNat = a.toNat % 2 ^ 29 := by
  unfold unmappedPhysical? at h
  split at h
  · cases h
  · obtain rfl := Option.some.inj h
    rw [UInt32.toNat_toUInt64, UInt32.toNat_and, compat, UInt64.toNat_toUInt32]
    show a.toNat % 2 ^ 32 &&& (2 ^ 29 - 1) = _
    rw [Nat.and_two_pow_sub_one_eq_mod]
    omega

end Address

/-- Behind an instruction in an unmapped segment the address space goes on. -/
theorem toNat_add_of_unmapped {a : UInt64} (h : (Address.segment a).isMapped = false) :
    (a + 4).toNat = a.toNat + 4 := by
  have heighth := Address.eighth_of_unmapped h
  have hlt := a.toNat_lt
  rw [UInt64.toNat_add, show (4 : UInt64).toNat = 4 from rfl]
  omega

/-! ## Sorted addresses -/

theorem pairwise_insertAscending (x : UInt64) {ys : List UInt64} (h : ys.Pairwise (· < ·)) :
    (insertAscending x ys).Pairwise (· < ·) := by
  induction ys with
  | nil => exact List.pairwise_singleton _ _
  | cons y rest ih =>
    obtain ⟨hy, hrest⟩ := List.pairwise_cons.mp h
    unfold insertAscending
    split
    · rename_i hlt
      refine List.pairwise_cons.mpr ⟨?_, h⟩
      intro b hb
      rcases List.mem_cons.mp hb with rfl | hb
      · exact hlt
      · exact UInt64.lt_trans hlt (hy b hb)
    · split
      · exact h
      · rename_i hnlt hne
        have hgt : y < x := by
          simp only [UInt64.lt_iff_toNat_lt, ← UInt64.toNat_inj] at hnlt hne ⊢
          omega
        refine List.pairwise_cons.mpr ⟨?_, ih hrest⟩
        intro b hb
        rcases mem_insertAscending.mp hb with rfl | hb
        · exact hgt
        · exact hy b hb

/-- Sorted addresses ascend. -/
theorem pairwise_ascending (xs : List UInt64) : (ascending xs).Pairwise (· < ·) := by
  unfold ascending
  induction xs with
  | nil => exact .nil
  | cons x rest ih => exact pairwise_insertAscending x ih

/-! ## Runs -/

/-- From the address on, every word up to the top of the address space is one of `s`. -/
def Topped (s : UInt64 → Prop) (a : UInt64) : Prop :=
  ∀ j : Nat, a.toNat + 4 * j < 2 ^ 64 → s (UInt64.ofNat (a.toNat + 4 * j))

theorem Topped.mono {s t : UInt64 → Prop} {a : UInt64} (h : Topped s a) (hst : ∀ b, s b → t b) :
    Topped t a := fun j hj => hst _ (h j hj)

/-- The address is one of `n + 1` words from `start` on. -/
def InRun (start : UInt64) (n : Nat) (a : UInt64) : Prop := ∃ i ≤ n, a.toNat = start.toNat + 4 * i

theorem toNat_ofNat_of_lt {n : Nat} (h : n < 2 ^ 64) : (UInt64.ofNat n).toNat = n := by
  rw [UInt64.toNat_ofNat']
  exact Nat.mod_eq_of_lt h

/-- The address behind a word. -/
theorem add_four_eq {start b : UInt64} {m : Nat} (h : b.toNat = start.toNat + 4 * m) :
    b + 4 = UInt64.ofNat (start.toNat + 4 * (m + 1)) := by
  rw [Nat.mul_add, ← Nat.add_assoc, ← h, UInt64.ofNat_add, UInt64.ofNat_toNat]
  rfl

/-- The address behind a word alone. -/
theorem ofNat_first (b : UInt64) : UInt64.ofNat (b.toNat + 4 * (0 + 1)) = b + 4 := (add_four_eq rfl).symm

theorem inRun_zero {start a : UInt64} : InRun start 0 a ↔ a = start := by
  rw [← UInt64.toNat_inj]
  constructor
  · rintro ⟨i, hi, ha⟩
    omega
  · intro ha
    exact ⟨0, Nat.le_refl _, ha⟩

/-- A run with one word more. -/
theorem inRun_succ {start b a : UInt64} {n : Nat} (hb : b.toNat = start.toNat + 4 * (n + 1)) :
    InRun start (n + 1) a ↔ InRun start n a ∨ a = b := by
  rw [← UInt64.toNat_inj, hb]
  constructor
  · rintro ⟨i, hi, ha⟩
    by_cases hlast : i = n + 1
    · exact .inr (hlast ▸ ha)
    · exact .inl ⟨i, by omega, ha⟩
  · rintro (⟨i, hi, ha⟩ | ha)
    · exact ⟨i, by omega, ha⟩
    · exact ⟨n + 1, Nat.le_refl _, ha⟩

/-- **The range of a run** holds its words, unless the run ends at the top. -/
theorem InRun.covered_or_topped {start a : UInt64} {n : Nat} (ha : InRun start n a) :
    (start ≤ a ∧ a < UInt64.ofNat (start.toNat + 4 * (n + 1))) ∨ Topped (InRun start n) a := by
  obtain ⟨i, hi, ha⟩ := ha
  by_cases htop : start.toNat + 4 * (n + 1) < 2 ^ 64
  · refine .inl ?_
    rw [UInt64.le_iff_toNat_le, UInt64.lt_iff_toNat_lt, toNat_ofNat_of_lt htop]
    omega
  · refine .inr fun j hj => ⟨i + j, by omega, ?_⟩
    rw [toNat_ofNat_of_lt hj]
    omega

/-- The address lies in one of the ranges. -/
def Covered (ranges : List (UInt64 × UInt64)) (a : UInt64) : Prop := ∃ range ∈ ranges, range.1 ≤ a ∧ a < range.2

/-- **A run that goes on** with higher addresses: what is in it or among them is covered by the ranges, or
goes on to the top. -/
theorem covered_or_topped_extendRun (rest : List UInt64) :
    ∀ (start : UInt64) (n : Nat), start.toNat + 4 * n < 2 ^ 64 →
      (∀ b ∈ rest, start.toNat + 4 * n < b.toNat) → rest.Pairwise (· < ·) →
      ∀ a, InRun start n a ∨ a ∈ rest →
        Covered (extendRun start (UInt64.ofNat (start.toNat + 4 * (n + 1))) rest) a ∨
          Topped (fun b => InRun start n b ∨ b ∈ rest) a := by
  induction rest with
  | nil =>
    intro start n _ _ _ a ha
    have hrun := (ha.resolve_right List.not_mem_nil).covered_or_topped
    exact hrun.imp (fun hin => ⟨_, List.mem_singleton_self _, hin⟩) (·.mono fun _ => .inl)
  | cons b rest ih =>
    intro start n hn habove hsorted a ha
    obtain ⟨hb, hrest⟩ := List.pairwise_cons.mp hsorted
    have hnext := habove b List.mem_cons_self
    have hbound := b.toNat_lt
    unfold extendRun
    split
    -- the next address continues the run, which has one more word then
    · rename_i heq
      have hb' : b.toNat = start.toNat + 4 * (n + 1) := by
        have hmod := congrArg UInt64.toNat heq
        rw [UInt64.toNat_ofNat'] at hmod
        omega
      have habove' : ∀ c ∈ rest, start.toNat + 4 * (n + 1) < c.toNat := by
        intro c hc
        have hlt := UInt64.lt_iff_toNat_lt.mp (hb c hc)
        omega
      have hsame (c : UInt64) : InRun start (n + 1) c ∨ c ∈ rest ↔ InRun start n c ∨ c ∈ b :: rest := by
        rw [inRun_succ hb', List.mem_cons, or_assoc]
      rw [add_four_eq hb']
      have hrun := ih start (n + 1) (by omega) habove' hrest a ((hsame a).mpr ha)
      exact hrun.imp id (·.mono fun c => (hsame c).mp)
    -- the next address begins another run
    · rcases ha with ha | ha
      · exact ha.covered_or_topped.imp (fun hin => ⟨_, List.mem_cons_self, hin⟩) (·.mono fun _ => .inl)
      · have hsame (c : UInt64) : InRun b 0 c ∨ c ∈ rest ↔ c ∈ b :: rest := by
          rw [inRun_zero, List.mem_cons]
        have hrun := ih b 0 (by omega) (fun c hc => UInt64.lt_iff_toNat_lt.mp (hb c hc)) hrest a
          ((hsame a).mpr ha)
        rw [ofNat_first] at hrun
        refine hrun.imp ?_ (·.mono fun c hc => .inr ((hsame c).mp hc))
        rintro ⟨range, hmem, hin⟩
        exact ⟨range, List.mem_cons_of_mem _ hmem, hin⟩

/-- **An address of a trace** lies in one of its ranges, or the trace goes on from there to the top of the
address space. -/
theorem covered_or_topped {addresses : List UInt64} {a : UInt64} (ha : a ∈ addresses) :
    Covered (addressRuns addresses) a ∨ Topped (· ∈ addresses) a := by
  have hsorted := pairwise_ascending addresses
  have hsame (b : UInt64) : b ∈ ascending addresses ↔ b ∈ addresses := mem_ascending
  unfold addressRuns
  cases hlist : ascending addresses with
  | nil =>
    rw [← hsame, hlist] at ha
    cases ha
  | cons b rest =>
    rw [hlist] at hsorted hsame
    obtain ⟨hb, hrest⟩ := List.pairwise_cons.mp hsorted
    have hbound := b.toNat_lt
    have hbegin (c : UInt64) : InRun b 0 c ∨ c ∈ rest ↔ c ∈ addresses := by
      rw [inRun_zero, ← hsame, List.mem_cons]
    have hrun := covered_or_topped_extendRun rest b 0 (by omega)
      (fun c hc => UInt64.lt_iff_toNat_lt.mp (hb c hc)) hrest a ((hbegin a).mpr ha)
    rw [ofNat_first] at hrun
    exact hrun.imp id (·.mono fun c => (hbegin c).mp)

/-- Where the address space goes on behind every instruction, each lies in one of the ranges. -/
theorem covered_addressRuns {addresses : List UInt64} (h : ∀ a ∈ addresses, (a + 4).toNat = a.toNat + 4)
    {a : UInt64} (ha : a ∈ addresses) : Covered (addressRuns addresses) a := by
  refine (covered_or_topped ha).resolve_right fun htop => ?_
  -- a trace that goes on to the top has an instruction with nothing behind it
  have hbound := a.toNat_lt
  have hlast : a.toNat + 4 * ((2 ^ 64 - 1 - a.toNat) / 4) < 2 ^ 64 := by omega
  have hnext := h _ (htop _ hlast)
  rw [toNat_ofNat_of_lt hlast] at hnext
  have hlt := (UInt64.ofNat (a.toNat + 4 * ((2 ^ 64 - 1 - a.toNat) / 4)) + 4).toNat_lt
  omega

end Vr4300
