import Std.Data.TreeMap.Lemmas
import Std.Data.TreeSet.Lemmas
import Mathlib.Algebra.Group.Nat.Defs
import Mathlib.Tactic.Common
import Vr4300.Fragment.Index

/-!
# `Proofs.CodeIndex` — the index of compiled code as a set of pairs

The index keeps a set of entries for each line, and drops a line with its last entry. All that is ever
asked of it is which entries a line has, so an index is a set of pairs of a line and an entry: inserting
adds the pairs of an entry with its lines, removing takes them away (`mem_insert`, `mem_remove`).

## Contents

* `mem_insert`, `mem_remove`: the entries of a line behind each operation;
* `mem_overlapping`: the entries with a line in a range;
* `CodeIndex.Tidy`: no line is kept without an entry.
-/

namespace Vr4300

namespace CodeIndex

variable {x : CodeIndex} {entry k line : UInt64} {lines : List UInt64}

@[simp] theorem not_mem_empty : k ∉ ({} : CodeIndex).entriesOf line := by
  show k ∉ ((∅ : Std.TreeMap UInt64 (Std.TreeSet UInt64))[line]?).getD ∅
  rw [Std.TreeMap.getElem?_emptyc]
  exact Std.TreeSet.not_mem_emptyc

theorem mem_insertLine {l : UInt64} :
    k ∈ (x.insertLine entry l).entriesOf line ↔ k ∈ x.entriesOf line ∨ (k = entry ∧ line = l) := by
  unfold insertLine entriesOf
  dsimp only
  rw [Std.TreeMap.getElem?_insert]
  by_cases hl : l = line
  · subst hl
    rw [if_pos (by simp), Option.getD_some, Std.TreeSet.mem_insert, Std.compare_eq_iff_eq, or_comm]
    simp [eq_comm]
  · rw [if_neg (by simpa using hl)]
    simp [Ne.symm hl]

theorem mem_removeLine {l : UInt64} :
    k ∈ (x.removeLine entry l).entriesOf line ↔ k ∈ x.entriesOf line ∧ ¬ (k = entry ∧ line = l) := by
  have herase : k ∈ (x.entriesOf l).erase entry ↔ k ∈ x.entriesOf l ∧ k ≠ entry := by
    rw [Std.TreeSet.mem_erase, and_comm, Ne, Std.compare_eq_iff_eq, eq_comm]
  by_cases hl : l = line
  · subst hl
    have hout : (x.removeLine entry l).entriesOf l = (x.entriesOf l).erase entry ∨
        (x.removeLine entry l).entriesOf l = {} ∧ ((x.entriesOf l).erase entry).isEmpty = true := by
      by_cases hempty : ((x.entriesOf l).erase entry).isEmpty = true
      · refine .inr ⟨?_, hempty⟩
        unfold removeLine
        dsimp only
        rw [if_pos hempty, entriesOf, Std.TreeMap.getElem?_erase, if_pos (by simp)]
        rfl
      · refine .inl ?_
        unfold removeLine
        dsimp only
        rw [if_neg hempty, entriesOf, Std.TreeMap.getElem?_insert, if_pos (by simp)]
        rfl
    rcases hout with hout | ⟨hout, hempty⟩
    · rw [hout, herase]
      simp
    -- a line that is dropped had no other entry
    · have hnone := Std.TreeSet.isEmpty_iff_forall_not_mem.mp hempty k
      rw [herase] at hnone
      rw [hout]
      constructor
      · intro hk
        exact absurd hk Std.TreeSet.not_mem_emptyc
      · rintro ⟨hk, hne⟩
        exact absurd ⟨hk, fun heq => hne ⟨heq, rfl⟩⟩ hnone
  · have hsame : (x.removeLine entry l).entriesOf line = x.entriesOf line := by
      unfold removeLine entriesOf
      dsimp only
      split
      · rw [Std.TreeMap.getElem?_erase, if_neg (by simpa using hl)]
      · rw [Std.TreeMap.getElem?_insert, if_neg (by simpa using hl)]
    rw [hsame]
    simp [Ne.symm hl]

/-- **Inserting** adds the pairs of an entry with its lines. -/
theorem mem_insert :
    k ∈ (x.insert entry lines).entriesOf line ↔ k ∈ x.entriesOf line ∨ (k = entry ∧ line ∈ lines) := by
  unfold insert
  induction lines generalizing x with
  | nil => simp
  | cons l rest ih =>
    rw [List.foldl_cons, ih, mem_insertLine, List.mem_cons]
    tauto

/-- **Removing** takes them away. -/
theorem mem_remove :
    k ∈ (x.remove entry lines).entriesOf line ↔ k ∈ x.entriesOf line ∧ ¬ (k = entry ∧ line ∈ lines) := by
  unfold remove
  induction lines generalizing x with
  | nil => simp
  | cons l rest ih =>
    rw [List.foldl_cons, ih, mem_removeLine, List.mem_cons]
    tauto

/-! ## Ranges -/

/-- One set put into another one. -/
theorem mem_foldl_insert {s found : Std.TreeSet UInt64} : k ∈ s.foldl .insert found ↔ k ∈ s ∨ k ∈ found := by
  rw [Std.TreeSet.foldl_eq_foldl_toList, ← Std.TreeSet.mem_toList (t := s)]
  induction s.toList generalizing found with
  | nil => simp
  | cons a rest ih =>
    rw [List.foldl_cons, ih, Std.TreeSet.mem_insert, Std.compare_eq_iff_eq, List.mem_cons]
    tauto

/-- The entries of lines in a row. -/
theorem mem_collect {found : Std.TreeSet UInt64} {n : Nat} :
    k ∈ x.collect found line n ↔ k ∈ found ∨ ∃ i < n, k ∈ x.entriesOf (line + UInt64.ofNat i) := by
  induction n generalizing found line with
  | zero => simp [collect]
  | succ n ih =>
    have hshift (i : Nat) : line + 1 + UInt64.ofNat i = line + UInt64.ofNat (i + 1) := by
      rw [UInt64.add_assoc, UInt64.add_comm 1, UInt64.ofNat_add]
      rfl
    have hzero : line + UInt64.ofNat 0 = line := UInt64.add_zero line
    unfold collect
    rw [ih, mem_foldl_insert, or_assoc, or_left_comm]
    refine or_congr_right ?_
    constructor
    · rintro (hk | ⟨i, hi, hk⟩)
      · exact ⟨0, Nat.succ_pos n, hzero.symm ▸ hk⟩
      · exact ⟨i + 1, Nat.succ_lt_succ hi, hshift i ▸ hk⟩
    · rintro ⟨i, hi, hk⟩
      cases i with
      | zero => exact .inl (hzero ▸ hk)
      | succ i => exact .inr ⟨i, Nat.lt_of_succ_lt_succ hi, (hshift i).symm ▸ hk⟩

/-- The entries in a range of addresses, seen through one window. -/
theorem mem_collectRange {address len : UInt64} {found : Std.TreeSet UInt64} :
    k ∈ x.collectRange address len found ↔
      k ∈ found ∨ ∃ line, within line address len = true ∧ k ∈ x.entriesOf line := by
  unfold collectRange within
  rw [mem_collect]
  refine or_congr_right ?_
  have hbound := (lastLine address len).toNat_lt
  constructor
  · rintro ⟨i, hi, hk⟩
    have hlt : (firstLine address).toNat + i < 2 ^ 64 := by omega
    have hline : (firstLine address + UInt64.ofNat i).toNat = (firstLine address).toNat + i := by
      rw [UInt64.toNat_add, UInt64.toNat_ofNat', Nat.add_mod_mod, Nat.mod_eq_of_lt hlt]
    refine ⟨_, ?_, hk⟩
    simp only [Bool.and_eq_true, decide_eq_true_eq, UInt64.le_iff_toNat_le, hline]
    omega
  · rintro ⟨line, hline, hk⟩
    simp only [Bool.and_eq_true, decide_eq_true_eq, UInt64.le_iff_toNat_le] at hline
    refine ⟨line.toNat - (firstLine address).toNat, by omega, ?_⟩
    rw [show firstLine address + UInt64.ofNat (line.toNat - (firstLine address).toNat) = line by
      rw [← UInt64.toNat_inj, UInt64.toNat_add, UInt64.toNat_ofNat']
      have hlt := line.toNat_lt
      omega]
    exact hk

/-- **The entries that overlap a range** are those with a line in it, seen through either window. -/
theorem mem_overlapping {address len : UInt64} :
    k ∈ x.overlapping address len ↔ ∃ line, covers line address len = true ∧ k ∈ x.entriesOf line := by
  have hempty : k ∉ (∅ : Std.TreeSet UInt64) := Std.TreeSet.not_mem_emptyc
  unfold overlapping covers
  cases Address.unmappedAlias? address with
  | none =>
    dsimp only
    rw [mem_collectRange]
    simp [hempty]
  | some view =>
    dsimp only
    rw [mem_collectRange, mem_collectRange]
    simp [hempty, or_and_right, exists_or]

/-! ## Ranges as numbers -/

theorem toNat_codeLine (a : UInt64) : (codeLine a).toNat = a.toNat / 32 := by
  unfold codeLine
  rw [UInt64.toNat_shiftRight, Nat.shiftRight_eq_div_pow]
  rfl

/-- A range without wrapping around, line by line. -/
theorem within_iff {line first : UInt64} {len : Nat} (hfit : first.toNat + max len 1 < 2 ^ 64) :
    within line first (UInt64.ofNat len) = true ↔
      first.toNat / 32 ≤ line.toNat ∧ line.toNat ≤ (first.toNat + (max len 1 - 1)) / 32 := by
  have hlen : (max (UInt64.ofNat len) 1).toNat = max len 1 := by
    rw [UInt64.toNat_max, UInt64.toNat_ofNat', Nat.mod_eq_of_lt (by omega)]
    rfl
  have hlast : (first + (max (UInt64.ofNat len) 1 - 1)).toNat = first.toNat + (max len 1 - 1) := by
    rw [UInt64.toNat_add, UInt64.toNat_sub_of_le _ _ (by rw [UInt64.le_iff_toNat_le, hlen]; exact Nat.le_max_right _ 1),
      hlen]
    exact Nat.mod_eq_of_lt (by have : (1 : UInt64).toNat = 1 := rfl; omega)
  unfold within firstLine lastLine
  simp only [Bool.and_eq_true, decide_eq_true_eq, UInt64.le_iff_toNat_le, toNat_codeLine, hlast]

/-- A word that shares a byte with a range lies in one of its lines. -/
theorem within_of_overlap {a first : UInt64} {len : Nat} (haligned : a.toNat % 4 = 0)
    (hfit : first.toNat + max len 1 < 2 ^ 64) (hfrom : a.toNat < first.toNat + len)
    (hto : first.toNat < a.toNat + 4) : within (codeLine a) first (UInt64.ofNat len) = true := by
  rw [within_iff hfit, toNat_codeLine]
  omega

/-! ## No line without an entry -/

/-- Each line that is kept has an entry. -/
def Tidy (x : CodeIndex) : Prop :=
  ∀ (line : UInt64) (entries : Std.TreeSet UInt64), x.lines[line]? = some entries → entries.isEmpty = false

theorem tidy_empty : ({} : CodeIndex).Tidy := by
  intro line entries h
  have hnone : ({} : CodeIndex).lines[line]? = none := Std.TreeMap.getElem?_emptyc
  rw [hnone] at h
  cases h

theorem Tidy.insertLine (h : x.Tidy) (entry l : UInt64) : (x.insertLine entry l).Tidy := by
  intro line entries hline
  unfold CodeIndex.insertLine at hline
  dsimp only at hline
  rw [Std.TreeMap.getElem?_insert] at hline
  split at hline
  · obtain rfl := Option.some.inj hline
    exact Std.TreeSet.isEmpty_insert
  · exact h line entries hline

theorem Tidy.removeLine (h : x.Tidy) (entry l : UInt64) : (x.removeLine entry l).Tidy := by
  intro line entries hline
  unfold CodeIndex.removeLine at hline
  dsimp only at hline
  split at hline
  · rw [Std.TreeMap.getElem?_erase] at hline
    split at hline
    · cases hline
    · exact h line entries hline
  · rename_i hempty
    rw [Std.TreeMap.getElem?_insert] at hline
    split at hline
    · obtain rfl := Option.some.inj hline
      exact Bool.not_eq_true _ ▸ hempty
    · exact h line entries hline

theorem Tidy.insert (h : x.Tidy) (entry : UInt64) (lines : List UInt64) : (x.insert entry lines).Tidy := by
  unfold CodeIndex.insert
  induction lines generalizing x with
  | nil => exact h
  | cons l rest ih => exact ih (h.insertLine entry l)

theorem Tidy.remove (h : x.Tidy) (entry : UInt64) (lines : List UInt64) : (x.remove entry lines).Tidy := by
  unfold CodeIndex.remove
  induction lines generalizing x with
  | nil => exact h
  | cons l rest ih => exact ih (h.removeLine entry l)

end CodeIndex

end Vr4300
