import Vr4300.Proofs.Refill
import Vr4300.Proofs.Translation

/-!
# `Proofs.TlbRestore` — entries are saved and restored without loss

An entry that is written and read again shows what the registers held, but for the bits that an entry does not keep:
those of the page number that the page mask covers, and the two global bits, of which an entry keeps the conjunction.
An entry that is read and written again need not be the same entry, but it is alike: it maps the same addresses to the
same frames, and it shows the same registers.

## Contents

* `TlbEntry.canonicalPageMask_idem`, `ofRegisters_entryHi`, `readPage_ofRegisters`: what an entry keeps.
* `TlbEntry.Alike`, `alike_restored`: entries that cannot be told apart; `Tlb.Alike`, what it preserves.
* `Cpu.executionOf`, `Execution.get_after_system`: the instructions.
* `entry_saved_and_restored`.
-/

namespace Vr4300

open Control

namespace TlbEntry

/-! ## What an entry keeps -/

theorem getLsbD_canonicalPageMask (mask : UInt64) (k : Nat) : (canonicalPageMask mask).toBitVec.getLsbD k =
    ((mask.toBitVec.getLsbD k || mask.toBitVec.getLsbD (1 + k) && pageMaskOddBits.toBitVec.getLsbD (1 + k)) &&
      pageMaskBits.toBitVec.getLsbD k) := by
  have hwords : (canonicalPageMask mask).toBitVec =
    (mask.toBitVec ||| ((mask.toBitVec &&& pageMaskOddBits.toBitVec) >>> 1)) &&& pageMaskBits.toBitVec := rfl
  rw [hwords, BitVec.getLsbD_and, BitVec.getLsbD_or, BitVec.getLsbD_ushiftRight, BitVec.getLsbD_and]

/-- An odd bit of a page mask is a writable one, and the bit above it is even. -/
theorem getLsbD_pageMaskOddBits : ∀ k : Fin 64, pageMaskOddBits.toBitVec.getLsbD (1 + k.val) = true →
    pageMaskBits.toBitVec.getLsbD (1 + k.val) = true ∧
      pageMaskOddBits.toBitVec.getLsbD (1 + (1 + k.val)) = false := by
  decide

/-- **A canonical page mask** is its own. -/
theorem canonicalPageMask_idem (mask : UInt64) :
    canonicalPageMask (canonicalPageMask mask) = canonicalPageMask mask := by
  apply UInt64.toBitVec_inj.mp
  refine BitVec.eq_of_getLsbD_eq fun k hk => ?_
  have hodd := getLsbD_pageMaskOddBits ⟨k, hk⟩
  simp only [getLsbD_canonicalPageMask]
  grind

/-- A page mask counts only in its writable bits. -/
theorem canonicalPageMask_and (mask : UInt64) : canonicalPageMask (mask &&& pageMaskBits) = canonicalPageMask mask := by
  apply UInt64.toBitVec_inj.mp
  refine BitVec.eq_of_getLsbD_eq fun k hk => ?_
  have hodd := getLsbD_pageMaskOddBits ⟨k, hk⟩
  simp only [getLsbD_canonicalPageMask, UInt64.toBitVec_and, BitVec.getLsbD_and]
  grind

/-- The bits of EntryHi that an entry keeps are those that the page mask does not cover. -/
theorem pageNumberMask_or_asid (mask : UInt64) : pageNumberMask (canonicalPageMask mask) ||| asidBits =
    (pageNumberBits ||| asidBits) &&& ~~~canonicalPageMask mask := by
  have hnumber : ∀ k : Fin 64, pageNumberBits.toBitVec.getLsbD k.val = true →
      (0x1FFF : UInt64).toBitVec.getLsbD k.val = false := by
    decide
  have hspace : ∀ k : Fin 64, asidBits.toBitVec.getLsbD k.val = true →
      pageMaskBits.toBitVec.getLsbD k.val = false := by
    decide
  apply UInt64.toBitVec_inj.mp
  refine BitVec.eq_of_getLsbD_eq fun k hk => ?_
  have hnumber := hnumber ⟨k, hk⟩
  have hspace := hspace ⟨k, hk⟩
  unfold pageNumberMask
  simp only [UInt64.toBitVec_or, UInt64.toBitVec_and, UInt64.toBitVec_not, BitVec.getLsbD_or, BitVec.getLsbD_and,
    BitVec.getLsbD_not, getLsbD_canonicalPageMask, hk, decide_true, Bool.true_and]
  grind

theorem ofRegisters_entryHi (mask hi lo0 lo1 : UInt64) : (ofRegisters mask hi lo0 lo1).entryHi =
    hi &&& (pageNumberBits ||| asidBits) &&& ~~~canonicalPageMask mask := by
  show hi &&& (pageNumberMask (canonicalPageMask mask) ||| asidBits) = _
  rw [pageNumberMask_or_asid, UInt64.and_assoc]

theorem ofCondition_isGlobal (e : TlbEntry) : ofCondition e.isGlobal = e.entryLo0 &&& e.entryLo1 &&& globalBit := by
  have hone : globalBit.toNat = 1 := rfl
  apply UInt64.toNat_inj.mp
  rw [UInt64.toNat_and, hone, Nat.and_one_is_mod, UInt64.toNat_and]
  by_cases hglobal : e.isGlobal = true
  · rw [Nat.and_mod_two_eq_one.mpr (e.isGlobal_iff.mp hglobal), hglobal]
    rfl
  · have hzero := Nat.mod_two_ne_one.mp (mt Nat.and_mod_two_eq_one.mp (mt e.isGlobal_iff.mpr hglobal))
    rw [hzero, Bool.eq_false_of_not_eq_true hglobal]
    rfl

/-- The bit of a page that is read back tells whether the entry is global. -/
theorem readPage_mod_two (e : TlbEntry) (page : UInt64) : (e.readPage page).toNat % 2 = 1 ↔ e.isGlobal = true := by
  have hclear : ¬(~~~globalBit).toNat % 2 = 1 := by decide
  unfold readPage
  rw [UInt64.toNat_or, Nat.or_mod_two_eq_one, UInt64.toNat_and, Nat.and_mod_two_eq_one]
  simp only [hclear, and_false, false_or]
  cases e.isGlobal <;> decide

/-- **A page that is read back** has the bits that the register had, and the conjunction of the global bits. -/
theorem readPage_ofRegisters (mask hi lo0 lo1 lo : UInt64) :
    (ofRegisters mask hi lo0 lo1).readPage (lo &&& pageBits) =
      (lo &&& pageBits &&& ~~~globalBit) ||| (lo0 &&& pageBits &&& (lo1 &&& pageBits) &&& globalBit) := by
  unfold readPage
  rw [ofCondition_isGlobal]
  rfl

/-! ## Entries that are alike -/

/-- The entries agree but for the global bits of their pages, of which the conjunctions agree. -/
structure Alike (e e' : TlbEntry) : Prop where
  /-- The page size. -/
  pageMask : e'.pageMask = e.pageMask
  /-- The region, the page number and the address space. -/
  entryHi : e'.entryHi = e.entryHi
  /-- Whether the entry is global. -/
  isGlobal : e'.isGlobal = e.isGlobal
  /-- The even page. -/
  even : e'.entryLo0 &&& ~~~globalBit = e.entryLo0 &&& ~~~globalBit
  /-- The odd page. -/
  odd : e'.entryLo1 &&& ~~~globalBit = e.entryLo1 &&& ~~~globalBit

theorem Alike.refl (e : TlbEntry) : e.Alike e := ⟨rfl, rfl, rfl, rfl, rfl⟩

theorem Alike.symm {e e' : TlbEntry} (h : e.Alike e') : e'.Alike e :=
  ⟨h.pageMask.symm, h.entryHi.symm, h.isGlobal.symm, h.even.symm, h.odd.symm⟩

/-- The entry is one that registers describe. -/
def Described (e : TlbEntry) : Prop :=
  ∃ mask hi lo0 lo1, e = ofRegisters mask hi lo0 lo1

/-- The entry that is written from the registers that show another one. -/
def restored (e : TlbEntry) : TlbEntry :=
  ofRegisters e.pageMask e.entryHi (e.readPage e.entryLo0) (e.readPage e.entryLo1)

/-- **What is restored** is alike. -/
theorem Described.alike_restored {e : TlbEntry} (h : e.Described) : e.Alike e.restored := by
  obtain ⟨mask, hi, lo0, lo1, rfl⟩ := h
  generalize he : ofRegisters mask hi lo0 lo1 = e
  have hmask : canonicalPageMask e.pageMask = e.pageMask := by
    rw [← he]
    exact canonicalPageMask_idem mask
  have hpage {page lo : UInt64} (hkept : page = lo &&& pageBits) :
      e.readPage page &&& pageBits &&& ~~~globalBit = page &&& ~~~globalBit := by
    have hbits (g : Bool) : ofCondition g &&& (pageBits &&& ~~~globalBit) = 0 := by cases g <;> decide
    unfold readPage
    rw [UInt64.and_assoc, or_and_distrib, hbits, UInt64.or_zero, hkept, UInt64.and_assoc lo, UInt64.and_assoc,
      UInt64.and_self]
  refine ⟨hmask, ?_, ?_, ?_, ?_⟩
  · show e.entryHi &&& (pageNumberMask (canonicalPageMask e.pageMask) ||| asidBits) = e.entryHi
    rw [hmask, ← he]
    exact (UInt64.and_assoc _ _ _).trans (congrArg (hi &&& ·) UInt64.and_self)
  · unfold restored
    rw [Bool.eq_iff_iff, isGlobal_ofRegisters, readPage_mod_two, readPage_mod_two, and_self_iff]
  · exact hpage (he ▸ rfl : e.entryLo0 = lo0 &&& pageBits)
  · exact hpage (he ▸ rfl : e.entryLo1 = lo1 &&& pageBits)

namespace Alike

variable {e e' : TlbEntry} (h : e.Alike e')
include h

/-- They map the same addresses. -/
theorem isMatch (address asid : UInt64) : e'.isMatch address asid = e.isMatch address asid := by
  unfold TlbEntry.isMatch vpnMask
  rw [h.pageMask, h.entryHi, h.isGlobal]

theorem offsetMask : e'.offsetMask = e.offsetMask := by
  unfold TlbEntry.offsetMask
  rw [h.pageMask]

theorem page (address : UInt64) : e'.page address &&& ~~~globalBit = e.page address &&& ~~~globalBit := by
  unfold TlbEntry.page oddBit
  rw [h.offsetMask]
  split
  · exact h.odd
  · exact h.even

/-- An access through them comes to the same. -/
theorem gives {address : UInt64} {access : Access} {r : Except Trap UInt64} (hr : e.Gives address access r) :
    e'.Gives address access r := by
  have hpage := h.page address
  have hbit (bit : UInt64) (hbit : ~~~globalBit &&& bit = bit) :
      e'.page address &&& bit = e.page address &&& bit := by
    rw [← hbit, ← UInt64.and_assoc, hpage, UInt64.and_assoc]
  have hvalid := hbit validBit (by decide)
  have hdirty := hbit dirtyBit (by decide)
  have hframe : frame (e'.page address) = frame (e.page address) := by
    have hnumber : ~~~globalBit >>> 6 &&& 0xFFFFF = 0xFFFFF := by decide
    rw [← frame_and _ hnumber, hpage, frame_and _ hnumber]
  cases hr with
  | invalid hinvalid => exact .invalid (hvalid.trans hinvalid)
  | modified hvalid' hwrite hclean => exact .modified (hvalid ▸ hvalid') hwrite (hdirty.trans hclean)
  | mapped hadmits =>
    rw [← hframe, ← h.offsetMask]
    exact .mapped ⟨hvalid ▸ hadmits.valid, fun hwrite => hdirty ▸ hadmits.dirty hwrite⟩

/-- They are read back alike. -/
theorem showEntry (c : Cpu) : c.showEntry e' = c.showEntry e := by
  unfold Cpu.showEntry readPage
  rw [h.pageMask, h.entryHi, h.isGlobal, h.even, h.odd]

end Alike

end TlbEntry

/-! ## Contents that are alike -/

namespace Tlb

/-- The entries are alike, one by one. -/
def Alike (t t' : Tlb) : Prop := ∀ j, (t.get j).Alike (t'.get j)

/-- The content results from writes of entries. -/
inductive Written : Tlb → Prop where
  /-- No entry has been written. -/
  | initial : Written {}
  /-- An entry is written from the registers. -/
  | write {t : Tlb} (h : Written t) (i : TlbIndex) (mask hi lo0 lo1 : UInt64) :
    Written (t.set i (.ofRegisters mask hi lo0 lo1))

/-- Replaces entries, one after the other. -/
def writes (t : Tlb) (ws : List (TlbIndex × TlbEntry)) : Tlb := ws.foldl (fun t w => t.set w.1 w.2) t

/-- **Whatever was written**, each entry is described by registers. -/
theorem Written.described {t : Tlb} (h : t.Written) (j : TlbIndex) : (t.get j).Described := by
  induction h with
  | initial => exact ⟨0, 0, 0, 0, by simp [get]⟩
  | write _ i mask hi lo0 lo1 ih =>
    by_cases hj : i = j
    · subst hj
      exact ⟨mask, hi, lo0, lo1, get_set_self _ _ _⟩
    · rw [get_set_of_ne _ _ hj]
      exact ih

/-- **To restore an entry** makes an alike content. -/
theorem alike_set_restored {t : Tlb} (h : t.Written) (i : TlbIndex) : t.Alike (t.set i (t.get i).restored) := by
  intro j
  by_cases hj : i = j
  · subst hj
    rw [get_set_self]
    exact (h.described i).alike_restored
  · rw [get_set_of_ne _ _ hj]
    exact .refl _

namespace Alike

variable {t t' : Tlb} (h : t.Alike t')
include h

theorem set {e e' : TlbEntry} (he : e.Alike e') (i : TlbIndex) : (t.set i e).Alike (t'.set i e') := by
  intro j
  by_cases hj : i = j
  · subst hj
    rw [get_set_self, get_set_self]
    exact he
  · rw [get_set_of_ne _ _ hj, get_set_of_ne _ _ hj]
    exact h j

/-- **Writes** that follow keep them alike. -/
theorem writes (ws : List (TlbIndex × TlbEntry)) : (t.writes ws).Alike (t'.writes ws) := by
  induction ws generalizing t t' with
  | nil => exact h
  | cons w ws ih => exact ih (h.set (.refl w.2) w.1)

theorem lowest {i : TlbIndex} {address asid : UInt64} (hi : t.Lowest i address asid) : t'.Lowest i address asid :=
  ⟨((h i).isMatch _ _).trans hi.maps, fun j hj => ((h j).isMatch _ _).trans (hi.below j hj)⟩

theorem symm : t'.Alike t := fun j => (h j).symm

/-- **A probe** finds the same. -/
theorem probe? (hi : UInt64) : t'.probe? hi = t.probe? hi := by
  have hself : TlbEntry.StandsFor hi hi (hi &&& TlbEntry.asidBits) := fun _ => rfl
  ext k
  rw [probe?_eq_some_iff hself, probe?_eq_some_iff hself]
  exact exists_congr fun i => and_congr_right' ⟨h.symm.lowest, h.lowest⟩

/-- **A translation** comes to the same. -/
theorem translate (address : UInt64) (access : Access) (asid : UInt64) :
    t'.translate address access asid = t.translate address access asid := by
  cases hprobe : t.probe? (TlbEntry.pageHi address (asid &&& TlbEntry.asidBits)) with
  | none =>
    have habsent := (probe?_eq_none_iff TlbEntry.standsFor_page).mp hprobe
    rw [translate_of_absent access habsent,
      translate_of_absent access fun j => ((h j).isMatch _ _).trans (habsent j)]
  | some k =>
    obtain ⟨i, -, hlowest⟩ := (probe?_eq_some_iff TlbEntry.standsFor_page).mp hprobe
    exact ((h.lowest hlowest).translate access).unique ((h i).gives (hlowest.translate access))

end Alike

end Tlb

/-! ## The instructions -/

/-- What a register holds in the bits that it has. -/
def ControlRegisters.content (b : ControlRegisters) (r : Reg) : UInt64 :=
  match writeRule r with
  | .masked mask => b.get r &&& mask
  | _ => b.get r

theorem ControlRegisters.get_put_self (b : ControlRegisters) {r : Reg} (v : UInt64) (hr : writeRule r ≠ .reserved) :
    (b.put r v).get r = v := by
  unfold get
  split
  · rename_i hreserved
    exact absurd hreserved hr
  · exact RegisterFile.read_write_self _ _ _

/-- The word of the instruction that writes the entry that Index names. -/
def Encoding.writeIndexed : UInt32 := 0x42000002

/-- The word of the instruction that reads it. -/
def Encoding.readIndexed : UInt32 := 0x42000001

namespace Cpu

/-- A word, executed at `pc`. -/
def executionOf (c : Cpu) (word : UInt32) : Execution := ⟨c, word, c.planGuarded (.decode word)⟩

/-- An operation that only has an effect. -/
theorem lasting_after_system {c : Cpu} {word : UInt32} {op : SystemOp} {effect : Effect}
    (hdecode : Instruction.decode word = .system op) (heffect : c.planSystem op = { effect := effect }) :
    (c.executionOf word).completes = true ∧
      (c.executionOf word).after.lasting = ((c.apply effect).follow c.successor .sequential).lasting := by
  have hplan : (c.executionOf word).planned = .ok { effect := effect } := by
    show c.planGuarded (.decode word) = _
    rw [hdecode, ← heffect]
    rfl
  exact ⟨Execution.completes_iff.mpr ⟨_, hplan⟩, Execution.lasting_after (Execution.worked_of_plan hplan)⟩

/-- **A write** of an entry leaves the registers. -/
theorem after_writeIndexed (c : Cpu) : (c.executionOf Encoding.writeIndexed).completes = true ∧
    (c.executionOf Encoding.writeIndexed).after.tlb = c.tlb.set c.indexedEntry c.describedEntry ∧
    ∀ r, r ≠ count → r ≠ cause → (c.executionOf Encoding.writeIndexed).after.cp0.get r = c.cp0.get r := by
  have hdecode : Instruction.decode Encoding.writeIndexed = .system .tlbwi := by decide
  obtain ⟨hcompletes, hlasting⟩ := lasting_after_system hdecode (show c.planSystem .tlbwi = _ from rfl)
  exact ⟨hcompletes, same_of_lasting hlasting (·.tlb) fun _ => rfl, fun r hcount hcause =>
    ControlRegisters.get_of_lasting (congrArg Cpu.cp0 hlasting) hcount hcause⟩

/-- The registers show an entry. -/
structure Shows (b : ControlRegisters) (e : TlbEntry) : Prop where
  /-- The page size. -/
  pageMask : b.get pageMask = e.pageMask
  /-- The region, the page number and the address space. -/
  entryHi : b.get entryHi = e.entryHi
  /-- The even page, with the global bit of the entry. -/
  even : b.get entryLo0 = e.readPage e.entryLo0
  /-- The odd page, with the global bit of the entry. -/
  odd : b.get entryLo1 = e.readPage e.entryLo1

theorem shows_showEntry (c : Cpu) (e : TlbEntry) : Shows (c.showEntry e).cp0 e := by
  unfold showEntry
  dsimp only
  constructor
  · rw [ControlRegisters.get_put_of_ne _ _ (show entryLo1 ≠ pageMask by decide),
      ControlRegisters.get_put_of_ne _ _ (show entryLo0 ≠ pageMask by decide),
      ControlRegisters.get_put_of_ne _ _ (show entryHi ≠ pageMask by decide),
      ControlRegisters.get_put_self _ _ (by decide)]
  · rw [ControlRegisters.get_put_of_ne _ _ (show entryLo1 ≠ entryHi by decide),
      ControlRegisters.get_put_of_ne _ _ (show entryLo0 ≠ entryHi by decide),
      ControlRegisters.get_put_self _ _ (by decide)]
  · rw [ControlRegisters.get_put_of_ne _ _ (show entryLo1 ≠ entryLo0 by decide),
      ControlRegisters.get_put_self _ _ (by decide)]
  · rw [ControlRegisters.get_put_self _ _ (by decide)]

/-- A read of an entry leaves the number of the entry. -/
theorem index_showEntry (c : Cpu) (e : TlbEntry) : (c.showEntry e).cp0.get index = c.cp0.get index := by
  unfold showEntry
  dsimp only
  rw [ControlRegisters.get_put_of_ne _ _ (show entryLo1 ≠ index by decide),
    ControlRegisters.get_put_of_ne _ _ (show entryLo0 ≠ index by decide),
    ControlRegisters.get_put_of_ne _ _ (show entryHi ≠ index by decide),
    ControlRegisters.get_put_of_ne _ _ (show pageMask ≠ index by decide)]

/-- **Registers that show an entry** describe the one that is restored from it. -/
theorem describedEntry_of_shows {c : Cpu} {e : TlbEntry} (h : Shows c.cp0 e) : c.describedEntry = e.restored := by
  unfold describedEntry TlbEntry.restored
  rw [h.pageMask, h.entryHi, h.even, h.odd]

/-- **A read** of an entry leaves the entries, and shows it in the registers. -/
theorem after_readIndexed (c : Cpu) : (c.executionOf Encoding.readIndexed).completes = true ∧
    (c.executionOf Encoding.readIndexed).after.tlb = c.tlb ∧
    (c.executionOf Encoding.readIndexed).after.indexedEntry = c.indexedEntry ∧
    Shows (c.executionOf Encoding.readIndexed).after.cp0 (c.tlb.get c.indexedEntry) := by
  have hdecode : Instruction.decode Encoding.readIndexed = .system .tlbr := by decide
  obtain ⟨hcompletes, hlasting⟩ := lasting_after_system hdecode (show c.planSystem .tlbr = _ from rfl)
  have hget {r : Reg} (hcount : r ≠ count) (hcause : r ≠ cause) :
      (c.executionOf Encoding.readIndexed).after.cp0.get r = (c.showEntry (c.tlb.get c.indexedEntry)).cp0.get r :=
    ControlRegisters.get_of_lasting (congrArg Cpu.cp0 hlasting) hcount hcause
  have hshows := c.shows_showEntry (c.tlb.get c.indexedEntry)
  refine ⟨hcompletes, same_of_lasting hlasting (·.tlb) fun _ => rfl, ?_, ?_⟩
  · unfold indexedEntry
    rw [hget (by decide) (by decide), index_showEntry]
  · exact ⟨(hget (by decide) (by decide)).trans hshows.pageMask, (hget (by decide) (by decide)).trans hshows.entryHi,
      (hget (by decide) (by decide)).trans hshows.even, (hget (by decide) (by decide)).trans hshows.odd⟩

/-- **An entry that is written and read again** shows what the registers described. -/
theorem shows_of_written (c : Cpu) :
    let written := c.executionOf Encoding.writeIndexed
    let shown := written.after.executionOf Encoding.readIndexed
    written.completes = true ∧ shown.completes = true ∧ Shows shown.after.cp0 c.describedEntry := by
  intro written shown
  obtain ⟨hwritten, htlb, hregisters⟩ := c.after_writeIndexed
  obtain ⟨hshown, -, -, hshows⟩ := written.after.after_readIndexed
  have hindex : written.after.indexedEntry = c.indexedEntry := by
    unfold indexedEntry
    rw [hregisters index (by decide) (by decide)]
  have hentry : written.after.tlb.get written.after.indexedEntry = c.describedEntry := by
    rw [hindex, htlb, Tlb.get_set_self]
  exact ⟨hwritten, hshown, hentry ▸ hshows⟩

/-- **An entry that is read and written again** is replaced by the one that is restored from it. -/
theorem tlb_of_shown (c : Cpu) :
    let shown := c.executionOf Encoding.readIndexed
    let written := shown.after.executionOf Encoding.writeIndexed
    shown.completes = true ∧ written.completes = true ∧
      written.after.tlb = c.tlb.set c.indexedEntry (c.tlb.get c.indexedEntry).restored := by
  intro shown written
  obtain ⟨hshown, htlb, hindex, hshows⟩ := c.after_readIndexed
  obtain ⟨hwritten, hset, -⟩ := shown.after.after_writeIndexed
  refine ⟨hshown, hwritten, hset.trans ?_⟩
  rw [htlb, hindex, describedEntry_of_shows hshows]

end Cpu

/-! ## Saving and restoring -/

namespace ControlRegisters

variable (b : ControlRegisters)

theorem canonicalPageMask_content :
    TlbEntry.canonicalPageMask (b.content pageMask) = TlbEntry.canonicalPageMask (b.get pageMask) :=
  TlbEntry.canonicalPageMask_and _

theorem content_entryHi : b.content entryHi = b.get entryHi &&& (TlbEntry.pageNumberBits ||| TlbEntry.asidBits) := rfl

theorem content_entryLo0 : b.content entryLo0 = b.get entryLo0 &&& TlbEntry.pageBits := rfl

theorem content_entryLo1 : b.content entryLo1 = b.get entryLo1 &&& TlbEntry.pageBits := rfl

end ControlRegisters

/-- **Entries are saved and restored without loss.** In every state, an entry that is written and read again shows the
canonical page mask, the contents of EntryHi that the page mask does not cover, and the contents of both pages with
the conjunction of their global bits. And whatever the entries are, one that is read and written again is not told
from the one that it was: whatever is written later, all translations and all probes come to the same, and every entry
shows the same. -/
theorem entry_saved_and_restored (c : Cpu) :
    (let written := c.executionOf Encoding.writeIndexed
      let shown := written.after.executionOf Encoding.readIndexed
      let mask := TlbEntry.canonicalPageMask (c.cp0.content pageMask)
      let bothGlobal := c.cp0.content entryLo0 &&& c.cp0.content entryLo1 &&& TlbEntry.globalBit
      written.completes = true ∧ shown.completes = true ∧
        shown.after.readControl pageMask = mask ∧
        shown.after.readControl entryHi = c.cp0.content entryHi &&& ~~~mask ∧
        shown.after.readControl entryLo0 = (c.cp0.content entryLo0 &&& ~~~TlbEntry.globalBit) ||| bothGlobal ∧
        shown.after.readControl entryLo1 = (c.cp0.content entryLo1 &&& ~~~TlbEntry.globalBit) ||| bothGlobal) ∧
    (c.tlb.Written →
      let shown := c.executionOf Encoding.readIndexed
      let written := shown.after.executionOf Encoding.writeIndexed
      shown.completes = true ∧ written.completes = true ∧ ∀ later : List (TlbIndex × TlbEntry),
        (∀ address access asid, (written.after.tlb.writes later).translate address access asid =
          (c.tlb.writes later).translate address access asid) ∧
        (∀ hi, (written.after.tlb.writes later).probe? hi = (c.tlb.writes later).probe? hi) ∧
        ∀ (d : Cpu) (i : TlbIndex), d.showEntry ((written.after.tlb.writes later).get i) =
          d.showEntry ((c.tlb.writes later).get i)) ∧
    ∀ mask, TlbEntry.canonicalPageMask (TlbEntry.canonicalPageMask mask) = TlbEntry.canonicalPageMask mask := by
  refine ⟨?_, fun htlb => ?_, TlbEntry.canonicalPageMask_idem⟩
  · obtain ⟨hwritten, hshown, hshows⟩ := c.shows_of_written
    refine ⟨hwritten, hshown, hshows.pageMask.trans ?_, hshows.entryHi.trans ?_, hshows.even.trans ?_,
      hshows.odd.trans ?_⟩
    · exact c.cp0.canonicalPageMask_content.symm
    · rw [c.cp0.canonicalPageMask_content, c.cp0.content_entryHi]
      exact TlbEntry.ofRegisters_entryHi _ _ _ _
    · rw [c.cp0.content_entryLo0, c.cp0.content_entryLo1]
      exact TlbEntry.readPage_ofRegisters _ _ _ _ _
    · rw [c.cp0.content_entryLo0, c.cp0.content_entryLo1]
      exact TlbEntry.readPage_ofRegisters _ _ _ _ _
  · obtain ⟨hshown, hwritten, hset⟩ := c.tlb_of_shown
    refine ⟨hshown, hwritten, fun later => ?_⟩
    have halike : c.tlb.Alike _ := Tlb.alike_set_restored htlb c.indexedEntry
    rw [← hset] at halike
    have hlater := halike.writes later
    exact ⟨hlater.translate, hlater.probe?, fun d i => (hlater i).showEntry d⟩

/-- A pair of pages is written under a page mask that is not canonical, and the entry is read and written again. -/
theorem entry_saved_and_restored_pair :
    let c := ((Machine.create {} {} {}).performAll
      [.writeControl pageMask 0x4000, .writeControl entryHi 0x10200A, .writeControl entryLo0 0x10007,
        .writeControl entryLo1 0x20006, .writeControl index 5]).cpu
    let d := (c.executionOf Encoding.writeIndexed).after
    let shown := (d.executionOf Encoding.readIndexed).after
    let restored := (shown.executionOf Encoding.writeIndexed).after
    d.tlb.Written ∧ shown.readControl pageMask = 0x6000 ∧ shown.readControl entryHi = 0x10000A ∧
      shown.readControl entryLo0 = 0x10006 ∧ restored.tlb.translate 0x104ABC .write 0x0A = .ok 0x800ABC := by
  intro c d shown restored
  have hinitial : c.tlb = {} := by decide +kernel
  have hwritten : d.tlb.Written := by
    rw [c.after_writeIndexed.2.1, hinitial]
    exact .write .initial _ _ _ _ _
  obtain ⟨⟨-, -, hmask, hhi, heven, -⟩, -⟩ := entry_saved_and_restored c
  obtain ⟨-, -, hsame⟩ := (entry_saved_and_restored d).2.1 hwritten
  obtain ⟨htranslate, -⟩ := hsame []
  exact ⟨hwritten, hmask.trans (by decide +kernel), hhi.trans (by decide +kernel), heven.trans (by decide +kernel),
    (htranslate 0x104ABC .write 0x0A).trans (by decide +kernel)⟩

end Vr4300
