import Mathlib.Data.List.Perm.Subperm
import Vr4300.Proofs.Ledger
import Vr4300.Proofs.Refill

/-!
# `Proofs.Countdown` — the number of a random TLB write

Random is not stored. It is computed from Wired, the cycle counter and the cycle at which Wired was written last: it
falls by one in a cycle, from 31 to Wired, and starts again at 31. What the history says about it is a `Dial`: the
value of Wired, and the cycles that have passed since it was written or since the reset. An instruction turns the
dial by the cycles that it takes, and starts it anew if it writes Wired; how it was executed, and when its cycle was
accounted for, makes no difference.

The cycle counter has 64 bits, so the dial and the counter agree modulo 2^64, and the countdown is regular as long as
their difference does not wrap around.

## Contents

* `Dial`, `Dial.random_bounds`, `Dial.random_pass_one`, `Dial.perm_turn`: the countdown;
* `Cpu.AtDial`, `AtDial.random`: the processor and the dial; `Cpu.origin`, with one lemma per operation;
* `Execution.dial`, `Execution.atDial_after`: one instruction;
* `Happening.dial`, `dialAfter`, and **`kept_dial`**: any history;
* `Happening.Regular`, `randoms`, `CountsDown`, and **`countsDown_randoms`**: cycles in a row.
-/

namespace Vr4300

open Control

/-! ## The dial -/

/-- What the history says about Random. -/
structure Dial where
  /-- What Wired holds; it has six bits. -/
  wired : Fin 64 := 0
  /-- The cycles since it was written, or since the reset. -/
  elapsed : Nat := 0
deriving DecidableEq, Repr

namespace Dial

/-- The lowest entry that Random gets to; there are only 32 entries. -/
def floor (d : Dial) : Nat := min d.wired 31

/-- Random: it falls from 31 once a cycle, and from the floor back to 31. The cycles are known modulo 2^64. -/
def random (d : Dial) : Nat := 31 - d.elapsed % 2 ^ 64 % (32 - d.floor)

/-- Wired is written. -/
def written (v : UInt64) : Dial := ⟨Fin.ofNat 64 v.toNat, 0⟩

/-- Cycles pass. -/
def pass (d : Dial) (n : Nat) : Dial := { d with elapsed := d.elapsed + n }

@[simp] theorem floor_pass (d : Dial) (n : Nat) : (d.pass n).floor = d.floor := rfl

@[simp] theorem pass_pass (d : Dial) (m n : Nat) : (d.pass m).pass n = d.pass (m + n) := by
  unfold pass
  rw [Nat.add_assoc]

theorem floor_le (d : Dial) : d.floor ≤ 31 := Nat.min_le_right _ _

/-- **Random** stays between the floor and 31. -/
theorem random_bounds (d : Dial) : d.floor ≤ d.random ∧ d.random ≤ 31 := by
  have hfloor := d.floor_le
  have hmod := Nat.mod_lt (d.elapsed % 2 ^ 64) (show 0 < 32 - d.floor by omega)
  unfold random
  omega

theorem random_written (v : UInt64) : (written v).random = 31 := by
  unfold random written
  rw [Nat.zero_mod, Nat.zero_mod]

/-- A step around a circle. -/
theorem succ_mod (k : Nat) {n : Nat} (h : 0 < n) : (k + 1) % n = if k % n = n - 1 then 0 else k % n + 1 := by
  have hlt := Nat.mod_lt k h
  rw [← Nat.mod_add_mod]
  split
  · rename_i hlast
    rw [hlast, Nat.sub_add_cancel h, Nat.mod_self]
  · exact Nat.mod_eq_of_lt (by omega)

/-- **Random falls** by one in a cycle, and from the floor back to 31. -/
theorem random_pass_one {d : Dial} (h : d.elapsed % 2 ^ 64 + 1 < 2 ^ 64) :
    (d.pass 1).random = if d.random = d.floor then 31 else d.random - 1 := by
  have hfloor := d.floor_le
  have hspan : 0 < 32 - d.floor := by omega
  have hlt := Nat.mod_lt (d.elapsed % 2 ^ 64) hspan
  have hnext := succ_mod (d.elapsed % 2 ^ 64) hspan
  unfold random
  rw [floor_pass, show (d.pass 1).elapsed = d.elapsed + 1 from rfl, ← Nat.mod_add_mod, Nat.mod_eq_of_lt h, hnext]
  split <;> split <;> omega

/-- **A full turn** takes every value from the floor to 31 once. -/
theorem perm_turn {d : Dial} (h : d.elapsed % 2 ^ 64 + (32 - d.floor) ≤ 2 ^ 64) :
    ((List.range (32 - d.floor)).map fun i => (d.pass i).random).Perm (List.range' d.floor (32 - d.floor)) := by
  have hfloor := d.floor_le
  have hspan : 0 < 32 - d.floor := by omega
  have hvalue {i : Nat} (hi : i < 32 - d.floor) :
      (d.pass i).random = 31 - (d.elapsed % 2 ^ 64 + i) % (32 - d.floor) := by
    unfold random
    rw [floor_pass, show (d.pass i).elapsed = d.elapsed + i from rfl, ← Nat.mod_add_mod,
      Nat.mod_eq_of_lt (show d.elapsed % 2 ^ 64 + i < 2 ^ 64 by omega)]
  have hnodup : ((List.range (32 - d.floor)).map fun i => (d.pass i).random).Nodup := by
    refine List.Nodup.map_on ?_ List.nodup_range
    intro i hi j hj heq
    rw [List.mem_range] at hi hj
    have hi' := Nat.mod_lt (d.elapsed % 2 ^ 64 + i) hspan
    have hj' := Nat.mod_lt (d.elapsed % 2 ^ 64 + j) hspan
    rw [hvalue hi, hvalue hj] at heq
    have hmod : d.elapsed % 2 ^ 64 + i ≡ d.elapsed % 2 ^ 64 + j [MOD 32 - d.floor] := by
      unfold Nat.ModEq
      omega
    exact Nat.ModEq.eq_of_lt_of_lt (Nat.ModEq.add_left_cancel' _ hmod) hi hj
  have hsubset : ((List.range (32 - d.floor)).map fun i => (d.pass i).random) ⊆
      List.range' d.floor (32 - d.floor) := by
    intro v hv
    obtain ⟨i, -, rfl⟩ := List.mem_map.mp hv
    obtain ⟨hlow, hhigh⟩ := (d.pass i).random_bounds
    rw [floor_pass] at hlow
    rw [List.mem_range'_1]
    omega
  refine (hnodup.subperm hsubset).perm_of_length_le ?_
  rw [List.length_map, List.length_range, List.length_range']

end Dial

/-! ## What a processor shows -/

/-- A software write of Wired changes six bits. -/
theorem blend_wired {old : UInt64} (h : old.toNat < 64) (v : UInt64) :
    blend old v 0x3F = UInt64.ofNat (v.toNat % 64) := by
  have hmask (x : UInt64) : (x &&& 0x3F).toNat = x.toNat % 64 := by
    rw [UInt64.toNat_and]
    exact Nat.and_two_pow_sub_one_eq_mod x.toNat 6
  have hold : old &&& 0x3F = old := UInt64.toNat_inj.mp ((hmask old).trans (Nat.mod_eq_of_lt h))
  have hclear : old &&& ~~~0x3F = 0 := by
    rw [← hold, UInt64.and_assoc, UInt64.and_not_self, UInt64.and_zero]
  unfold blend
  rw [hclear, UInt64.zero_or, ← hmask, UInt64.ofNat_toNat]

/-- The value that the effect writes to Wired. -/
def Effect.wired? : Effect → Option UInt64
  | .control r v => if r = Control.wired then some v else Option.none
  | _ => Option.none

namespace Cpu

/-- The lowest entry that Random gets to: the one that Wired names, if there is one. -/
def randomFloor (c : Cpu) : Nat := min (c.cp0.get wired).toNat 31

/-- Random, as a number. -/
theorem toNat_random (c : Cpu) :
    c.random.toNat = 31 - (c.cycles - c.randomEpoch).toNat % (32 - c.randomFloor) := by
  have hfloor : (min (c.cp0.get wired) 31).toNat = c.randomFloor := UInt64.toNat_min _ _
  unfold random
  dsimp only
  generalize min (c.cp0.get wired) 31 = floor at hfloor ⊢
  rw [← hfloor]
  have hle : floor.toNat ≤ 31 := hfloor ▸ Nat.min_le_right _ _
  have hspan : (32 - floor).toNat = 32 - floor.toNat :=
    UInt64.toNat_sub_of_le _ _ (UInt64.le_iff_toNat_le.mpr (Nat.le_succ_of_le hle))
  have hrest : ((c.cycles - c.randomEpoch) % (32 - floor)).toNat =
      (c.cycles - c.randomEpoch).toNat % (32 - floor.toNat) := by
    rw [UInt64.toNat_mod, hspan]
  have hlt := Nat.mod_lt (c.cycles - c.randomEpoch).toNat (show 0 < 32 - floor.toNat by omega)
  have hlast : (32 - floor - 1).toNat = 31 - floor.toNat := by
    rw [UInt64.toNat_sub_of_le _ _ (UInt64.le_iff_toNat_le.mpr ?_), hspan]
    · exact Nat.sub_right_comm _ _ _
    · rw [hspan]
      exact Nat.le_sub_of_add_le (Nat.add_le_add_left hle 1)
  have hfall : (32 - floor - 1 - (c.cycles - c.randomEpoch) % (32 - floor)).toNat =
      31 - floor.toNat - (c.cycles - c.randomEpoch).toNat % (32 - floor.toNat) := by
    rw [UInt64.toNat_sub_of_le _ _ (UInt64.le_iff_toNat_le.mpr ?_), hlast, hrest]
    rw [hlast, hrest]
    omega
  rw [UInt64.toNat_add, hfall]
  omega

/-- **Random** stays between the floor and 31, in every state. -/
theorem random_bounds (c : Cpu) : c.randomFloor ≤ c.random.toNat ∧ c.random.toNat ≤ 31 := by
  have hfloor : c.randomFloor ≤ 31 := Nat.min_le_right _ _
  have hlt := Nat.mod_lt (c.cycles - c.randomEpoch).toNat (show 0 < 32 - c.randomFloor by omega)
  rw [toNat_random]
  omega

/-- Wired, and the cycle at which it was written. -/
def origin (c : Cpu) : UInt64 × UInt64 := (c.cp0.get wired, c.randomEpoch)

/-- **The processor shows the dial**: Wired holds what it says, and as many cycles have passed. -/
structure AtDial (c : Cpu) (d : Dial) : Prop where
  /-- Wired. -/
  wired : c.cp0.get wired = UInt64.ofNat d.wired
  /-- The cycles, modulo 2^64. -/
  elapsed : c.cycles - c.randomEpoch = UInt64.ofNat d.elapsed

theorem AtDial.floor {c : Cpu} {d : Dial} (h : c.AtDial d) : c.randomFloor = d.floor := by
  have hlt := d.wired.isLt
  unfold randomFloor Dial.floor
  rw [h.wired, UInt64.toNat_ofNat', Nat.mod_eq_of_lt (by omega)]

/-- **Random** is what the dial says. -/
theorem AtDial.random {c : Cpu} {d : Dial} (h : c.AtDial d) : c.random.toNat = d.random := by
  rw [toNat_random, h.floor, h.elapsed, UInt64.toNat_ofNat']
  rfl

theorem AtDial.of_origin {c c' : Cpu} {d : Dial} (h : c.AtDial d) (horigin : c'.origin = c.origin)
    (hcycles : c'.cycles = c.cycles) : c'.AtDial d := by
  obtain ⟨hwired, hepoch⟩ := Prod.mk.inj horigin
  exact ⟨hwired.trans h.wired, by rw [hcycles, hepoch, h.elapsed]⟩

/-! ## What leaves it alone -/

theorem origin_put (c : Cpu) {r : Reg} (v : UInt64) (hr : r ≠ wired) :
    ({ c with cp0 := c.cp0.put r v } : Cpu).origin = c.origin :=
  Prod.ext (ControlRegisters.get_put_of_ne _ _ hr) rfl

theorem origin_of_lasting {a b : Cpu} (h : a.lasting = b.lasting) : a.origin = b.origin :=
  Prod.ext (ControlRegisters.get_of_lasting (r := wired) (congrArg Cpu.cp0 h) (by decide) (by decide))
    (same_of_lasting h (·.randomEpoch) fun _ => rfl)

theorem origin_updateInterrupts (c : Cpu) : c.updateInterrupts.origin = c.origin :=
  origin_of_lasting (lasting_updateInterrupts c)

theorem origin_statusChanged (c : Cpu) : c.statusChanged.origin = c.origin := origin_updateInterrupts _

theorem origin_schedule (c : Cpu) (kind : EventKind) (n : Int) (action : TimerAction) :
    (c.schedule kind n action).origin = c.origin :=
  origin_of_lasting (lasting_schedule c kind n action)

/-- A write of another control register than Wired. -/
theorem origin_writeControl (c : Cpu) {r : Reg} (v : UInt64) (hr : r ≠ wired) :
    (c.writeControl r v).origin = c.origin := by
  unfold writeControl
  cases hw : c.cp0.write? r v with
  | none => rfl
  | some cp0 =>
    have hwritten : ({ c with cp0 := cp0 } : Cpu).origin = c.origin :=
      Prod.ext (ControlRegisters.get_write? hw hr (by decide)) rfl
    dsimp only
    split
    · exact (origin_schedule _ _ _ _).trans hwritten
    split
    · exact ((origin_updateInterrupts _).trans (origin_schedule _ _ _ _)).trans
        ((origin_put { c with cp0 := cp0 } _ (by decide)).trans hwritten)
    split
    · exact (origin_statusChanged _).trans hwritten
    split
    · exact (origin_updateInterrupts _).trans hwritten
    exact hwritten

/-- **A write of Wired** starts the count at this cycle. -/
theorem writeControl_wired (c : Cpu) (v : UInt64) : c.writeControl wired v =
    { c with cp0 := c.cp0.put wired (blend (c.cp0.values.read wired) v 0x3F), randomEpoch := c.cycles } := rfl

theorem cycles_writeControl (c : Cpu) (r : Reg) (v : UInt64) : (c.writeControl r v).cycles = c.cycles :=
  congrArg Surround.cycles (surround_writeControl c r v)

/-- **A write of Wired** makes Random 31, for the cycle in which it is made. -/
theorem random_writeControl_wired (c : Cpu) (v : UInt64) : (c.writeControl wired v).random = 31 := by
  apply UInt64.toNat_inj.mp
  rw [toNat_random, writeControl_wired]
  dsimp only
  rw [UInt64.sub_self]
  exact congrArg (31 - ·) (Nat.zero_mod _)

/-- A write of a control register turns the dial if it is Wired. -/
theorem AtDial.writeControl {c : Cpu} {d : Dial} (h : c.AtDial d) (r : Reg) (v : UInt64) :
    (c.writeControl r v).AtDial ((Effect.control r v).wired?.elim d .written) := by
  unfold Effect.wired?
  dsimp only
  split
  · rename_i hr
    subst hr
    have hlt := d.wired.isLt
    have hold : (c.cp0.values.read Control.wired).toNat < 64 := by
      rw [show c.cp0.values.read Control.wired = UInt64.ofNat d.wired from h.wired, UInt64.toNat_ofNat',
        Nat.mod_eq_of_lt (by omega)]
      exact hlt
    rw [writeControl_wired, blend_wired hold]
    exact ⟨RegisterFile.read_write_self _ _ _, UInt64.sub_self _⟩
  · rename_i hr
    exact h.of_origin (c.origin_writeControl v hr) (c.cycles_writeControl r v)

theorem origin_deliver (c : Cpu) (w : Width) (v : UInt64) (d : Destination) : (c.deliver w v d).origin = c.origin := by
  cases d with
  | linked rt physical => exact origin_put (c.setRegister rt (w.signExtend v)) _ (by decide)
  | float p ft => cases p <;> rfl
  | _ => rfl

theorem origin_readAt (c : Cpu) (w : Width) (l : Location) : (c.readAt w l).2.origin = c.origin := by
  cases l <;> rfl

theorem origin_writeAt (c : Cpu) (w : Width) (l : Location) (v : UInt64) : (c.writeAt w l v).origin = c.origin := by
  cases l <;> rfl

theorem origin_showEntry (c : Cpu) (e : TlbEntry) : (c.showEntry e).origin = c.origin := by
  have hput {b : ControlRegisters} {r : Reg} (v : UInt64) (hr : r ≠ wired) : (b.put r v).get wired = b.get wired :=
    ControlRegisters.get_put_of_ne b v hr
  refine Prod.ext ?_ rfl
  exact ((hput _ (by decide)).trans (hput _ (by decide))).trans ((hput _ (by decide)).trans (hput _ (by decide)))

/-- **An effect** touches neither, unless it is a write of Wired. -/
theorem origin_apply (c : Cpu) {e : Effect} (h : ∀ v, e ≠ .control wired v) : (c.apply e).origin = c.origin := by
  cases e with
  | load w source into => exact (origin_deliver _ _ _ _).trans (origin_readAt _ _ _)
  | store w target v => exact origin_writeAt c w target v
  | storeMasked w target v mask => exact (origin_writeAt _ _ _ _).trans (origin_readAt _ _ _)
  | storeLinked w target v rt => exact origin_writeAt c w target v
  | control rd v => exact origin_writeControl c v fun hr => h v (hr ▸ rfl)
  | entryRegisters e => exact origin_showEntry c e
  | index v => exact origin_put c v (by decide)
  | leaveException => exact (origin_statusChanged _).trans (origin_put c _ (by decide))
  | float p fd bits fcr31 => cases p <;> rfl
  | _ => rfl

theorem origin_follow (c : Cpu) (base : UInt64) (f : Flow) : (c.follow base f).origin = c.origin := by
  cases f <;> rfl

theorem origin_enterException (c : Cpu) (t : Trap) (inDelay : Bool) :
    (c.enterException t inDelay).origin = c.origin := by
  have hcause (b : Cpu) (v : UInt64) : ({ b with cp0 := b.cp0.put cause v } : Cpu).origin = b.origin :=
    origin_put b v (by decide)
  have hreturn : (c.saveReturn inDelay).origin = c.origin := by
    unfold saveReturn
    cases inDelay <;> exact (hcause _ _).trans (origin_put c _ (by decide))
  unfold enterException
  split
  · exact hcause _ _
  · exact (hcause _ _).trans hreturn

theorem origin_saveBadAddress (c : Cpu) (t : Trap) : (c.saveBadAddress t).origin = c.origin := by
  have hput {b : ControlRegisters} {r : Reg} (v : UInt64) (hr : r ≠ wired) : (b.put r v).get wired = b.get wired :=
    ControlRegisters.get_put_of_ne b v hr
  unfold saveBadAddress
  split
  · rfl
  · dsimp only
    split
    · refine Prod.ext ?_ rfl
      exact ((hput _ (by decide)).trans (hput _ (by decide))).trans
        ((hput _ (by decide)).trans (hput _ (by decide)))
    · exact Prod.ext (hput _ (by decide)) rfl

/-- **An exception** touches neither. -/
theorem origin_takeException (c : Cpu) (t : Trap) (inDelay : Bool) : (c.takeException t inDelay).origin = c.origin := by
  obtain ⟨vector, statistics, h⟩ := takeException_eq c t inDelay
  rw [h]
  have hsaved := (origin_saveBadAddress _ t).trans (c.origin_enterException t inDelay)
  refine (origin_statusChanged _).trans (Eq.trans ?_ hsaved)
  exact origin_put ((c.enterException t inDelay).saveBadAddress t) _ (by decide)

end Cpu

/-! ## Instructions -/

/-- **An effect** turns the dial if it writes Wired. -/
theorem Cpu.AtDial.apply {c : Cpu} {d : Dial} (h : c.AtDial d) (e : Effect) :
    (c.apply e).AtDial (e.wired?.elim d .written) := by
  have hcycles : (c.apply e).cycles = c.cycles := congrArg Surround.cycles (c.surround_apply e)
  cases e with
  | control r v => exact h.writeControl r v
  | _ => exact h.of_origin (c.origin_apply (by simp)) hcycles

namespace Execution

/-- The value that the instruction writes to Wired. -/
def wired? (e : Execution) : Option UInt64 :=
  match e.planned with
  | .ok p => p.effect.wired?
  | .error _ => none

/-- The cycles that the instruction takes: none if it stops the machine. -/
def cycles (e : Execution) : Nat := if e.worked.isSome then 1 + e.idleCycles else 0

/-- The dial behind an instruction. -/
def dial (d : Dial) (e : Execution) : Dial := (e.wired?.elim d .written).pass e.cycles

variable {e : Execution} {d : Dial}

/-- The work of an instruction, before its cycle passes. -/
theorem atDial_worked {b : Cpu} (h : e.worked = some b) (hd : e.before.AtDial d) :
    b.AtDial (e.wired?.elim d .written) := by
  obtain ⟨before, word, planned⟩ := e
  cases planned with
  | ok p =>
    obtain rfl := Option.some.inj h
    exact (hd.apply p.effect).of_origin (Cpu.origin_follow _ _ _) (congrArg Surround.cycles (Cpu.surround_follow _ _ _))
  | error f =>
    have htake (c : Cpu) (t : Trap) (inDelay : Bool) (hc : c.AtDial d) : (c.takeException t inDelay).AtDial d :=
      hc.of_origin (c.origin_takeException t inDelay) (congrArg Surround.cycles (c.surround_takeException t inDelay))
    cases f with
    | trap t =>
      obtain rfl := Option.some.inj h
      exact htake before t _ hd
    | floatingPoint fcr31 =>
      obtain rfl := Option.some.inj h
      exact htake { before with fcr31 := fcr31 } _ _ ⟨hd.wired, hd.elapsed⟩
    | fatal x => cases h

/-- **Behind an instruction** the processor shows what the instruction did to the dial. -/
theorem atDial_after (hT : e.before.Timed) (hd : e.before.AtDial d) : e.after.AtDial (e.dial d) := by
  unfold dial cycles
  cases hw : e.worked with
  | none =>
    have hsame : e.wired? = none := by
      obtain ⟨before, word, planned⟩ := e
      cases planned with
      | ok p => cases hw
      | error f => rfl
    rw [e.after_eq, hw, hsame]
    exact hd
  | some b =>
    have hb := atDial_worked hw hd
    have hcycles : e.after.cycles = b.cycles + (1 + UInt64.ofNat e.idleCycles) := by
      rw [cycles_after hw hT, show b.cycles = e.before.cycles from congrArg Surround.cycles (surround_worked hw),
        UInt64.add_assoc]
    obtain ⟨hwired, hepoch⟩ := Prod.mk.inj (Cpu.origin_of_lasting (lasting_after hw))
    refine ⟨hwired.trans hb.wired, ?_⟩
    have hlater (x y z : UInt64) : x + y - z = x - z + y := by
      rw [UInt64.sub_eq_add_neg, UInt64.sub_eq_add_neg, UInt64.add_assoc, UInt64.add_assoc, UInt64.add_comm y]
    rw [hcycles, hepoch, hlater, hb.elapsed]
    exact ((UInt64.ofNat_add _ _).trans (congrArg (_ + ·) (UInt64.ofNat_add 1 _))).symm

end Execution

/-! ## Histories -/

/-- The dial behind a happening. -/
def Happening.dial (d : Dial) : Happening → Dial
  | .executed e => e.dial d
  | .wrote r v => (Effect.control r v).wired?.elim d .written
  | .reset => {}

/-- **The dial behind a journal**, from a reset on. -/
def dialAfter (journal : List Happening) : Dial := journal.foldl Happening.dial {}

theorem Quiet.origin {a b : Cpu} (h : Quiet a b) : b.origin = a.origin := by
  cases h with
  | sample => exact a.origin_updateInterrupts
  | interrupt => exact a.origin_takeException _ _
  | outside => rfl

namespace Cpu

/-- A reset clears Wired and the counter. -/
theorem atDial_reset (c : Cpu) : c.reset.AtDial {} := by
  let fresh : Cpu :=
    { pc := c.settings.startPc
      cp0 := .atReset c.resetValues.initialStatus c.resetValues.initialConfig
      ram := c.ram
      bus := c.bus
      line := c.line
      tlbDirty := true
      settings := c.settings
      resetValues := c.resetValues }
  have hwired : fresh.cp0.get wired = 0 := by
    show (((RegisterFile.filled (0 : UInt64)).write status _).write Control.config _ |>.write prId _
      |>.write Control.random _).read wired = 0
    rw [RegisterFile.read_write_of_ne _ _ (by decide), RegisterFile.read_write_of_ne _ _ (by decide),
      RegisterFile.read_write_of_ne _ _ (by decide), RegisterFile.read_write_of_ne _ _ (by decide),
      RegisterFile.read_filled]
  have hfresh : fresh.AtDial {} := ⟨hwired, UInt64.sub_self 0⟩
  have hstatus : fresh.statusChanged.AtDial {} := hfresh.of_origin fresh.origin_statusChanged rfl
  have hcompare : fresh.statusChanged.scheduleCompare.AtDial {} :=
    hstatus.of_origin (origin_schedule { fresh.statusChanged with events := _ } .compare _ .compareMatch)
      (congrArg Surround.cycles (surround_schedule { fresh.statusChanged with events := _ } .compare _ .compareMatch))
  exact hcompare.of_origin (origin_updateInterrupts _) rfl

end Cpu

/-- **The ledger of the dial.** -/
def Ledger.dial : Ledger Dial where
  Holds := Cpu.AtDial
  enter := Happening.dial
  quiet hq h := h.of_origin hq.origin hq.cycles
  apart _ _ _ h := ⟨h.wired, h.elapsed⟩
  executed hT h := Execution.atDial_after hT h
  wrote r v h := h.writeControl r v
  reset _ := Cpu.atDial_reset _

/-- **Random, whatever is done to a machine**: the history says what each instruction finds, and what is left. -/
theorem kept_dial (config : Configuration) (bus : Bus) (vector : VectorUnit) (visits : List Visit) :
    Ledger.dial.Kept ((Machine.create config bus vector).journal (visits.map Visit.action)) {}
      ((Machine.create config bus vector).receive visits).cpu :=
  Ledger.kept_receive visits (Machine.atRest_create config bus vector)
    ((Cpu.atDial_reset _).of_origin rfl rfl)

/-! ## Cycles in a row -/

/-- What Random is for an instruction. -/
def Happening.random? : Happening → Option Nat
  | .executed e => some e.before.random.toNat
  | .wrote _ _ => none
  | .reset => none

/-- What Random is for the instructions of a journal, one after the other. -/
def randoms (journal : List Happening) : List Nat := journal.filterMap Happening.random?

/-- **Nothing disturbs the countdown**: an instruction takes one cycle, nobody writes Wired, and there is no reset. -/
def Happening.Regular : Happening → Prop
  | .executed e => e.cycles = 1 ∧ e.wired? = none
  | .wrote r _ => r ≠ wired
  | .reset => False

instance : DecidablePred Happening.Regular
  | .executed e => inferInstanceAs (Decidable (e.cycles = 1 ∧ e.wired? = none))
  | .wrote r _ => inferInstanceAs (Decidable (r ≠ wired))
  | .reset => inferInstanceAs (Decidable False)

/-- **Values count down** to a floor, and from there begin again at 31. -/
structure CountsDown (floor : Nat) (values : List Nat) : Prop where
  /-- Each value but the first follows from the one before it. -/
  falls : ∀ i (h : i + 1 < values.length), values[i + 1] = if values[i] = floor then 31 else values[i] - 1
  /-- If there are as many as from the floor to 31, each of these is there once. -/
  turn : values.length = 32 - floor → values.Perm (List.range' floor (32 - floor))

/-- **The dial** counts down. -/
theorem Dial.countsDown {d : Dial} {n : Nat} (h : d.elapsed % 2 ^ 64 + n ≤ 2 ^ 64) :
    CountsDown d.floor ((List.range n).map fun i => (d.pass i).random) where
  falls i hi := by
    rw [List.length_map, List.length_range] at hi
    have hnext : (d.pass i).elapsed % 2 ^ 64 + 1 < 2 ^ 64 := by
      show (d.elapsed + i) % 2 ^ 64 + 1 < 2 ^ 64
      omega
    have hfall := random_pass_one hnext
    rw [pass_pass, floor_pass] at hfall
    simpa using hfall
  turn hlength := by
    rw [List.length_map, List.length_range] at hlength
    subst hlength
    exact perm_turn h

/-- Where nothing disturbs it, Random is read off the dial. -/
theorem randoms_of_regular {js : List Happening} (hregular : ∀ j ∈ js, j.Regular) :
    ∀ {d : Dial}, Ledger.dial.Follows d js →
      randoms js = (List.range (randoms js).length).map fun i => (d.pass i).random := by
  induction js with
  | nil => exact fun _ => rfl
  | cons j rest ih =>
    intro d hfollows
    have hrest := ih (fun k hk => hregular k (List.mem_cons_of_mem _ hk)) hfollows.tail
    rw [show Ledger.dial.enter d j = j.dial d from rfl] at hrest
    have hj := hregular j List.mem_cons_self
    cases j with
    | executed e =>
      obtain ⟨hcycles, hwired⟩ := hj
      have hdial : (Happening.executed e).dial d = d.pass 1 := by
        show (e.wired?.elim d .written).pass e.cycles = _
        rw [hwired, hcycles]
        rfl
      have hfirst : e.before.random.toNat = d.random := hfollows.head.random
      have hcons : randoms (.executed e :: rest) = e.before.random.toNat :: randoms rest := rfl
      rw [hdial] at hrest
      rw [hcons, List.length_cons, List.range_succ_eq_map, List.map_cons, List.map_map, hfirst]
      refine congrArg (d.random :: ·) (hrest.trans (List.map_congr_left fun i _ => ?_))
      rw [Dial.pass_pass, Nat.add_comm]
      rfl
    | wrote r v =>
      have hdial : (Happening.wrote r v).dial d = d := by
        show (if r = wired then some v else none).elim d .written = d
        rw [if_neg hj]
        rfl
      rw [hdial] at hrest
      exact hrest
    | reset => exact hj.elim

/-- **Random counts down** from any instruction on, as long as nothing disturbs it and the cycles since Wired was
written do not get to 2^64. -/
theorem countsDown_randoms {journal : List Happening} {c : Cpu} (hkept : Ledger.dial.Kept journal {} c)
    {earlier later window : List Happening} {e : Execution}
    (hjournal : journal = earlier ++ .executed e :: window ++ later)
    (hregular : ∀ j ∈ Happening.executed e :: window, j.Regular)
    (hwrap : (e.before.cycles - e.before.randomEpoch).toNat + (randoms (.executed e :: window)).length ≤ 2 ^ 64) :
    CountsDown e.before.randomFloor (randoms (.executed e :: window)) := by
  have hfollows : Ledger.dial.Follows (dialAfter earlier) (.executed e :: window) := hkept.within hjournal
  have hfirst : e.before.AtDial (dialAfter earlier) := hfollows.head
  have hrandoms := randoms_of_regular hregular hfollows
  rw [hfirst.elapsed, UInt64.toNat_ofNat'] at hwrap
  rw [hfirst.floor, hrandoms]
  exact Dial.countsDown hwrap

end Vr4300
