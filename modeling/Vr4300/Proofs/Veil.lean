import Vr4300.Proofs.History

/-!
# `Proofs.Veil` — what the way of waiting leaves open

A processor that forwards time through an idle loop gets to the next event in one step, and one that does not
goes round. Both are at the same cycle then, but they have executed different numbers of instructions, have
fetched different numbers of words from devices, and may stand at different places of the loop. An interrupt
that is taken there saves the same return address either way, and only the mark of the delay slot in Cause
tells the two places apart.

`Cpu.veiled` hides all that; the mark only where it is in doubt. Every operation of the processor respects the
veil, except for an instruction that reads Cause while the mark is in doubt, and an exception that saves a new
return address lifts the doubt.

## Contents

* `ControlRegisters.unmarked`: the bank without the mark, and what that commutes with;
* `Bus.unlogged`: devices without the record of accesses;
* `Cpu.veiled`: `planGuarded_veiled`, `veiled_apply`, `veiled_takeException`, `veiled_retire`, …;
* `Alike`: processors with the same veil, and that operations preserve it.
-/

namespace Vr4300

open Control

/-! ## The mark of the delay slot -/

/-- The bits of Cause that are in doubt. -/
def delayMark (doubt : Bool) : UInt64 := if doubt then causeBD else 0

theorem delayMark_and (doubt : Bool) {m : UInt64} (h : causeBD &&& m = 0) : delayMark doubt &&& m = 0 := by
  cases doubt
  · exact UInt64.zero_and
  · exact h

/-- Clearing some bits and setting others can change places. -/
theorem clear_or_comm {n q : UInt64} (h : n &&& q = 0) (x : UInt64) : (x ||| q) &&& ~~~n = (x &&& ~~~n) ||| q := by
  have hq : q &&& ~~~n = q := by
    have hn := congrArg UInt64.toBitVec h
    apply UInt64.toBitVec_inj.mp
    ext i hi
    have hi := congrArg (·[i]) hn
    simp only [UInt64.toBitVec_and, UInt64.toBitVec_not, BitVec.getElem_and, BitVec.getElem_not] at hi ⊢
    revert hi
    cases n.toBitVec[i] <;> cases q.toBitVec[i] <;> simp
  rw [or_and_distrib, hq]

theorem clear_comm (x p n : UInt64) : (x &&& p) &&& ~~~n = (x &&& ~~~n) &&& p := by
  rw [UInt64.and_assoc, UInt64.and_comm p, UInt64.and_assoc]

namespace ControlRegisters

variable (b : ControlRegisters) (doubt : Bool)

/-- The bank without the mark of the delay slot, if that is in doubt. -/
def unmarked (doubt : Bool) : ControlRegisters := b.clearBits cause (delayMark doubt)

theorem unmarked_put {r : Reg} (v : UInt64) (h : r ≠ cause) :
    (b.put r v).unmarked doubt = (b.unmarked doubt).put r v := by
  unfold unmarked clearBits
  rw [values_put, RegisterFile.read_write_of_ne _ _ h, put_comm _ _ _ h]

theorem unmarked_put_cause (v : UInt64) :
    (b.put cause v).unmarked doubt = b.put cause (v &&& ~~~delayMark doubt) := by
  unfold unmarked clearBits
  rw [values_put, RegisterFile.read_write_self, put_put]

theorem put_cause_unmarked (v : UInt64) : (b.unmarked doubt).put cause v = b.put cause v := put_put b cause _ v

theorem read_unmarked {r : Reg} (h : r ≠ cause) : (b.unmarked doubt).values.read r = b.values.read r :=
  RegisterFile.read_write_of_ne _ _ (Ne.symm h)

theorem read_cause_unmarked : (b.unmarked doubt).values.read cause = b.values.read cause &&& ~~~delayMark doubt :=
  RegisterFile.read_write_self _ _ _

theorem get_unmarked {r : Reg} (h : r ≠ cause) : (b.unmarked doubt).get r = b.get r :=
  get_put_of_ne b _ (Ne.symm h)

/-- Without a doubt the whole bank is there. -/
theorem unmarked_false : b.unmarked false = b := by
  unfold unmarked clearBits
  rw [show b.values.read cause &&& ~~~delayMark false = b.values.read cause from UInt64.and_neg_one ..]
  unfold put RegisterFile.write RegisterFile.read
  rw [Vector.set_getElem_self]

theorem unmarked_unmarked : (b.unmarked doubt).unmarked doubt = b.unmarked doubt := by
  rw [unmarked, clearBits, read_cause_unmarked, put_cause_unmarked, UInt64.and_assoc, UInt64.and_self]
  rfl

theorem hasStatus_unmarked (bit : UInt64) : (b.unmarked doubt).hasStatus bit = b.hasStatus bit :=
  hasStatus_put b _ bit (by decide)

theorem interruptPending_unmarked : (b.unmarked doubt).interruptPending = b.interruptPending := by
  have hmask : delayMark doubt &&& (b.values.read status &&& causeIP) = 0 := by
    rw [UInt64.and_comm (b.values.read status), ← UInt64.and_assoc, delayMark_and doubt (by decide), UInt64.zero_and]
  unfold interruptPending
  rw [hasStatus_unmarked, hasStatus_unmarked, read_unmarked b doubt (show status ≠ cause by decide),
    read_cause_unmarked, UInt64.and_assoc, clear_and_of_disjoint hmask, UInt64.and_assoc]

theorem unmarked_setBits {bits : UInt64} (h : causeBD &&& bits = 0) (r : Reg) :
    (b.setBits r bits).unmarked doubt = (b.unmarked doubt).setBits r bits := by
  by_cases hr : r = cause
  · subst hr
    unfold setBits
    rw [unmarked_put_cause, read_cause_unmarked, put_cause_unmarked, clear_or_comm (delayMark_and doubt h)]
  · unfold setBits
    rw [unmarked_put b doubt _ hr, read_unmarked b doubt hr]

theorem unmarked_clearBits (r : Reg) (bits : UInt64) :
    (b.clearBits r bits).unmarked doubt = (b.unmarked doubt).clearBits r bits := by
  by_cases hr : r = cause
  · subst hr
    unfold clearBits
    rw [unmarked_put_cause, read_cause_unmarked, put_cause_unmarked, clear_comm]
  · unfold clearBits
    rw [unmarked_put b doubt _ hr, read_unmarked b doubt hr]

theorem unmarked_sample (level : Bool) : (b.sample level).unmarked doubt = (b.unmarked doubt).sample level := by
  cases level with
  | true => exact unmarked_setBits b doubt (by decide) cause
  | false => exact unmarked_clearBits b doubt cause causeIP2

/-- A write of software does not reach the mark. -/
theorem write?_unmarked (r : Reg) (v : UInt64) :
    (b.unmarked doubt).write? r v = (b.write? r v).map (unmarked · doubt) := by
  by_cases hr : r = cause
  · subst hr
    have hwritten : delayMark doubt &&& (v &&& 0x300) = 0 := by
      rw [UInt64.and_comm v, ← UInt64.and_assoc, delayMark_and doubt (by decide), UInt64.zero_and]
    show some ((b.unmarked doubt).put cause (blend ((b.unmarked doubt).values.read cause) v 0x300)) =
      some ((b.put cause (blend (b.values.read cause) v 0x300)).unmarked doubt)
    unfold blend
    rw [unmarked_put_cause, read_cause_unmarked, put_cause_unmarked, clear_or_comm hwritten, clear_comm]
  · have hread := read_unmarked b doubt hr
    unfold write?
    rw [hread]
    cases writeRule r with
    | masked mask => exact congrArg some (unmarked_put b doubt _ hr).symm
    | readOnly => rfl
    | reserved =>
      show some { (b.unmarked doubt).put r v with latch := v } = some (unmarked { b.put r v with latch := v } doubt)
      rw [← unmarked_put b doubt v hr]
      rfl

end ControlRegisters

/-! ## Devices -/

namespace Bus

/-- The devices without the record of accesses. -/
def unlogged (b : Bus) : Bus := { b with accesses := [] }

/-- What is read does not depend on what was recorded. -/
theorem read_unlogged (b : Bus) (w : Width) (address : UInt64) :
    (b.unlogged.read w address).1 = (b.read w address).1 ∧
      (b.unlogged.read w address).2.unlogged = (b.read w address).2.unlogged := by
  unfold read
  rw [show b.unlogged.route? address = b.route? address from rfl]
  cases b.route? address with
  | none => exact ⟨rfl, rfl⟩
  | some i =>
    dsimp only
    rw [show b.unlogged.devices[i]? = b.devices[i]? from rfl]
    cases b.devices[i]? <;> exact ⟨rfl, rfl⟩

theorem write_unlogged (b : Bus) (w : Width) (address v : UInt64) :
    (b.unlogged.write w address v).unlogged = (b.write w address v).unlogged := by
  unfold write
  rw [show b.unlogged.route? address = b.route? address from rfl]
  cases b.route? address with
  | none => rfl
  | some i =>
    dsimp only
    rw [show b.unlogged.devices[i]? = b.devices[i]? from rfl]
    cases b.devices[i]? <;> rfl

end Bus

/-! ## The veil -/

namespace Instruction

/-- The instruction reads Cause. -/
def readsCause : Instruction → Bool
  | .system (.mfc0 _ rd) | .system (.dmfc0 _ rd) => rd == cause
  | _ => false

end Instruction

namespace Cpu

/-- The processor without what depends on the way in which it waited. -/
def veiled (c : Cpu) (doubt : Bool) : Cpu :=
  { c with
    cp0 := c.cp0.unmarked doubt
    bus := c.bus.unlogged
    opsExecuted := 0
    codeInvalidations := []
    tlbDirty := false
    statistics := {}
    settings := { c.settings with idleLoopSkip := false } }

variable (c : Cpu) (doubt : Bool)

theorem veiled_veiled : (c.veiled doubt).veiled doubt = c.veiled doubt := by
  unfold veiled
  dsimp only
  rw [ControlRegisters.unmarked_unmarked]
  rfl

/-- A veil that hides more. -/
theorem veiled_false_veiled : (c.veiled false).veiled doubt = c.veiled doubt := by
  unfold veiled
  dsimp only
  rw [ControlRegisters.unmarked_false]
  rfl

/-! ### Deciding -/

theorem resolve_veiled (w : Width) (access : Access) (address : UInt64) :
    (c.veiled doubt).resolve w access address = c.resolve w access address := by
  have hasid : (c.veiled doubt).asid = c.asid :=
    congrArg (· &&& TlbEntry.asidBits) (c.cp0.get_unmarked doubt (by decide))
  unfold resolve
  rw [hasid]
  rfl

theorem locate_veiled (w : Width) (access : Access) (address : UInt64) :
    (c.veiled doubt).locate w access address = c.locate w access address := by
  unfold locate
  rw [resolve_veiled]

theorem peek?_veiled (address : UInt64) : (c.veiled doubt).peek? address = c.peek? address := by
  unfold peek?
  rw [resolve_veiled]
  rfl

theorem readControl_veiled {r : Reg} (h : doubt = true → r ≠ cause) :
    (c.veiled doubt).readControl r = c.readControl r := by
  cases doubt with
  | false =>
    show readControl { c with cp0 := c.cp0.unmarked false } r = _
    rw [ControlRegisters.unmarked_false]
  | true =>
    have hwired := c.cp0.get_unmarked true (show wired ≠ cause by decide)
    unfold readControl random
    rw [show (c.veiled true).cp0.get r = c.cp0.get r from c.cp0.get_unmarked true (h rfl),
      show (c.veiled true).cp0.get wired = c.cp0.get wired from hwired]
    rfl

theorem planSystem_veiled (op : SystemOp) (h : doubt = true → (Instruction.system op).readsCause = false) :
    (c.veiled doubt).planSystem op = c.planSystem op := by
  have hget {r : Reg} (hr : r ≠ cause) : (c.veiled doubt).cp0.get r = c.cp0.get r := c.cp0.get_unmarked doubt hr
  cases op with
  | mfc0 rt rd =>
    have hne : doubt = true → rd ≠ cause := fun hd => by simpa [Instruction.readsCause] using h hd
    simp only [planSystem, c.readControl_veiled doubt hne]
  | dmfc0 rt rd =>
    have hne : doubt = true → rd ≠ cause := fun hd => by simpa [Instruction.readsCause] using h hd
    simp only [planSystem, c.readControl_veiled doubt hne]
  | tlbr =>
    unfold planSystem indexedEntry
    rw [hget (show index ≠ cause by decide)]
    rfl
  | tlbwi =>
    unfold planSystem indexedEntry describedEntry
    rw [hget (show index ≠ cause by decide), hget (show pageMask ≠ cause by decide),
      hget (show entryHi ≠ cause by decide), hget (show entryLo0 ≠ cause by decide),
      hget (show entryLo1 ≠ cause by decide)]
  | tlbwr =>
    have hrandom : (c.veiled doubt).random = c.random := by
      unfold random
      rw [hget (show wired ≠ cause by decide)]
      rfl
    unfold planSystem describedEntry
    rw [hrandom, hget (show pageMask ≠ cause by decide), hget (show entryHi ≠ cause by decide),
      hget (show entryLo0 ≠ cause by decide), hget (show entryLo1 ≠ cause by decide)]
  | tlbp =>
    unfold planSystem probeResult
    rw [hget (show entryHi ≠ cause by decide)]
    rfl
  | eret =>
    have hlevel : (c.veiled doubt).cp0.hasStatus statusERL = c.cp0.hasStatus statusERL :=
      c.cp0.hasStatus_unmarked doubt statusERL
    unfold planSystem returnAddress
    rw [hlevel, hget (show errorEpc ≠ cause by decide), hget (show epc ≠ cause by decide)]
  | mtc0 rt rd => rfl
  | dmtc0 rt rd => rfl

/-- **What an instruction does** does not depend on what is veiled, unless it reads a mark that is in doubt. -/
theorem plan_veiled (i : Instruction) (h : doubt = true → i.readsCause = false) :
    (c.veiled doubt).plan i = c.plan i := by
  have hload (w : Width) (a : UInt64) (d : Destination) : (c.veiled doubt).planLoad w a d = c.planLoad w a d := by
    unfold planLoad
    rw [locate_veiled]
  have hlinked (w : Width) (rt : Reg) (a : UInt64) : (c.veiled doubt).planLinked w rt a = c.planLinked w rt a := by
    unfold planLinked
    rw [locate_veiled]
  have hstore (w : Width) (a v : UInt64) : (c.veiled doubt).planStore w a v = c.planStore w a v := by
    unfold planStore
    rw [locate_veiled]
  have hmasked (w : Width) (s : Lane.MaskedStore) : (c.veiled doubt).planMaskedStore w s = c.planMaskedStore w s := by
    unfold planMaskedStore
    rw [locate_veiled]
  have hconditional (w : Width) (rt : Reg) (a : UInt64) :
      (c.veiled doubt).planConditionalStore w rt a = c.planConditionalStore w rt a := by
    unfold planConditionalStore
    rw [locate_veiled]
    rfl
  cases i with
  | load op rt base offset =>
    show (c.veiled doubt).planLoadOp op rt (c.regs.get base + offset) = c.planLoadOp op rt (c.regs.get base + offset)
    cases op <;> simp only [planLoadOp, planMerge, hload, hlinked]
  | store op rt base offset =>
    show (c.veiled doubt).planStoreOp op rt (c.regs.get base + offset) = c.planStoreOp op rt (c.regs.get base + offset)
    cases op <;> simp only [planStoreOp, hstore, hmasked, hconditional] <;> rfl
  | system op => exact congrArg Except.ok (c.planSystem_veiled doubt op h)
  | latch op =>
    have husable : (c.veiled doubt).cp0.hasStatus statusCU2 = c.cp0.hasStatus statusCU2 :=
      c.cp0.hasStatus_unmarked doubt statusCU2
    show (c.veiled doubt).planLatch op = c.planLatch op
    unfold planLatch
    rw [husable]
    cases op <;> rfl
  | float op => cases op <;> rfl
  | trapIf test rs operand => cases operand <;> rfl
  | shift op rd rt amount => cases amount <;> rfl
  | readHiLo half rd => cases half <;> rfl
  | writeHiLo half rs => cases half <;> rfl
  | branch test likely link offset => cases test <;> rfl
  | _ => rfl

theorem planGuarded_veiled (i : Instruction) (h : doubt = true → i.readsCause = false) :
    (c.veiled doubt).planGuarded i = c.planGuarded i := by
  unfold planGuarded
  rw [plan_veiled c doubt i h]
  rfl

/-! ### Control registers and time -/

theorem updateInterrupts_veiled : (c.veiled doubt).updateInterrupts = c.updateInterrupts.veiled doubt := by
  have hpending : ((c.cp0.unmarked doubt).sample c.line).interruptPending = (c.cp0.sample c.line).interruptPending := by
    rw [← ControlRegisters.unmarked_sample, ControlRegisters.interruptPending_unmarked]
  rw [updateInterrupts_eq, updateInterrupts_eq]
  unfold veiled
  dsimp only
  rw [hpending, ControlRegisters.unmarked_sample]

theorem statusChanged_veiled : (c.veiled doubt).statusChanged = c.statusChanged.veiled doubt := by
  have hfull : (c.veiled doubt).cp0.hasStatus statusFR = c.cp0.hasStatus statusFR := c.cp0.hasStatus_unmarked doubt _
  have husable : (c.veiled doubt).statusFloatUsable = c.statusFloatUsable := c.cp0.hasStatus_unmarked doubt _
  unfold statusChanged
  dsimp only
  rw [hfull, husable, ← updateInterrupts_veiled]
  rfl

theorem schedule_veiled (kind : EventKind) (n : Int) (action : TimerAction) :
    (c.veiled doubt).schedule kind n action = (c.schedule kind n action).veiled doubt := by
  unfold schedule
  rw [show (c.veiled doubt).events = c.events from rfl]
  cases c.events.add kind n action <;> rfl

theorem scheduleCompare_veiled : (c.veiled doubt).scheduleCompare = c.scheduleCompare.veiled doubt := by
  have hcountdown : (c.veiled doubt).compareCountdown = c.compareCountdown := by
    unfold compareCountdown
    rw [show (c.veiled doubt).cp0.get compare = c.cp0.get compare from c.cp0.get_unmarked doubt (by decide),
      show (c.veiled doubt).cp0.get count = c.cp0.get count from c.cp0.get_unmarked doubt (by decide)]
  unfold scheduleCompare
  rw [hcountdown]
  exact schedule_veiled { c with events := c.events.erase .compare } doubt .compare c.compareCountdown .compareMatch

theorem writeControl_veiled (r : Reg) (v : UInt64) :
    (c.veiled doubt).writeControl r v = (c.writeControl r v).veiled doubt := by
  unfold writeControl
  rw [show (c.veiled doubt).cp0 = c.cp0.unmarked doubt from rfl, ControlRegisters.write?_unmarked]
  cases c.cp0.write? r v with
  | none => rfl
  | some b =>
    let w : Cpu := { c with cp0 := b }
    dsimp only [Option.map_some]
    rw [show ({ c.veiled doubt with cp0 := b.unmarked doubt } : Cpu) = w.veiled doubt from rfl]
    split
    · exact scheduleCompare_veiled w doubt
    split
    · have hacknowledged : ({ w.veiled doubt with cp0 := (b.unmarked doubt).clearBits cause causeIP7 } : Cpu) =
          ({ w with cp0 := b.clearBits cause causeIP7 } : Cpu).veiled doubt := by
        rw [← ControlRegisters.unmarked_clearBits]
        rfl
      show ({ w.veiled doubt with
        cp0 := (b.unmarked doubt).clearBits cause causeIP7 } : Cpu).scheduleCompare.updateInterrupts = _
      rw [hacknowledged, scheduleCompare_veiled, updateInterrupts_veiled]
    split
    · exact statusChanged_veiled w doubt
    split
    · exact updateInterrupts_veiled w doubt
    split <;> rfl

theorem compareMatched_veiled : (c.veiled doubt).compareMatched = c.compareMatched.veiled doubt := by
  have hset : ({ c.veiled doubt with cp0 := (c.cp0.unmarked doubt).setBits cause causeIP7 } : Cpu) =
      ({ c with cp0 := c.cp0.setBits cause causeIP7 } : Cpu).veiled doubt := by
    rw [← ControlRegisters.unmarked_setBits c.cp0 doubt (by decide)]
    rfl
  show (schedule { c.veiled doubt with cp0 := (c.cp0.unmarked doubt).setBits cause causeIP7 } .compare comparePeriod
    .compareMatch).updateInterrupts = _
  rw [hset, schedule_veiled, updateInterrupts_veiled]
  rfl

theorem passCycles_veiled (n : UInt64) : (c.veiled doubt).passCycles n = (c.passCycles n).veiled doubt := by
  unfold passCycles
  rw [show (c.veiled doubt).cp0.get count = c.cp0.get count from c.cp0.get_unmarked doubt (by decide)]
  unfold veiled
  dsimp only
  rw [ControlRegisters.unmarked_put _ _ _ (by decide)]

theorem advance_veiled (n : UInt64) : (c.veiled doubt).advance n = (c.advance n).veiled doubt := by
  unfold advance elapse
  rw [passCycles_veiled]
  exact fireDue_map (g := (veiled · doubt)) (fun _ => rfl) (fun _ _ => rfl) (compareMatched_veiled · doubt)
    (fun _ => rfl) _ { c.passCycles n with events := c.events.advance n.toInt64.toInt }

/-! ### Effects -/

theorem veiled_bus {b b' : Bus} (h : b.unlogged = b'.unlogged) :
    ({ c with bus := b } : Cpu).veiled doubt = ({ c with bus := b' } : Cpu).veiled doubt := by
  unfold veiled
  dsimp only
  rw [h]

theorem readAt_veiled (w : Width) (l : Location) :
    ((c.veiled doubt).readAt w l).1 = (c.readAt w l).1 ∧
      ((c.veiled doubt).readAt w l).2.veiled doubt = (c.readAt w l).2.veiled doubt := by
  cases l with
  | ram offset => exact ⟨rfl, c.veiled_veiled doubt⟩
  | bus address =>
    obtain ⟨hvalue, hbus⟩ := c.bus.read_unlogged w address
    refine ⟨hvalue, ?_⟩
    show ({ c.veiled doubt with bus := (c.bus.unlogged.read w address).2 } : Cpu).veiled doubt =
      ({ c with bus := (c.bus.read w address).2 } : Cpu).veiled doubt
    rw [veiled_bus _ doubt hbus]
    exact veiled_veiled { c with bus := (c.bus.read w address).2 } doubt

theorem writeAt_veiled (w : Width) (l : Location) (v : UInt64) :
    ((c.veiled doubt).writeAt w l v).veiled doubt = (c.writeAt w l v).veiled doubt := by
  cases l with
  | ram offset => exact veiled_veiled { c with ram := c.ram.write w offset v } doubt
  | bus address =>
    show ({ c.veiled doubt with bus := c.bus.unlogged.write w address v } : Cpu).veiled doubt =
      ({ c with bus := c.bus.write w address v } : Cpu).veiled doubt
    rw [veiled_bus _ doubt (c.bus.write_unlogged w address v)]
    exact veiled_veiled { c with bus := c.bus.write w address v } doubt

theorem deliver_veiled (w : Width) (v : UInt64) (d : Destination) :
    (c.veiled doubt).deliver w v d = (c.deliver w v d).veiled doubt := by
  cases d with
  | linked rt physical =>
    show ({ c.veiled doubt with
      regs := c.regs.set rt (w.signExtend v)
      llBit := true
      cp0 := (c.cp0.unmarked doubt).put llAddr (physical >>> 4) } : Cpu) = _
    rw [← ControlRegisters.unmarked_put c.cp0 doubt _ (by decide)]
    rfl
  | float p ft => cases p <;> rfl
  | _ => rfl

theorem showEntry_veiled (e : TlbEntry) : (c.veiled doubt).showEntry e = (c.showEntry e).veiled doubt := by
  unfold showEntry veiled
  dsimp only
  rw [ControlRegisters.unmarked_put _ _ _ (by decide), ControlRegisters.unmarked_put _ _ _ (by decide),
    ControlRegisters.unmarked_put _ _ _ (by decide), ControlRegisters.unmarked_put _ _ _ (by decide)]

theorem leaveException_veiled : (c.veiled doubt).leaveException = c.leaveException.veiled doubt := by
  unfold leaveException
  dsimp only
  rw [show (c.veiled doubt).cp0.hasStatus statusERL = c.cp0.hasStatus statusERL from c.cp0.hasStatus_unmarked doubt _,
    ← statusChanged_veiled, show (c.veiled doubt).cp0 = c.cp0.unmarked doubt from rfl,
    ← ControlRegisters.unmarked_clearBits]
  rfl

/-- **An effect** does the same under the veil. -/
theorem veiled_apply (e : Effect) : ((c.veiled doubt).apply e).veiled doubt = (c.apply e).veiled doubt := by
  have hexact {f : Cpu → Cpu} (hf : f (c.veiled doubt) = (f c).veiled doubt) :
      (f (c.veiled doubt)).veiled doubt = (f c).veiled doubt := by
    rw [hf, veiled_veiled]
  cases e with
  | load w source into =>
    obtain ⟨hvalue, hread⟩ := c.readAt_veiled doubt w source
    show (((c.veiled doubt).readAt w source).2.deliver w ((c.veiled doubt).readAt w source).1 into).veiled doubt =
      ((c.readAt w source).2.deliver w (c.readAt w source).1 into).veiled doubt
    rw [← deliver_veiled, ← deliver_veiled, hread, hvalue]
  | store w target v => exact c.writeAt_veiled doubt w target v
  | storeMasked w target v mask =>
    obtain ⟨hvalue, hread⟩ := c.readAt_veiled doubt w target
    show (((c.veiled doubt).readAt w target).2.writeAt w target
        (blend ((c.veiled doubt).readAt w target).1 v mask)).veiled doubt =
      ((c.readAt w target).2.writeAt w target (blend (c.readAt w target).1 v mask)).veiled doubt
    rw [← writeAt_veiled, hread, hvalue, writeAt_veiled]
  | storeLinked w target v rt =>
    exact congrArg (·.setRegister rt 1) (c.writeAt_veiled doubt w target v)
  | control rd v => exact hexact (f := (·.writeControl rd v)) (c.writeControl_veiled doubt rd v)
  | entryRegisters e => exact hexact (f := (·.showEntry e)) (c.showEntry_veiled doubt e)
  | index v =>
    refine hexact (f := (·.apply (.index v))) ?_
    show ({ c.veiled doubt with cp0 := (c.cp0.unmarked doubt).put index v } : Cpu) = _
    rw [← ControlRegisters.unmarked_put c.cp0 doubt v (by decide)]
    rfl
  | tlbEntry i e => exact veiled_veiled { c with tlb := c.tlb.set i e } doubt
  | leaveException => exact hexact (f := leaveException) (c.leaveException_veiled doubt)
  | invalidateCode address => exact c.veiled_veiled doubt
  | float p fd bits fcr31 => cases p <;> exact hexact (f := (·.apply (.float _ fd bits fcr31))) rfl
  | none => exact c.veiled_veiled doubt
  | register rd v => exact hexact (f := (·.setRegister rd v)) rfl
  | hilo v => exact hexact (f := (·.apply (.hilo v))) rfl
  | fcr31 v => exact hexact (f := (·.apply (.fcr31 v))) rfl
  | latch v => exact hexact (f := (·.apply (.latch v))) rfl

theorem follow_veiled (base : UInt64) (f : Flow) :
    (c.veiled doubt).follow base f = (c.follow base f).veiled doubt := by
  cases f <;> rfl

/-! ### Exceptions -/

/-- The state behind an exception: its handler is entered. -/
def enterHandler (t : Trap) (vector : UInt64) : Cpu :=
  statusChanged
    { c with
      cp0 := c.cp0.setBits status statusEXL
      pc := vector
      delaySlot := none
      statistics := countException t c.statistics }

/-- Where the handler of an exception starts. -/
def handlerAddress (t : Trap) : UInt64 :=
  exceptionVector (c.cp0.hasStatus statusBEV) (t.isRefill && !c.cp0.hasStatus statusEXL)

theorem takeException_eq_enterHandler (t : Trap) (inDelay : Bool) :
    c.takeException t inDelay =
      ((c.enterException t inDelay).saveBadAddress t).enterHandler t (c.handlerAddress t) := rfl

theorem handlerAddress_veiled (t : Trap) : (c.veiled doubt).handlerAddress t = c.handlerAddress t := by
  unfold handlerAddress
  rw [show (c.veiled doubt).cp0.hasStatus statusBEV = c.cp0.hasStatus statusBEV from c.cp0.hasStatus_unmarked doubt _,
    show (c.veiled doubt).cp0.hasStatus statusEXL = c.cp0.hasStatus statusEXL from c.cp0.hasStatus_unmarked doubt _]

theorem veiled_enterHandler (t : Trap) (vector : UInt64) :
    ((c.veiled doubt).enterHandler t vector).veiled doubt = (c.enterHandler t vector).veiled doubt := by
  unfold enterHandler
  rw [← statusChanged_veiled, ← statusChanged_veiled]
  show statusChanged (veiled { c.veiled doubt with
    cp0 := (c.cp0.unmarked doubt).setBits status statusEXL
    pc := vector
    delaySlot := none
    statistics := {} } doubt) = _
  rw [← ControlRegisters.unmarked_setBits c.cp0 doubt (by decide)]
  exact congrArg statusChanged (veiled_veiled
    { c with cp0 := c.cp0.setBits status statusEXL, pc := vector, delaySlot := none } doubt)

theorem saveTlbContext_veiled (address : UInt64) :
    (c.veiled doubt).saveTlbContext address = (c.saveTlbContext address).veiled doubt := by
  have hput {r : Reg} (hr : r ≠ cause) (b : ControlRegisters) (v : UInt64) :
      (b.unmarked doubt).put r v = (b.put r v).unmarked doubt := (b.unmarked_put doubt v hr).symm
  have hget {r : Reg} (hr : r ≠ cause) (b : ControlRegisters) : (b.unmarked doubt).get r = b.get r :=
    b.get_unmarked doubt hr
  unfold saveTlbContext asid veiled
  dsimp only
  rw [hget (show context ≠ cause by decide), hput (show context ≠ cause by decide),
    hget (show xContext ≠ cause by decide), hput (show xContext ≠ cause by decide),
    hget (show entryHi ≠ cause by decide), hput (show entryHi ≠ cause by decide)]

theorem saveBadAddress_veiled (t : Trap) : (c.veiled doubt).saveBadAddress t = (c.saveBadAddress t).veiled doubt := by
  unfold saveBadAddress
  cases t.badAddress? with
  | none => rfl
  | some address =>
    let saved : Cpu := { c with cp0 := c.cp0.put badVAddr address }
    have hsaved : ({ c.veiled doubt with cp0 := (c.cp0.unmarked doubt).put badVAddr address } : Cpu) =
        saved.veiled doubt := by
      rw [← ControlRegisters.unmarked_put c.cp0 doubt address (by decide)]
      rfl
    show (if t.isTlb = true then
        ({ c.veiled doubt with cp0 := (c.cp0.unmarked doubt).put badVAddr address } : Cpu).saveTlbContext address
      else { c.veiled doubt with cp0 := (c.cp0.unmarked doubt).put badVAddr address }) =
        (if t.isTlb = true then saved.saveTlbContext address else saved).veiled doubt
    rw [hsaved, saveTlbContext_veiled]
    split <;> rfl

/-- The code of an exception does not reach the mark. -/
theorem causeOf_clear (t : Trap) (old : UInt64) :
    causeOf t old &&& ~~~delayMark doubt = causeOf t (old &&& ~~~delayMark doubt) := by
  have hcode : causeBD &&& (t.code <<< 2) = 0 := by
    cases t <;> (simp only [Trap.code]; decide)
  have hunit (n : UInt64) : causeBD &&& (n &&& causeCE) = 0 := by
    rw [UInt64.and_comm n, ← UInt64.and_assoc, show causeBD &&& causeCE = 0 by decide, UInt64.zero_and]
  unfold causeOf
  dsimp only
  rw [clear_or_comm (delayMark_and doubt ?_), clear_or_comm (delayMark_and doubt hcode), clear_comm]
  split
  · exact hunit _
  · decide

/-- The return address and the mark that are saved with it depend on the place only. -/
theorem saveReturn_veiled (inDelay : Bool) (after : Bool) :
    ((c.veiled doubt).saveReturn inDelay).veiled after = (c.saveReturn inDelay).veiled after := by
  have hreturn (v : UInt64) : (c.cp0.unmarked doubt).put epc v = (c.cp0.put epc v).unmarked doubt :=
    (c.cp0.unmarked_put doubt v (by decide)).symm
  have hmark (x : UInt64) : x &&& ~~~delayMark doubt ||| causeBD = x ||| causeBD := by
    cases doubt
    · exact congrArg (· ||| causeBD) (UInt64.and_neg_one ..)
    · exact clear_or x causeBD
  have hclear (x : UInt64) : x &&& ~~~delayMark doubt &&& ~~~causeBD = x &&& ~~~causeBD := by
    cases doubt
    · exact congrArg (· &&& ~~~causeBD) (UInt64.and_neg_one ..)
    · show x &&& ~~~causeBD &&& ~~~causeBD = _
      rw [UInt64.and_assoc, UInt64.and_self]
  unfold saveReturn
  cases inDelay with
  | true =>
    have hbank : ((c.cp0.unmarked doubt).put epc (c.pc - 4)).setBits cause causeBD =
        (c.cp0.put epc (c.pc - 4)).setBits cause causeBD := by
      rw [hreturn]
      unfold ControlRegisters.setBits
      rw [ControlRegisters.read_cause_unmarked, ControlRegisters.put_cause_unmarked, hmark]
    show veiled { c.veiled doubt with
      cp0 := ((c.cp0.unmarked doubt).put epc (c.pc - 4)).setBits cause causeBD } after = _
    rw [hbank]
    rfl
  | false =>
    have hbank : ((c.cp0.unmarked doubt).put epc c.pc).clearBits cause causeBD =
        (c.cp0.put epc c.pc).clearBits cause causeBD := by
      rw [hreturn]
      unfold ControlRegisters.clearBits
      rw [ControlRegisters.read_cause_unmarked, ControlRegisters.put_cause_unmarked, hclear]
    show veiled { c.veiled doubt with
      cp0 := ((c.cp0.unmarked doubt).put epc c.pc).clearBits cause causeBD } after = _
    rw [hbank]
    rfl

/-- The code is recorded in Cause. -/
def recordCause (t : Trap) : Cpu := { c with cp0 := c.cp0.put cause (causeOf t (c.cp0.get cause)) }

theorem recordCause_veiled (t : Trap) : (c.veiled doubt).recordCause t = (c.recordCause t).veiled doubt := by
  have hread (b : ControlRegisters) : b.get cause = b.values.read cause := rfl
  unfold recordCause veiled
  dsimp only
  rw [hread, hread, ControlRegisters.read_cause_unmarked, ControlRegisters.put_cause_unmarked,
    ControlRegisters.unmarked_put_cause, causeOf_clear]

/-- **An exception** does the same under the veil; one that saves its return address lifts a doubt. -/
theorem veiled_takeException (t : Trap) (inDelay : Bool) {after : Bool}
    (h : after = doubt ∨ c.cp0.hasStatus statusEXL = false) :
    ((c.veiled doubt).takeException t inDelay).veiled after = (c.takeException t inDelay).veiled after := by
  have hlevel : (c.veiled doubt).cp0.hasStatus statusEXL = c.cp0.hasStatus statusEXL := c.cp0.hasStatus_unmarked doubt _
  have henter :
      ((c.veiled doubt).enterException t inDelay).veiled after = (c.enterException t inDelay).veiled after := by
    show ((if (c.veiled doubt).cp0.hasStatus statusEXL = true then c.veiled doubt
        else (c.veiled doubt).saveReturn inDelay).recordCause t).veiled after =
      ((if c.cp0.hasStatus statusEXL = true then c else c.saveReturn inDelay).recordCause t).veiled after
    rw [hlevel, ← recordCause_veiled, ← recordCause_veiled]
    refine congrArg (fun b : Cpu => b.recordCause t) ?_
    split
    · rename_i hnested
      obtain rfl : after = doubt := h.resolve_right (by rw [hnested]; simp)
      exact c.veiled_veiled after
    · exact c.saveReturn_veiled doubt inDelay after
  rw [takeException_eq_enterHandler, takeException_eq_enterHandler, handlerAddress_veiled,
    ← veiled_enterHandler, ← saveBadAddress_veiled, henter, saveBadAddress_veiled, veiled_enterHandler]

/-- **A cycle** passes under the veil as it does without. -/
theorem veiled_retire : (c.veiled doubt).retire.veiled doubt = c.retire.veiled doubt := by
  have hadvance (n : Nat) : ({ c with opsExecuted := n } : Cpu).veiled doubt = c.veiled doubt := rfl
  show (advance { c.veiled doubt with opsExecuted := 1 } 1).veiled doubt =
    (advance { c with opsExecuted := c.opsExecuted + 1 } 1).veiled doubt
  rw [← advance_veiled, ← advance_veiled, hadvance]
  exact congrArg (·.advance 1) (c.veiled_veiled doubt)

theorem fetch_veiled (address : UInt64) :
    ((c.veiled doubt).fetch address).1 = (c.fetch address).1 ∧
      ((c.veiled doubt).fetch address).2.veiled doubt = (c.fetch address).2.veiled doubt := by
  unfold fetch
  rw [resolve_veiled]
  cases c.resolve .word .fetch address with
  | error t => exact ⟨rfl, c.veiled_veiled doubt⟩
  | ok l =>
    obtain ⟨hvalue, hread⟩ := c.readAt_veiled doubt .word l
    exact ⟨congrArg (fun v : UInt64 => Except.ok v.toUInt32) hvalue, hread⟩

end Cpu

/-! ## Processors with the same veil -/

/-- The processors differ in what is veiled. -/
def Alike (doubt : Bool) (c c' : Cpu) : Prop := c.veiled doubt = c'.veiled doubt

namespace Alike

variable {doubt : Bool} {c c' : Cpu}

theorem symm (h : Alike doubt c c') : Alike doubt c' c := Eq.symm h

theorem trans {k : Cpu} (h : Alike doubt c c') (h' : Alike doubt c' k) : Alike doubt c k := Eq.trans h h'

/-- They agree on everything that is not veiled. -/
theorem same {α : Type} (h : Alike doubt c c') (f : Cpu → α) (hf : ∀ c, f (c.veiled doubt) = f c) :
    f c' = f c := by
  rw [← hf c, ← hf c', show c.veiled doubt = c'.veiled doubt from h]

/-- A doubt may be raised. -/
theorem weaken (h : Alike false c c') : Alike doubt c c' := by
  unfold Alike
  rw [← c.veiled_false_veiled, ← c'.veiled_false_veiled]
  exact congrArg (·.veiled doubt) h

/-- What does the same under the veil does alike. -/
theorem map {after : Bool} {f : Cpu → Cpu} (h : Alike doubt c c')
    (hc : (f (c.veiled doubt)).veiled after = (f c).veiled after)
    (hc' : (f (c'.veiled doubt)).veiled after = (f c').veiled after) : Alike after (f c) (f c') := by
  unfold Alike
  rw [← hc, ← hc', show c.veiled doubt = c'.veiled doubt from h]

theorem get (h : Alike doubt c c') {r : Reg} (hr : r ≠ cause) : c'.cp0.get r = c.cp0.get r :=
  h.same (fun c => c.cp0.get r) fun c => c.cp0.get_unmarked doubt hr

theorem hasStatus (h : Alike doubt c c') (bit : UInt64) : c'.cp0.hasStatus bit = c.cp0.hasStatus bit :=
  h.same (fun c => c.cp0.hasStatus bit) fun c => c.cp0.hasStatus_unmarked doubt bit

theorem updateInterrupts (h : Alike doubt c c') : Alike doubt c.updateInterrupts c'.updateInterrupts := by
  have hself (b : Cpu) : (b.veiled doubt).updateInterrupts.veiled doubt = b.updateInterrupts.veiled doubt := by
    rw [Cpu.updateInterrupts_veiled, Cpu.veiled_veiled]
  exact h.map (hself c) (hself c')

theorem planGuarded (h : Alike doubt c c') (i : Instruction) (hi : doubt = true → i.readsCause = false) :
    c'.planGuarded i = c.planGuarded i := by
  rw [← c'.planGuarded_veiled doubt i hi, ← c.planGuarded_veiled doubt i hi,
    show c.veiled doubt = c'.veiled doubt from h]

theorem fetch (h : Alike doubt c c') (address : UInt64) :
    (c'.fetch address).1 = (c.fetch address).1 ∧ Alike doubt (c.fetch address).2 (c'.fetch address).2 := by
  obtain ⟨hvalue, hread⟩ := c.fetch_veiled doubt address
  obtain ⟨hvalue', hread'⟩ := c'.fetch_veiled doubt address
  rw [← show c.veiled doubt = c'.veiled doubt from h] at hvalue' hread'
  exact ⟨hvalue'.symm.trans hvalue, hread.symm.trans hread'⟩

theorem peek? (h : Alike doubt c c') (address : UInt64) : c'.peek? address = c.peek? address :=
  h.same (·.peek? address) fun c => c.peek?_veiled doubt address

theorem apply (h : Alike doubt c c') (e : Effect) : Alike doubt (c.apply e) (c'.apply e) :=
  h.map (f := (·.apply e)) (c.veiled_apply doubt e) (c'.veiled_apply doubt e)

theorem follow (h : Alike doubt c c') (base : UInt64) (f : Flow) :
    Alike doubt (c.follow base f) (c'.follow base f) := by
  have hself (b : Cpu) : ((b.veiled doubt).follow base f).veiled doubt = (b.follow base f).veiled doubt := by
    rw [Cpu.follow_veiled, Cpu.veiled_veiled]
  exact h.map (f := (·.follow base f)) (hself c) (hself c')

theorem takeException (h : Alike doubt c c') (t : Trap) (inDelay : Bool) {after : Bool}
    (hafter : after = doubt ∨ c.cp0.hasStatus statusEXL = false) :
    Alike after (c.takeException t inDelay) (c'.takeException t inDelay) := by
  refine h.map (f := (·.takeException t inDelay)) (c.veiled_takeException doubt t inDelay hafter)
    (c'.veiled_takeException doubt t inDelay ?_)
  rw [h.hasStatus]
  exact hafter

theorem retire (h : Alike doubt c c') : Alike doubt c.retire c'.retire :=
  h.map (c.veiled_retire doubt) (c'.veiled_retire doubt)

/-- **The next instruction** is the same. -/
theorem nextExecution (h : Alike doubt c c')
    (hreads : doubt = true → (Instruction.decode c.nextExecution.word).readsCause = false) :
    c'.nextExecution.word = c.nextExecution.word ∧ c'.nextExecution.planned = c.nextExecution.planned ∧
      Alike doubt c.nextExecution.before c'.nextExecution.before := by
  obtain ⟨hword, hbefore⟩ := h.fetch c.pc
  have hpc : c'.pc = c.pc := h.same Cpu.pc fun _ => rfl
  unfold Cpu.nextExecution at hreads ⊢
  rw [hpc]
  rcases hf : c.fetch c.pc with ⟨r, b⟩
  rcases hf' : c'.fetch c.pc with ⟨r', b'⟩
  rw [hf, hf'] at hword hbefore
  rw [hf] at hreads
  obtain rfl : r' = r := hword
  cases r' with
  | ok word => exact ⟨rfl, planGuarded hbefore _ hreads, hbefore⟩
  | error t => exact ⟨rfl, rfl, hbefore⟩

end Alike

namespace Execution

/-- The mark is in doubt behind the instruction. An exception that saves its return address lifts a doubt. -/
def doubtAfter (e : Execution) (doubt : Bool) : Bool :=
  match e.planned with
  | .ok _ => doubt
  | .error _ => doubt && e.before.cp0.hasStatus statusEXL

/-- **Instructions that are planned alike** work alike. -/
theorem alike_worked {doubt : Bool} {e e' : Execution} (h : Alike doubt e.before e'.before)
    (hplanned : e'.planned = e.planned) {w : Cpu} (hw : e.worked = some w) :
    ∃ w', e'.worked = some w' ∧ Alike (e.doubtAfter doubt) w w' := by
  obtain ⟨before, word, planned⟩ := e
  obtain ⟨before', word', planned'⟩ := e'
  obtain rfl : planned' = planned := hplanned
  have h : Alike doubt before before' := h
  have hslot : before'.inDelaySlot = before.inDelaySlot := h.same Cpu.inDelaySlot fun _ => rfl
  have hlift : ∀ b : Cpu, b.cp0 = before.cp0 →
      (doubt && before.cp0.hasStatus statusEXL) = doubt ∨ b.cp0.hasStatus statusEXL = false := by
    intro b hb
    rw [hb]
    cases before.cp0.hasStatus statusEXL
    · exact .inr rfl
    · exact .inl (Bool.and_true doubt)
  cases planned' with
  | ok p =>
    have hbase : before'.successor = before.successor := h.same Cpu.successor fun _ => rfl
    obtain rfl := Option.some.inj hw
    exact ⟨_, congrArg (fun base => some ((before'.apply p.effect).follow base p.flow)) hbase,
      (h.apply p.effect).follow _ p.flow⟩
  | error f =>
    cases f with
    | trap t =>
      obtain rfl := Option.some.inj hw
      exact ⟨_, congrArg (fun inDelay => some (before'.takeException t inDelay)) hslot,
        h.takeException t _ (hlift before rfl)⟩
    | floatingPoint fcr31 =>
      obtain rfl := Option.some.inj hw
      have hrecorded : Alike doubt { before with fcr31 := fcr31 } { before' with fcr31 := fcr31 } := by
        show ({ before.veiled doubt with fcr31 := fcr31 } : Cpu) = { before'.veiled doubt with fcr31 := fcr31 }
        rw [show before.veiled doubt = before'.veiled doubt from h]
      exact ⟨_, congrArg (fun inDelay => some (Cpu.takeException { before' with fcr31 := fcr31 } .floatingPoint
        inDelay)) hslot, hrecorded.takeException .floatingPoint _ (hlift _ rfl)⟩
    | fatal x => cases hw

end Execution

end Vr4300
