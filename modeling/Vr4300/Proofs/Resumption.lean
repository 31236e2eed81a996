import Vr4300.Proofs.ControlFlow
import Vr4300.Proofs.DerivedState

/-!
# `Proofs.Resumption` — interrupts are precise and can be returned from

An interrupt is delivered in front of an instruction, and the handler returns with ERET. What it returns to is the
interrupted state up to a few fields, `Cpu.Restored`: the exception level is entered and left, and nothing that
derives from Status moves.

A pending target is not saved. The handler returns to the branch that set it, which is executed again: it finds the
registers that it read the first time, unless it links into one of them, so it comes to the same target.

## Contents

* `Cpu.Sampled`: Cause has the level of the interrupt line, however long time passes;
* `Cpu.Restored`, `Restored.of_lasting`, `Restored.trans`;
* `deliverInterrupt_eq`, `leaveException_raised`: the exception level entered and left;
* `Execution.restored_of_leave`: the return;
* `Transfer.sources`, `transferPlan_congr`: what a transfer looks at;
* `Chain.inner`, `inner_of_transfer`: what a transfer has done, while its target is pending;
* `Cpu.Repeats`, `repeats_of_restored`: the branch executed again;
* `interrupts_restartable`.
-/

namespace Vr4300

open Control

/-! ## The interrupt line in Cause -/

namespace Cpu

/-- Cause has the level of the interrupt line. -/
def Sampled (c : Cpu) : Prop := c.cp0.sample c.line = c.cp0

theorem sampled_updateInterrupts (c : Cpu) : c.updateInterrupts.Sampled :=
  ControlRegisters.sample_sample c.cp0 c.line c.line

namespace Sampled

variable {c : Cpu}

theorem schedule (h : c.Sampled) (kind : EventKind) (n : Int) (action : TimerAction) :
    (c.schedule kind n action).Sampled := by
  unfold Cpu.schedule
  split <;> exact h

theorem perform (h : c.Sampled) (action : TimerAction) (rest : Schedule TimerAction) :
    (Scheduled.perform action { c with events := rest } : Cpu).Sampled := by
  cases action with
  | compareMatch => exact sampled_updateInterrupts _
  | budgetSpent => exact h

theorem fireDue (limit : Nat) : ∀ {c : Cpu}, c.Sampled → (Vr4300.fireDue limit c).Sampled := by
  induction limit with
  | zero => intro c h; exact h
  | succ limit ih =>
    intro c h
    unfold Vr4300.fireDue
    split
    · exact h
    · rename_i action rest _
      exact ih (h.perform action rest)

theorem passCycles (h : c.Sampled) (n : UInt64) : (c.passCycles n).Sampled := by
  show (c.cp0.put count _).sample c.line = c.cp0.put count _
  rw [ControlRegisters.sample_put _ _ _ (by decide), show c.cp0.sample c.line = c.cp0 from h]

theorem retire (h : c.Sampled) : c.retire.Sampled :=
  fireDue (c := { c.passCycles 1 with opsExecuted := c.opsExecuted + 1, events := c.events.advance 1 }) _
    (h.passCycles 1)

theorem skipIdle (h : c.Sampled) : c.skipIdle.Sampled := by
  rw [skipIdle_eq]
  split
  · exact h.passCycles (UInt64.ofNat c.idleCycles)
  · exact h

end Sampled

end Cpu

/-- The level of the line stays in Cause behind an execution, if the instruction leaves it there. -/
theorem Execution.sampled_after {e : Execution} {b : Cpu} (h : e.worked = some b) (hb : b.Sampled) :
    e.after.Sampled := by
  rw [e.after_eq, h]
  dsimp only
  split
  · exact hb.retire.skipIdle
  · exact hb.retire

/-! ## What an interrupt gives back -/

/-- The bits of Cause that describe the last exception, and the one that time sets. -/
def causeEntered : UInt64 := causeBD ||| causeExcCode ||| causeCE ||| causeIP7

/-- Values that agree off some bits agree off more bits. -/
theorem clear_congr {x y bits more : UInt64} (h : x &&& ~~~bits = y &&& ~~~bits)
    (hmore : ~~~more = ~~~bits &&& ~~~more) : x &&& ~~~more = y &&& ~~~more := by
  rw [hmore, ← UInt64.and_assoc, h, UInt64.and_assoc]

@[simp] theorem ControlRegisters.get_cause_put (b : ControlRegisters) (v : UInt64) : (b.put cause v).get cause = v :=
  RegisterFile.read_write_self _ _ _

/-- What a sample leaves of Cause depends on what was there off the sampled bit, and on the line. -/
theorem ControlRegisters.cause_sample_congr {a b : ControlRegisters} (level : Bool)
    (h : a.get cause &&& ~~~(causeEntered ||| causeIP2) = b.get cause &&& ~~~(causeEntered ||| causeIP2)) :
    (a.sample level).get cause &&& ~~~causeEntered = (b.sample level).get cause &&& ~~~causeEntered := by
  have hmasks : ~~~(causeEntered ||| causeIP2) = ~~~causeIP2 &&& ~~~causeEntered := by decide
  rw [hmasks, ← UInt64.and_assoc, ← UInt64.and_assoc] at h
  unfold sample setBits clearBits
  cases level with
  | false =>
    rw [if_neg Bool.false_ne_true, if_neg Bool.false_ne_true, get_cause_put, get_cause_put]
    exact h
  | true =>
    rw [if_pos rfl, if_pos rfl, get_cause_put, get_cause_put, ← clear_or, or_and_distrib,
      ← clear_or (b.values.read cause), or_and_distrib (b.values.read cause &&& _)]
    exact congrArg (· ||| _) h

namespace Cpu

/-- **What an interrupt gives back** of the state `c` that it interrupted: everything but the place of execution,
EPC, the description of the exception in Cause, the link, and what time and the devices change. -/
structure Restored (c d : Cpu) : Prop where
  /-- The general registers. -/
  regs : d.regs = c.regs
  /-- The multiply/divide pair. -/
  hilo : d.hilo = c.hilo
  /-- The floating-point registers, and the view that they are seen in. -/
  fpr : d.fpr = c.fpr
  /-- The floating-point control register. -/
  fcr31 : d.fcr31 = c.fcr31
  /-- Main memory. -/
  ram : d.ram = c.ram
  /-- The entries that map addresses. -/
  tlb : d.tlb = c.tlb
  /-- The latch of the third coprocessor. -/
  latch : d.latch = c.latch
  /-- The floating-point unit is usable. -/
  floatUsable : d.floatUsable = c.floatUsable
  /-- The control registers, Status among them. -/
  control : ∀ r, r ≠ epc → r ≠ cause → r ≠ count → d.cp0.get r = c.cp0.get r
  /-- Cause, with the line as it is sampled. -/
  cause : d.cp0.get cause &&& ~~~causeEntered = (c.cp0.sample c.line).get cause &&& ~~~causeEntered
  /-- Where the random entry number starts. -/
  randomEpoch : d.randomEpoch = c.randomEpoch
  /-- The level of the interrupt line. -/
  line : d.line = c.line
  /-- What is noted about overwritten instructions. -/
  codeInvalidations : d.codeInvalidations = c.codeInvalidations
  /-- What is noted about replaced entries. -/
  tlbDirty : d.tlbDirty = c.tlbDirty
  /-- Settings. -/
  settings : d.settings = c.settings
  /-- The values of control registers after a reset. -/
  resetValues : d.resetValues = c.resetValues

/-- A state is restored by one that shares what lasts with it, up to what need not be. -/
theorem Restored.of_lasting {c d : Cpu} {bank : ControlRegisters} {pc : UInt64} {slot : Option UInt64} {ll : Bool}
    {bus : Bus}
    (h : d.lasting =
      ({ c with cp0 := bank, pc := pc, delaySlot := slot, llBit := ll, bus := bus } : Cpu).lasting)
    (hcontrol : ∀ r, r ≠ epc → r ≠ Control.cause → bank.get r = c.cp0.get r)
    (hcause : bank.get Control.cause &&& ~~~causeEntered = c.cp0.get Control.cause &&& ~~~causeEntered)
    (hsampled : d.Sampled) : c.Restored d where
  regs := same_of_lasting h (·.regs) fun _ => rfl
  hilo := same_of_lasting h (·.hilo) fun _ => rfl
  fpr := same_of_lasting h (·.fpr) fun _ => rfl
  fcr31 := same_of_lasting h (·.fcr31) fun _ => rfl
  ram := same_of_lasting h (·.ram) fun _ => rfl
  tlb := same_of_lasting h (·.tlb) fun _ => rfl
  latch := same_of_lasting h (·.latch) fun _ => rfl
  floatUsable := same_of_lasting h (·.floatUsable) fun _ => rfl
  control := by
    intro r hepc hcause hcount
    have hbank : d.cp0.lasting = bank.lasting := congrArg Cpu.cp0 h
    rw [ControlRegisters.get_of_lasting hbank hcount hcause, hcontrol r hepc hcause]
  cause := by
    have hbank : d.cp0.lasting = bank.lasting := congrArg Cpu.cp0 h
    have hline : d.line = c.line := same_of_lasting h (·.line) fun _ => rfl
    have hoff : d.cp0.get Control.cause &&& ~~~(causeEntered ||| causeIP2) =
        c.cp0.get Control.cause &&& ~~~(causeEntered ||| causeIP2) :=
      (clear_congr (ControlRegisters.cause_of_lasting hbank) (by decide)).trans (clear_congr hcause (by decide))
    rw [← show d.cp0.sample d.line = d.cp0 from hsampled, hline]
    exact ControlRegisters.cause_sample_congr c.line hoff
  randomEpoch := same_of_lasting h (·.randomEpoch) fun _ => rfl
  line := same_of_lasting h (·.line) fun _ => rfl
  codeInvalidations := same_of_lasting h (·.codeInvalidations) fun _ => rfl
  tlbDirty := same_of_lasting h (·.tlbDirty) fun _ => rfl
  settings := same_of_lasting h (·.settings) fun _ => rfl
  resetValues := same_of_lasting h (·.resetValues) fun _ => rfl

/-- What is restored by a state that has been sampled is restored by one that restores that state. -/
theorem Restored.trans {b c d : Cpu} (h : b.Restored c) (h' : c.Restored d) (hsampled : c.Sampled) :
    b.Restored d where
  regs := h'.regs.trans h.regs
  hilo := h'.hilo.trans h.hilo
  fpr := h'.fpr.trans h.fpr
  fcr31 := h'.fcr31.trans h.fcr31
  ram := h'.ram.trans h.ram
  tlb := h'.tlb.trans h.tlb
  latch := h'.latch.trans h.latch
  floatUsable := h'.floatUsable.trans h.floatUsable
  control r hepc hcause hcount := (h'.control r hepc hcause hcount).trans (h.control r hepc hcause hcount)
  cause := by
    have hcause := h'.cause
    rw [show c.cp0.sample c.line = c.cp0 from hsampled] at hcause
    exact hcause.trans h.cause
  randomEpoch := h'.randomEpoch.trans h.randomEpoch
  line := h'.line.trans h.line
  codeInvalidations := h'.codeInvalidations.trans h.codeInvalidations
  tlbDirty := h'.tlbDirty.trans h.tlbDirty
  settings := h'.settings.trans h.settings
  resetValues := h'.resetValues.trans h.resetValues

end Cpu

/-! ## The exception level, entered and left -/

namespace ControlRegisters

variable (b : ControlRegisters)

theorem hasStatus_setBits {bits bit : UInt64} (h : bits &&& bit = 0) :
    (b.setBits status bits).hasStatus bit = b.hasStatus bit := by
  unfold hasStatus setBits
  rw [values_put, RegisterFile.read_write_self, or_and_of_disjoint h]

/-- A bit of Status that is set and cleared again is as it was, if it was clear. -/
theorem clearBits_setBits {b : ControlRegisters} {bit : UInt64} (h : b.hasStatus bit = false) :
    (b.setBits status bit).clearBits status bit = b := by
  have hclear : b.values.read status &&& bit = 0 := by simpa [hasStatus] using h
  have hvalue : (b.values.read status ||| bit) &&& ~~~bit = b.values.read status := by
    rw [or_clear]
    have hkept := clear_and_of_disjoint ((UInt64.and_comm _ _).trans hclear) (b.values.read status)
    rwa [UInt64.and_comm, ← UInt64.and_assoc, UInt64.and_self] at hkept
  have hself : b.values.write status (b.values.read status) = b.values := Vector.set_getElem_self _
  unfold clearBits setBits
  rw [put_put, values_put, RegisterFile.read_write_self, hvalue]
  unfold put
  rw [hself]

theorem clearBits_sample {r : Reg} (bits : UInt64) (level : Bool) (h : r ≠ cause) :
    (b.sample level).clearBits r bits = (b.clearBits r bits).sample level := by
  obtain ⟨v, hv, -⟩ := sample_eq_put b level
  have hread : (b.sample level).values.read r = b.values.read r := by
    rw [hv]
    exact RegisterFile.read_write_of_ne _ _ h.symm
  unfold clearBits
  rw [sample_put _ _ _ h, hread]

end ControlRegisters

namespace Cpu

/-- Status has changed, but nothing that derives from it. -/
theorem statusChanged_of_fresh {c : Cpu} (hwide : c.FullWidth) (hgated : c.Gated) :
    c.statusChanged = c.updateInterrupts := by
  have hselect : c.fpr.select (c.cp0.hasStatus statusFR) = c.fpr := by
    rw [← show c.fpr.fullWidth = _ from hwide]
    rfl
  unfold statusChanged
  dsimp only
  rw [hselect, ← show c.floatUsable = _ from hgated]

/-- The exception level is entered. -/
def raised (c : Cpu) : Cpu := statusChanged { c with cp0 := c.cp0.setBits status statusEXL }

/-- Where a handler returns to: the interrupted instruction, or the branch in front of it. -/
def returnPoint (c : Cpu) : UInt64 := if c.inDelaySlot then c.pc - 4 else c.pc

/-- **Delivery** saves the place to return to, describes the exception, and enters the exception level. -/
theorem deliverInterrupt_eq {c : Cpu} (h : c.cp0.hasStatus statusEXL = false) :
    ∃ v, v &&& ~~~causeEntered = c.cp0.get cause &&& ~~~causeEntered ∧
      c.deliverInterrupt =
        raised { c with
          cp0 := (c.cp0.put epc c.returnPoint).put cause v
          pc := exceptionVector (c.cp0.hasStatus statusBEV) false
          delaySlot := none
          statistics := countException .interrupt c.statistics } := by
  -- the delay-slot mark is written first, and then the code of the exception
  have hmarked (mark : UInt64) (hmark : mark &&& ~~~causeEntered = c.cp0.get cause &&& ~~~causeEntered) :
      causeOf .interrupt mark &&& ~~~causeEntered = c.cp0.get cause &&& ~~~causeEntered := by
    show ((mark &&& ~~~(causeExcCode ||| causeCE)) ||| 0 ||| 0) &&& ~~~causeEntered = _
    rw [UInt64.or_zero, UInt64.or_zero, ← hmark]
    exact clear_and_of_disjoint (by decide) mark
  have hbank (place mark : UInt64) :
      ((c.cp0.put epc place).put cause mark).put cause
          (causeOf .interrupt (((c.cp0.put epc place).put cause mark).get cause)) =
        (c.cp0.put epc place).put cause (causeOf .interrupt mark) := by
    rw [ControlRegisters.get_cause_put, ControlRegisters.put_put]
  have hread (place : UInt64) : (c.cp0.put epc place).values.read cause = c.cp0.get cause :=
    RegisterFile.read_write_of_ne _ _ (by decide)
  unfold deliverInterrupt takeException returnPoint
  rw [h]
  cases c.inDelaySlot with
  | true =>
    refine ⟨_, hmarked (c.cp0.get cause ||| causeBD) (or_and_of_disjoint (by decide) _), ?_⟩
    rw [if_pos rfl, ← hbank, ← hread]
    rfl
  | false =>
    refine ⟨_, hmarked (c.cp0.get cause &&& ~~~causeBD) (clear_and_of_disjoint (by decide) _), ?_⟩
    rw [if_neg Bool.false_ne_true, ← hbank, ← hread]
    rfl

section

variable {c : Cpu} (hwide : c.FullWidth) (hgated : c.Gated)
  (hlevel : c.cp0.hasStatus (statusEXL ||| statusERL) = false)

include hwide hgated in
/-- Nothing that derives from Status looks at the exception level. -/
theorem raised_eq : c.raised = ({ c with cp0 := c.cp0.setBits status statusEXL } : Cpu).updateInterrupts := by
  refine statusChanged_of_fresh ?_ ?_
  · exact hwide.trans (ControlRegisters.hasStatus_setBits c.cp0 (by decide)).symm
  · exact hgated.trans (ControlRegisters.hasStatus_setBits c.cp0 (by decide)).symm

include hwide hgated hlevel

theorem hasStatus_raised : c.raised.cp0.hasStatus statusERL = false := by
  rw [raised_eq hwide hgated]
  show ((c.cp0.setBits status statusEXL).sample c.line).hasStatus statusERL = false
  rw [ControlRegisters.hasStatus_sample, ControlRegisters.hasStatus_setBits _ (by decide)]
  exact ControlRegisters.hasStatus_of_clear hlevel (by decide)

/-- A handler returns to the place that was saved. -/
theorem returnAddress_raised (bus : Bus) : ({ c.raised with bus := bus } : Cpu).returnAddress = c.cp0.get epc := by
  have hepc : c.raised.cp0.get epc = c.cp0.get epc := by
    rw [raised_eq hwide hgated]
    exact (ControlRegisters.get_sample _ _ (by decide)).trans (ControlRegisters.get_put_of_ne _ _ (by decide))
  unfold returnAddress
  dsimp only
  rw [hasStatus_raised hwide hgated hlevel, if_neg Bool.false_ne_true, hepc]

/-- **The exception level, left again**, is as it was, and so is what derives from Status. -/
theorem leaveException_raised (bus : Bus) :
    ({ c.raised with bus := bus } : Cpu).leaveException =
      ({ c with llBit := false, bus := bus } : Cpu).updateInterrupts := by
  have hleft : c.raised.cp0.clearBits status statusEXL = c.cp0.sample c.line := by
    rw [raised_eq hwide hgated]
    show ((c.cp0.setBits status statusEXL).sample c.line).clearBits status statusEXL = _
    rw [ControlRegisters.clearBits_sample _ _ _ (by decide),
      ControlRegisters.clearBits_setBits (ControlRegisters.hasStatus_of_clear hlevel (by decide))]
  unfold leaveException
  dsimp only
  rw [hasStatus_raised hwide hgated hlevel, if_neg Bool.false_ne_true, hleft, raised_eq hwide hgated]
  refine (statusChanged_of_fresh ?_ ?_).trans ?_
  · exact hwide.trans (ControlRegisters.hasStatus_sample _ _ _).symm
  · exact hgated.trans (ControlRegisters.hasStatus_sample _ _ _).symm
  · exact updateInterrupts_updateInterrupts { c with llBit := false, bus := bus }

end

/-! ## The return -/

/-- The return from a handler needs no coprocessor. -/
theorem planGuarded_leave (c : Cpu) {w : UInt32} (hw : Transfer.ofWord w = .leave) :
    c.planGuarded (.decode w) = .ok { effect := .leaveException, flow := .resume c.returnAddress } := by
  have hdirects := Instruction.directs_decode w
  unfold Instruction.Directs at hdirects
  rw [hw] at hdirects
  rw [hdirects.1]
  rfl

/-- A word that was fetched is executed as what it decodes to. -/
theorem planned_nextExecution {c : Cpu} (h : c.nextExecution.word ≠ 0) :
    c.nextExecution.planned = c.nextExecution.before.planGuarded (.decode c.nextExecution.word) := by
  unfold nextExecution at h ⊢
  rcases hfetch : c.fetch c.pc with ⟨r, b⟩
  rw [hfetch] at h
  cases r with
  | ok word => rfl
  | error t => exact absurd rfl h

end Cpu

namespace Execution

variable {c : Cpu} {e : Execution} {bus : Bus}

/-- **The handler of an interrupt returns** to the state that was interrupted. -/
theorem restored_of_leave (hfresh : c.Fresh) (hlevel : c.cp0.hasStatus (statusEXL ||| statusERL) = false)
    (hbefore : e.before = { c.deliverInterrupt with bus := bus })
    (hplanned : e.planned = e.before.planGuarded (.decode e.word)) (hw : Transfer.ofWord e.word = .leave) :
    e.completes = true ∧ c.Restored e.after ∧ e.after.Sampled ∧ e.after.pc = c.returnPoint ∧
      e.after.delaySlot = none ∧ e.after.bus = bus := by
  obtain ⟨v, hv, hdelivered⟩ := Cpu.deliverInterrupt_eq (ControlRegisters.hasStatus_of_clear hlevel (by decide))
  -- the interrupted processor with EPC and Cause written, as it is when the exception level is entered
  let bank := (c.cp0.put epc c.returnPoint).put cause v
  let entered : Cpu :=
    { c with
      cp0 := bank
      pc := exceptionVector (c.cp0.hasStatus statusBEV) false
      delaySlot := none
      statistics := Cpu.countException .interrupt c.statistics }
  have hstatus (bit : UInt64) : bank.hasStatus bit = c.cp0.hasStatus bit :=
    (ControlRegisters.hasStatus_put _ _ bit (by decide)).trans (ControlRegisters.hasStatus_put _ _ bit (by decide))
  have hwide : entered.FullWidth := hfresh.wide.trans (hstatus _).symm
  have hgated : entered.Gated := hfresh.gated.trans (hstatus _).symm
  have hclear : entered.cp0.hasStatus (statusEXL ||| statusERL) = false := (hstatus _).trans hlevel
  have hstart : e.before = { entered.raised with bus := bus } := by rw [hbefore, hdelivered]
  have hplace : bank.get epc = c.returnPoint :=
    (ControlRegisters.get_put_of_ne _ v (by decide)).trans (RegisterFile.read_write_self _ _ _)
  have hplan : e.planned = .ok { effect := .leaveException, flow := .resume c.returnPoint } := by
    rw [hplanned, e.before.planGuarded_leave hw, hstart, Cpu.returnAddress_raised hwide hgated hclear]
    show (.ok { effect := .leaveException, flow := .resume (bank.get epc) } : Except Fault Plan) = _
    rw [hplace]
  have hworked := worked_of_plan hplan
  have hleft :
      e.before.apply .leaveException = ({ entered with llBit := false, bus := bus } : Cpu).updateInterrupts := by
    rw [hstart]
    exact Cpu.leaveException_raised hwide hgated hclear bus
  rw [hleft] at hworked
  have hsampled := sampled_after hworked (Cpu.sampled_updateInterrupts { entered with llBit := false, bus := bus })
  have hlasting := lasting_after hworked
  refine ⟨completes_iff.mpr ⟨_, hplan⟩, ?_, hsampled, ?_, ?_, ?_⟩
  · let left : Cpu := { entered with pc := c.returnPoint, delaySlot := none, llBit := false, bus := bus }
    have hleft : e.after.lasting = left.lasting := hlasting.trans (Cpu.lasting_updateInterrupts left)
    refine Cpu.Restored.of_lasting hleft ?_ ?_ hsampled
    · intro r hepc hcause
      exact (ControlRegisters.get_put_of_ne _ _ hcause.symm).trans (ControlRegisters.get_put_of_ne _ _ hepc.symm)
    · exact (congrArg (· &&& ~~~causeEntered) (ControlRegisters.get_cause_put _ v)).trans hv
  · exact Cpu.same_of_lasting hlasting (·.pc) fun _ => rfl
  · exact Cpu.same_of_lasting hlasting (·.delaySlot) fun _ => rfl
  · exact Cpu.same_of_lasting hlasting (·.bus) fun _ => rfl

end Execution

/-! ## The branch again -/

/-- The registers that a branch compares. -/
def BranchTest.sources : BranchTest → List Reg
  | .equal rs rt | .notEqual rs rt => [rs, rt]
  | .notPositive rs | .positive rs | .negative rs | .notNegative rs => [rs]
  | .floatCondition _ => []

/-- The registers that a transfer looks at. -/
def Transfer.sources : Transfer → List Reg
  | .register rs => [rs]
  | .relative test _ => test.sources
  | .none | .leave | .region => []

namespace Cpu

section

variable {c c' : Cpu}

theorem taken_congr {test : BranchTest} (hfcr31 : c'.fcr31 = c.fcr31)
    (hregs : ∀ r ∈ test.sources, c'.regs.get r = c.regs.get r) : c'.Taken test ↔ c.Taken test := by
  unfold Taken
  cases test <;> simp_all [BranchTest.sources]

/-- **A transfer** looks at its address, its sources and the floating-point condition only. -/
theorem transferPlan_congr {w : UInt32} {t : Transfer} (ht : t ≠ .leave) (hpc : c'.pc = c.pc)
    (hfcr31 : c'.fcr31 = c.fcr31) (hregs : ∀ r ∈ t.sources, c'.regs.get r = c.regs.get r) :
    c'.transferPlan w t = c.transferPlan w t := by
  have hlink (link : Option Reg) : c'.linkEffect link = c.linkEffect link := by
    unfold linkEffect linkAddress
    rw [hpc]
  unfold transferPlan
  cases t with
  | none => rfl
  | leave => exact absurd rfl ht
  | region =>
    dsimp only
    rw [hlink, hpc]
  | register rs =>
    dsimp only
    rw [hlink, hregs rs (List.mem_singleton_self rs)]
  | relative test likely =>
    dsimp only
    rw [hlink, hpc]
    simp only [taken_congr hfcr31 hregs]

theorem peek?_congr {address : UInt64} (hram : c'.ram = c.ram) (htlb : c'.tlb = c.tlb)
    (hentry : c'.cp0.get entryHi = c.cp0.get entryHi) : c'.peek? address = c.peek? address := by
  unfold peek? resolve asid
  rw [hram, htlb, hentry]

end

/-- The general registers behind a transfer. -/
def linked (c : Cpu) (w : UInt32) : GeneralRegisters :=
  match Encoding.linkRegister? w with
  | none => c.regs
  | some rd => c.regs.set rd c.linkAddress

theorem apply_link (c : Cpu) (w : UInt32) :
    c.apply (c.linkEffect (Encoding.linkRegister? w)) = { c with regs := c.linked w } := by
  unfold linkEffect linked
  cases Encoding.linkRegister? w <;> rfl

/-- A target is pending behind a plan that branches to it only. -/
theorem flow_of_pending {a : Cpu} {base target : UInt64} {f : Flow} (h : (a.follow base f).delaySlot = some target) :
    f = .branch target := by
  cases f with
  | branch x => exact congrArg Flow.branch (Option.some.inj h)
  | sequential => cases h
  | nullify => cases h
  | resume address => cases h

/-- **What sets a target** is a transfer, and it is no return from a handler. -/
theorem transfer_of_pending {b : Cpu} {w : UInt32} {p : Plan} {target : UInt64}
    (h : b.plan (.decode w) = .ok p) (hflow : p.flow = .branch target) :
    p = b.transferPlan w (Transfer.ofWord w) ∧ Transfer.ofWord w ≠ .none ∧ Transfer.ofWord w ≠ .leave := by
  have hnone : Transfer.ofWord w ≠ .none := by
    intro hw
    cases (b.level_decode hw p h).symm.trans hflow
  have hp : p = b.transferPlan w (Transfer.ofWord w) := by
    rw [plan_transfer b hnone] at h
    exact (Except.ok.inj h).symm
  refine ⟨hp, hnone, ?_⟩
  intro hw
  rw [hp, hw] at hflow
  cases hflow

/-- **A transfer that sets a target** writes its return address, and its delay slot is next. -/
theorem carried_transfer (b : Cpu) {w : UInt32} {t : Transfer} {target : UInt64} (ht : t ≠ .leave)
    (hflow : (b.transferPlan w t).flow = .branch target) :
    (b.apply (b.transferPlan w t).effect).follow b.successor (b.transferPlan w t).flow =
      { b with regs := b.linked w, pc := b.successor, delaySlot := some target } := by
  have heffect : (b.transferPlan w t).effect = b.linkEffect (Encoding.linkRegister? w) := by
    cases t with
    | none => cases hflow
    | leave => exact absurd rfl ht
    | _ => rfl
  rw [hflow, heffect, apply_link]
  rfl

/-- What is left alone between two instructions if no interrupt is delivered. -/
def inner (c : Cpu) : Cpu :=
  { c.lasting with bus := {}, line := false, codeInvalidations := [], tlbDirty := false }

theorem same_of_inner {a b : Cpu} {α : Type} (h : a.inner = b.inner) (read : Cpu → α)
    (hread : ∀ c : Cpu, read c.inner = read c) : read a = read b := by
  rw [← hread a, h, hread]

theorem inner_of_lasting {a b : Cpu} (h : a.lasting = b.lasting) : a.inner = b.inner := by
  unfold inner
  rw [h]

end Cpu

theorem Quiet.inner {a b : Cpu} (h : Quiet a b) (hpending : b.delaySlot ≠ none) : b.inner = a.inner := by
  cases h with
  | sample =>
    unfold Cpu.inner
    rw [Cpu.lasting_updateInterrupts]
  | interrupt => exact absurd rfl hpending
  | outside => rfl

/-- **While a target is pending**, no interrupt has been delivered. -/
theorem Chain.inner {a c : Cpu} {es : List Execution} (h : Chain a es c) (hes : es = [])
    (hpending : c.delaySlot ≠ none) : c.inner = a.inner := by
  induction h with
  | nil => rfl
  | @quiet a b c es hq _ ih =>
    have hrest := ih hes hpending
    have hslot : c.delaySlot = b.delaySlot := Cpu.same_of_inner hrest (·.delaySlot) fun _ => rfl
    exact hrest.trans (hq.inner (hslot ▸ hpending))
  | execute => cases hes

namespace Cpu

/-- Executed at `d`, the word leads to the place and to the target of `c`, and gives back the rest of `c`, without
using a device. -/
def Repeats (d : Cpu) (w : UInt32) (c : Cpu) : Prop :=
  ∃ retired d', d.executeWord w = (.ok retired, d') ∧ retired.trapped = false ∧
    d'.pc = c.pc ∧ d'.delaySlot = c.delaySlot ∧ d'.bus = d.bus ∧ c.Restored d'

/-- A second link into the same registers finds them as it would leave them. -/
theorem linked_linked {b d : Cpu} {w : UInt32} (hregs : d.regs = b.linked w) (hpc : d.pc = b.pc) :
    d.linked w = d.regs := by
  unfold linked at hregs ⊢
  cases hlink : Encoding.linkRegister? w with
  | none => rfl
  | some rd =>
    rw [hlink] at hregs
    dsimp only at hregs ⊢
    rw [hregs, GeneralRegisters.set_set, linkAddress, linkAddress, hpc]

/-- A link leaves what a transfer looks at, unless it is one of its own sources. -/
theorem get_linked {b : Cpu} {w : UInt32} {r : Reg} (h : ∀ rd, Encoding.linkRegister? w = some rd → rd ≠ r) :
    (b.linked w).get r = b.regs.get r := by
  unfold linked
  cases hlink : Encoding.linkRegister? w with
  | none => rfl
  | some rd => exact GeneralRegisters.get_set_of_ne _ _ (h rd hlink)

theorem planGuarded_congr {c c' : Cpu} {i : Instruction} (hf : c'.floatUsable = c.floatUsable)
    (h : c'.plan i = c.plan i) : c'.planGuarded i = c.planGuarded i := by
  unfold planGuarded
  rw [hf, h]

section

variable {b a c d : Cpu} {w : UInt32} {retired : Retired} {target : UInt64}

/-- **Behind a transfer that set a target**, until it is used up. -/
theorem inner_of_transfer (hexecute : b.executeWord w = (.ok retired, a)) (hchain : Chain a [] c)
    (hpending : c.delaySlot = some target) :
    b.planGuarded (.decode w) = .ok (b.transferPlan w (Transfer.ofWord w)) ∧
      (b.transferPlan w (Transfer.ofWord w)).flow = .branch target ∧ Transfer.ofWord w ≠ .none ∧
      Transfer.ofWord w ≠ .leave ∧
      c.inner = ({ b with regs := b.linked w, pc := b.successor, delaySlot := some target } : Cpu).inner := by
  let e : Execution := ⟨b, w, b.planGuarded (.decode w)⟩
  have hafter : e.after = a := congrArg Prod.snd hexecute
  have hchained : c.inner = e.after.inner := by
    rw [hafter]
    exact hchain.inner rfl (by rw [hpending]; simp)
  have hslot : e.after.delaySlot = some target :=
    (same_of_inner hchained (·.delaySlot) fun _ => rfl).symm.trans hpending
  obtain ⟨p, hp⟩ := Execution.completes_iff.mp
    (Execution.completes_of_pending (e := e) ⟨retired, congrArg Prod.fst hexecute⟩ hslot)
  have hlasting := Execution.lasting_after (Execution.worked_of_plan hp)
  have hflow : p.flow = .branch target :=
    flow_of_pending ((same_of_lasting hlasting (·.delaySlot) fun _ => rfl).symm.trans hslot)
  obtain ⟨rfl, hnone, hleave⟩ := transfer_of_pending (plan_of_planGuarded hp) hflow
  rw [show e.before = b from rfl, carried_transfer b hleave hflow] at hlasting
  exact ⟨hp, hflow, hnone, hleave, hchained.trans (inner_of_lasting hlasting)⟩

/-- **The branch executed again** leads to its delay slot and its target, on a processor that has been given back
what it left. -/
theorem repeats_of_restored (hslot : b.delaySlot = none) (hexecute : b.executeWord w = (.ok retired, a))
    (hchain : Chain a [] c) (hpending : c.delaySlot = some target)
    (hlink : ∀ rd, Encoding.linkRegister? w = some rd → rd ∉ (Transfer.ofWord w).sources)
    (hrestored : c.Restored d) (hsampled : d.Sampled) (hpc : d.pc = c.returnPoint) (hd : d.delaySlot = none) :
    d.pc = b.pc ∧ (b.peek? b.pc = some w → d.peek? d.pc = some w) ∧
      ∀ bus, ({ d with bus := bus } : Cpu).Repeats w c := by
  obtain ⟨hplan, hflow, hnone, hleave, hinner⟩ := inner_of_transfer hexecute hchain hpending
  have hnext : c.pc = b.pc + 4 := by
    have hpc := same_of_inner hinner (·.pc) fun _ => rfl
    rw [hpc]
    unfold successor
    rw [hslot]
    rfl
  have hback : d.pc = b.pc := by
    rw [hpc, returnPoint, inDelaySlot, hpending, hnext]
    exact UInt64.add_sub_cancel _ _
  have hregs : d.regs = b.linked w := hrestored.regs.trans (same_of_inner hinner (·.regs) fun _ => rfl)
  refine ⟨hback, ?_, ?_⟩
  · intro hpeek
    have hentry : c.cp0.get entryHi = b.cp0.get entryHi := by
      have hbank : c.cp0.lasting = b.cp0.lasting := congrArg Cpu.cp0 hinner
      exact ControlRegisters.get_of_lasting hbank (by decide) (by decide)
    rw [hback, ← hpeek]
    exact peek?_congr (hrestored.ram.trans (same_of_inner hinner (·.ram) fun _ => rfl))
      (hrestored.tlb.trans (same_of_inner hinner (·.tlb) fun _ => rfl))
      ((hrestored.control _ (by decide) (by decide) (by decide)).trans hentry)
  · intro bus
    let e : Execution :=
      ⟨{ d with bus := bus }, w, ({ d with bus := bus } : Cpu).planGuarded (.decode w)⟩
    have hsame : e.before.transferPlan w (Transfer.ofWord w) = b.transferPlan w (Transfer.ofWord w) := by
      refine transferPlan_congr hleave hback
        (hrestored.fcr31.trans (same_of_inner hinner (·.fcr31) fun _ => rfl)) ?_
      intro r hr
      show d.regs.get r = _
      rw [hregs]
      refine get_linked fun rd hrd => ?_
      rintro rfl
      exact hlink _ hrd hr
    have hplanned : e.planned = .ok (e.before.transferPlan w (Transfer.ofWord w)) := by
      rw [hsame, ← hplan]
      refine planGuarded_congr (hrestored.floatUsable.trans (same_of_inner hinner (·.floatUsable) fun _ => rfl)) ?_
      rw [plan_transfer b hnone, plan_transfer _ hnone]
      exact congrArg Except.ok hsame
    have hworked := Execution.worked_of_plan hplanned
    rw [carried_transfer _ hleave (hsame ▸ hflow), linked_linked (d := e.before) hregs hback] at hworked
    have hlasting := Execution.lasting_after hworked
    have hagain : d.Restored e.after :=
      Restored.of_lasting hlasting (fun _ _ _ => rfl) rfl (Execution.sampled_after hworked hsampled)
    obtain ⟨again, houtcome, huntrapped⟩ :=
      Execution.outcome_of_completes (Execution.completes_iff.mpr ⟨_, hplanned⟩)
    refine ⟨again, e.after, houtcome, huntrapped, ?_, ?_, ?_, hrestored.trans hagain hsampled⟩
    · have hplace : e.after.pc = e.before.successor := same_of_lasting hlasting (·.pc) fun _ => rfl
      rw [hplace, hnext, ← hback]
      show d.delaySlot.getD (d.pc + 4) = _
      rw [hd]
      rfl
    · exact (same_of_lasting hlasting (·.delaySlot) fun _ => rfl).trans hpending.symm
    · exact same_of_lasting hlasting (·.bus) fun _ => rfl

end

end Cpu

/-! ## Every state -/

/-- In every state of the processor, what derives from the control registers is up to date. -/
theorem Machine.Encounters.fresh {config : Configuration} {bus : Bus} {vector : VectorUnit} {visits : List Visit}
    {c : Cpu} (h : (Machine.create config bus vector).Encounters visits c) : c.Fresh := by
  have hrest := Machine.atRest_create config bus vector
  have hstart : (Machine.create config bus vector).cpu.Fresh := (Cpu.fresh_reset _).of_eq rfl rfl rfl rfl
  cases h with
  | between _ => exact (Machine.fresh_receive _ hrest hstart).1
  | within he hc => exact Execution.fresh_passes hc ((Machine.fresh_receive visits hrest hstart).2 _ he)

/-- **Interrupts are precise and can be returned from.** In every state of the processor what derives from Status is
up to date. From each such state in which no exception is being handled, an interrupt whose handler is the return
alone gives back the state, and uses no device if the handler is in main memory. If no target was pending, execution
resumes where it was. If one was pending, set by a transfer that was in no delay slot itself and does not link into
its own source, execution resumes at the transfer, and the transfer executed again leads to the interrupted place and
to the same target. -/
theorem interrupts_restartable :
    (∀ (config : Configuration) (bus : Bus) (vector : VectorUnit) (visits : List Visit) (c : Cpu),
        (Machine.create config bus vector).Encounters visits c → c.Fresh) ∧
      ∀ c : Cpu, c.Fresh → c.cp0.hasStatus (statusEXL ||| statusERL) = false →
        Transfer.ofWord c.deliverInterrupt.nextExecution.word = .leave →
          ∃ retired d, c.deliverInterrupt.step = (.ok retired, d) ∧ retired.trapped = false ∧ c.Restored d ∧
            (c.Sampled → d.cp0.get cause &&& ~~~causeEntered = c.cp0.get cause &&& ~~~causeEntered) ∧
            (∀ word, c.deliverInterrupt.peek? c.deliverInterrupt.pc = some word → d.bus = c.bus) ∧
            (c.delaySlot = none → d.pc = c.pc ∧ d.delaySlot = none) ∧
            ∀ (b : Cpu) (w : UInt32) (branched : Retired) (a : Cpu) (target : UInt64),
              b.delaySlot = none → b.executeWord w = (.ok branched, a) → Chain a [] c →
              c.delaySlot = some target →
              (∀ rd, Encoding.linkRegister? w = some rd → rd ∉ (Transfer.ofWord w).sources) →
                d.pc = b.pc ∧ d.delaySlot = none ∧ (b.peek? b.pc = some w → d.peek? d.pc = some w) ∧
                  ∀ bus, ({ d with bus := bus } : Cpu).Repeats w c := by
  refine ⟨fun _ _ _ _ _ h => h.fresh, ?_⟩
  intro c hfresh hlevel hleave
  have hfetched : c.deliverInterrupt.nextExecution.word ≠ 0 := by
    intro hzero
    rw [hzero] at hleave
    exact absurd hleave (by decide)
  obtain ⟨bus, hbefore⟩ := c.deliverInterrupt.exists_nextExecution_before
  obtain ⟨hcompletes, hrestored, hsampled, hpc, hslot, hbus⟩ :=
    Execution.restored_of_leave hfresh hlevel hbefore (Cpu.planned_nextExecution hfetched) hleave
  obtain ⟨retired, houtcome, huntrapped⟩ := Execution.outcome_of_completes hcompletes
  refine ⟨retired, _, c.deliverInterrupt.step_eq.trans houtcome, huntrapped, hrestored, ?_, ?_, ?_, ?_⟩
  · intro hline
    rw [hrestored.cause, show c.cp0.sample c.line = c.cp0 from hline]
  · intro word hpeek
    obtain ⟨v, -, hdelivered⟩ := Cpu.deliverInterrupt_eq (ControlRegisters.hasStatus_of_clear hlevel (by decide))
    have hkept : c.deliverInterrupt.nextExecution.before.bus = c.bus := by
      rw [Cpu.nextExecution_of_peek? hpeek, hdelivered]
      rfl
    rw [hbus]
    exact (congrArg Cpu.bus hbefore).symm.trans hkept
  · intro hnone
    refine ⟨hpc.trans ?_, hslot⟩
    rw [Cpu.returnPoint, Cpu.inDelaySlot, hnone]
    rfl
  · intro b w branched a target hb hexecute hchain hpending hlink
    obtain ⟨hback, hpeek, hagain⟩ :=
      Cpu.repeats_of_restored hb hexecute hchain hpending hlink hrestored hsampled hpc hslot
    exact ⟨hback, hslot, hpeek, hagain⟩

/-- The line interrupts in the delay slot of a call, and the handler returns to the call. -/
theorem interrupts_restartable_call :
    let start := Machine.create
      { general := { startPc := 0xFFFFFFFF80000000 }, memory := { ramSize := 0x200 }
        cpu := { initialStatus := 0x401 } } {} {}
    let visits : List Visit :=
      [.request (.loadProgram 0 [0x0C000003, 0]), .request (.loadProgram 0x180 [0x42000018]),
        .request (.attachLine true)]
    let b := (start.receive visits).cpu
    let c := (b.executeWord 0x0C000003).2
    c.interruptsPending = true ∧ c.delaySlot = some 0xFFFFFFFF8000000C ∧
      ∃ retired d, c.deliverInterrupt.step = (.ok retired, d) ∧ d.pc = 0xFFFFFFFF80000000 ∧
        d.peek? d.pc = some 0x0C000003 ∧ d.Repeats 0x0C000003 c := by
  intro start visits b c
  have hfresh : c.Fresh :=
    Execution.fresh_after (e := ⟨b, 0x0C000003, b.planGuarded (.decode 0x0C000003)⟩)
      (interrupts_restartable.1 _ _ _ visits b (.between (List.append_nil visits).symm))
  have hpending : c.delaySlot = some 0xFFFFFFFF8000000C := by decide +kernel
  have hexecute : b.executeWord 0x0C000003 = (.ok ⟨0xFFFFFFFF80000000, 0x0C000003, false, false⟩, c) :=
    Prod.ext (by decide +kernel) rfl
  obtain ⟨retired, d, hstep, -, -, -, -, -, hslot⟩ :=
    interrupts_restartable.2 c hfresh (by decide +kernel) (by decide +kernel)
  obtain ⟨hback, -, hpeek, hagain⟩ :=
    hslot b 0x0C000003 _ c _ (by decide +kernel) hexecute (.nil c) hpending (by decide)
  exact ⟨by decide +kernel, hpending, retired, d, hstep, hback.trans (by decide +kernel), hpeek (by decide +kernel),
    hagain d.bus⟩

end Vr4300
