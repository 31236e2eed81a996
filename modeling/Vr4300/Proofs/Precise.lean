import Vr4300.Proofs.Handler
import Vr4300.Proofs.Margin
import Vr4300.Machine.Basic

/-!
# `Proofs.Precise` — a fault leaves no trace

A handler makes its accesses, checks and writes in turn. That none of them writes before its last check is
not a matter of its shape; it is seen by comparing it with the plan of its instruction, which is decided
before anything is written. Each handler is its plan, carried out (`handle_eq`). So a handler that fails has
changed nothing, except for the exceptions that a floating-point operation records, and executing by handlers
is executing by plans (`executeHandler_eq`).

## Contents

* `Workbench.finish`: what a plan leaves on a workbench;
* `handle_eq`, by groups of instructions; `handler_eq`;
* `apply_withSlot`, `takeException_withSlot`: no instruction looks at the pending target;
* `executeHandler_eq`;
* `precise_faults`: no partial effects.
-/

namespace Vr4300

open FloatingPoint Integer

/-! ## Handlers and plans -/

namespace Workbench

/-- A plan, carried out. -/
def complete (b : Workbench) (p : Plan) : Workbench where
  cpu := b.cpu.apply p.effect
  next :=
    match p.flow with
    | .nullify => b.next + 4
    | .resume address => address
    | _ => b.next
  target :=
    match p.flow with
    | .branch target => some target
    | _ => b.target
  idle := if b.cpu.idles p.flow then true else b.idle

/-- What an instruction does according to what is planned. -/
def finish (b : Workbench) : Except Fault Plan → Except HandlerFault Unit × Workbench
  | .ok p => (.ok (), b.complete p)
  | .error (.trap t) => (.error (.trap t), b)
  | .error (.floatingPoint fcr31) =>
    (.error (.trap .floatingPoint), { b with cpu := { b.cpu with fcr31 := fcr31 } })
  | .error (.fatal e) => (.error (.fatal e), b)

end Workbench

namespace Handler

/-! ### Integer instructions -/

/-- A register that is written unless the result overflows. -/
theorem noOverflow_eq (result : Option UInt64) (rd : Reg) (b : Workbench) :
    (noOverflow result >>= writeRegister rd) b = b.finish (Cpu.writesChecked rd result) := by
  cases result <;> rfl

theorem handleImmediate_eq (op : ImmediateOp) (rt rs : Reg) (value : UInt64) (b : Workbench) :
    handleImmediate op rt rs value b =
      b.finish (Cpu.planImmediate op rt (b.cpu.regs.get rs) value) := by
  cases op with
  | addi => exact noOverflow_eq (addWord? (b.cpu.regs.get rs) value) rt b
  | daddi => exact noOverflow_eq (addDouble? (b.cpu.regs.get rs) value) rt b
  | _ => rfl

theorem handleRegister_eq (op : RegisterOp) (rd rs rt : Reg) (b : Workbench) :
    handleRegister op rd rs rt b =
      b.finish (Cpu.planRegister op rd (b.cpu.regs.get rs) (b.cpu.regs.get rt)) := by
  cases op with
  | add => exact noOverflow_eq (addWord? (b.cpu.regs.get rs) (b.cpu.regs.get rt)) rd b
  | sub => exact noOverflow_eq (subWord? (b.cpu.regs.get rs) (b.cpu.regs.get rt)) rd b
  | dadd => exact noOverflow_eq (addDouble? (b.cpu.regs.get rs) (b.cpu.regs.get rt)) rd b
  | dsub => exact noOverflow_eq (subDouble? (b.cpu.regs.get rs) (b.cpu.regs.get rt)) rd b
  | _ => rfl

/-! ### Branches -/

/-- A branch behind a link. -/
theorem branch_eq (c : Cpu) (taken likely : Bool) (offset : UInt64) (effect : Effect) (b : Workbench)
    (hcpu : b.cpu = c.apply effect) (hpc : b.cpu.pc = c.pc)
    (hidles : ∀ f, b.cpu.idles f = c.idles f) :
    branch taken likely offset b =
      (.ok (), ({ b with cpu := c } : Workbench).complete
        { effect := effect
          flow :=
            if taken then .branch (branchTarget c.pc offset)
            else if likely then .nullify else .sequential }) := by
  obtain ⟨cpu, next, target, idle⟩ := b
  subst hcpu
  have hpc : (c.apply effect).pc = c.pc := hpc
  have hidles : ∀ f, (c.apply effect).idles f = c.idles f := hidles
  cases taken with
  | true =>
    show (setBranch (branchTarget (c.apply effect).pc offset)) _ = _
    unfold setBranch
    dsimp only
    rw [hpc, hidles]
    rfl
  | false => cases likely <;> rfl

/-! ### Memory -/

theorem load_eq (w : Width) (address : UInt64) (b : Workbench) :
    load w address b =
      match b.cpu.resolve w .read address with
      | .error t => (.error (.trap t), b)
      | .ok l => (.ok (b.cpu.readAt w l).1, { b with cpu := (b.cpu.readAt w l).2 }) := by
  unfold load access Cpu.load
  dsimp only
  cases b.cpu.resolve w .read address <;> rfl

theorem store_eq (w : Width) (address v : UInt64) (b : Workbench) :
    store w address v b =
      match b.cpu.resolve w .write address with
      | .error t => (.error (.trap t), b)
      | .ok l => (.ok (), { b with cpu := b.cpu.writeAt w l v }) := by
  unfold store access Cpu.store
  dsimp only
  cases b.cpu.resolve w .write address <;> rfl

theorem translate_eq (w : Width) (kind : Access) (address : UInt64) (b : Workbench) :
    translate w kind address b =
      match b.cpu.resolve w kind address with
      | .error t => (.error (.trap t), b)
      | .ok l => (.ok l.physical, b) := by
  unfold translate access Cpu.translate
  dsimp only
  cases b.cpu.resolve w kind address <;> rfl

/-- A load whose number is delivered. -/
theorem load_deliver {w : Width} {address : UInt64} (into : Destination) {f : UInt64 → Handler Unit}
    (hf : ∀ v b, f v b = (.ok (), { b with cpu := b.cpu.deliver w v into })) (b : Workbench) :
    (load w address >>= f) b = b.finish (b.cpu.planLoad w address into) := by
  rw [bind_run, load_eq]
  unfold Cpu.planLoad Cpu.locate
  cases b.cpu.resolve w .read address with
  | error t => rfl
  | ok l => exact hf _ _

theorem handleLinked_eq (w : Width) (rt : Reg) (address : UInt64) (b : Workbench) :
    handleLinked w rt address b = b.finish (b.cpu.planLinked w rt address) := by
  unfold handleLinked
  rw [bind_run, translate_eq]
  unfold Cpu.planLinked Cpu.locate
  cases h : b.cpu.resolve w .read address with
  | error t => rfl
  | ok l =>
    dsimp only
    rw [bind_run, load_eq, h]
    rfl

theorem handleLoad_eq (op : LoadOp) (rt base : Reg) (offset : UInt64) (b : Workbench) :
    handleLoad op rt base offset b = b.finish (b.cpu.planLoadOp op rt (b.cpu.regs.get base + offset)) := by
  cases op with
  | ll => exact handleLinked_eq .word rt (b.cpu.regs.get base + offset) b
  | lld => exact handleLinked_eq .double rt (b.cpu.regs.get base + offset) b
  | lb => exact load_deliver (.signed rt) (fun _ _ => rfl) b
  | lh => exact load_deliver (.signed rt) (fun _ _ => rfl) b
  | lw => exact load_deliver (.signed rt) (fun _ _ => rfl) b
  | lbu => exact load_deliver (.unsigned rt) (fun _ _ => rfl) b
  | lhu => exact load_deliver (.unsigned rt) (fun _ _ => rfl) b
  | lwu => exact load_deliver (.unsigned rt) (fun _ _ => rfl) b
  | ld => exact load_deliver (.unsigned rt) (fun _ _ => rfl) b
  | lwc1 => exact load_deliver (.float .single rt) (fun _ _ => rfl) b
  | ldc1 => exact load_deliver (.float .double rt) (fun _ _ => rfl) b
  | lwl => exact load_deliver (.merged .wordLeft rt (b.cpu.regs.get base + offset)) (fun _ _ => rfl) b
  | lwr => exact load_deliver (.merged .wordRight rt (b.cpu.regs.get base + offset)) (fun _ _ => rfl) b
  | ldl => exact load_deliver (.merged .doubleLeft rt (b.cpu.regs.get base + offset)) (fun _ _ => rfl) b
  | ldr => exact load_deliver (.merged .doubleRight rt (b.cpu.regs.get base + offset)) (fun _ _ => rfl) b

theorem store_plan (w : Width) (address v : UInt64) (b : Workbench) :
    store w address v b = b.finish (b.cpu.planStore w address v) := by
  rw [store_eq]
  unfold Cpu.planStore Cpu.locate
  cases b.cpu.resolve w .write address <;> rfl

theorem storeMasked_plan (w : Width) (s : Lane.MaskedStore) (b : Workbench) :
    storeMasked w s b = b.finish (b.cpu.planMaskedStore w s) := by
  unfold storeMasked access Cpu.storeMasked Cpu.planMaskedStore Cpu.locate
  dsimp only
  cases b.cpu.resolve w .write s.address <;> rfl

theorem handleConditional_eq (w : Width) (rt : Reg) (address : UInt64) (b : Workbench) :
    handleConditional w rt address b = b.finish (b.cpu.planConditionalStore w rt address) := by
  unfold handleConditional Cpu.planConditionalStore Cpu.locate
  rw [look_bind]
  cases b.cpu.llBit with
  | true =>
    unfold readRegister
    rw [if_pos rfl, look_bind, bind_run, store_eq]
    cases b.cpu.resolve w .write address <;> rfl
  | false =>
    rw [if_neg Bool.false_ne_true, bind_run, translate_eq]
    cases b.cpu.resolve w .write address <;> rfl

theorem handleStore_eq (op : StoreOp) (rt base : Reg) (offset : UInt64) (b : Workbench) :
    handleStore op rt base offset b =
      b.finish (b.cpu.planStoreOp op rt (b.cpu.regs.get base + offset)) := by
  cases op with
  | sb => exact store_plan .byte (b.cpu.regs.get base + offset) (b.cpu.regs.get rt) b
  | sh => exact store_plan .half (b.cpu.regs.get base + offset) (b.cpu.regs.get rt) b
  | sw => exact store_plan .word (b.cpu.regs.get base + offset) (b.cpu.regs.get rt) b
  | sd => exact store_plan .double (b.cpu.regs.get base + offset) (b.cpu.regs.get rt) b
  | swl =>
    exact storeMasked_plan .word (Lane.storeWordLeft (b.cpu.regs.get rt) (b.cpu.regs.get base + offset)) b
  | swr =>
    exact storeMasked_plan .word (Lane.storeWordRight (b.cpu.regs.get rt) (b.cpu.regs.get base + offset)) b
  | sdl =>
    exact storeMasked_plan .double (Lane.storeDoubleLeft (b.cpu.regs.get rt) (b.cpu.regs.get base + offset)) b
  | sdr =>
    exact storeMasked_plan .double (Lane.storeDoubleRight (b.cpu.regs.get rt) (b.cpu.regs.get base + offset)) b
  | sc => exact handleConditional_eq .word rt (b.cpu.regs.get base + offset) b
  | scd => exact handleConditional_eq .double rt (b.cpu.regs.get base + offset) b
  | swc1 => exact store_plan .word (b.cpu.regs.get base + offset) (b.cpu.fpr.single rt).toUInt64 b
  | sdc1 => exact store_plan .double (b.cpu.regs.get base + offset) (b.cpu.fpr.double rt) b

/-! ### Coprocessors -/

theorem handleSystem_eq (op : SystemOp) (b : Workbench) :
    handleSystem op b = b.finish (.ok (b.cpu.planSystem op)) := by
  cases op <;> rfl

/-- An operation whose exceptions are recorded before its result is written. -/
theorem commit_eq (p : Precision) (fd : Reg) (o : Outcome) (b : Workbench) :
    commit p fd o b = b.finish (b.cpu.planOutcome p fd o) := by
  unfold commit
  rw [bind_run]
  unfold record Cpu.planOutcome Cpu.recorded
  rcases b.cpu.fcr31.record o.raised with ⟨quiet, fcr31⟩
  cases quiet with
  | true => cases p <;> rfl
  | false => rfl

theorem handleFloatControl_eq (rt fs : Reg) (b : Workbench) :
    handleFloatControl rt fs b = b.finish (Cpu.planFloatControl fs (b.cpu.regs.get rt)) := by
  unfold handleFloatControl Cpu.planFloatControl
  by_cases hfs : fs = 31
  · rw [if_pos hfs, if_pos hfs]
    let fcr31 := Fcr31.ofRaw (b.cpu.regs.get rt).toUInt32.toBitVec
    show (if fcr31.causeTraps = true then raise .floatingPoint else pure () : Handler Unit)
      { b with cpu := { b.cpu with fcr31 := fcr31 } } = b.finish (if fcr31.causeTraps = true then _ else _)
    cases fcr31.causeTraps <;> rfl
  · rw [if_neg hfs, if_neg hfs]
    rfl

theorem handleFloat_eq (op : FloatOp) (b : Workbench) :
    handleFloat op b = b.finish (b.cpu.planFloat op) := by
  cases op with
  | ctc1 rt fs => exact handleFloatControl_eq rt fs b
  | binary op p fd fs ft => exact commit_eq p fd _ b
  | sqrt p fd fs => exact commit_eq p fd _ b
  | abs p fd fs => exact commit_eq p fd _ b
  | neg p fd fs => exact commit_eq p fd _ b
  | toInteger p target fixed fd fs => exact commit_eq _ fd _ b
  | narrow fd fs => exact commit_eq _ fd _ b
  | widen fd fs => exact commit_eq _ fd _ b
  | fromInteger source p fd fs => exact commit_eq p fd _ b
  | mov p fd fs => cases p <;> rfl
  | compare p condition fs ft =>
    let r := compareOperands p condition (b.cpu.floatOperand p fs) (b.cpu.floatOperand p ft)
    show (record r.2 >>= fun _ => change fun c => { c with fcr31 := c.fcr31.setCondition r.1 }) b =
      b.finish (b.cpu.recorded r.2 fun fcr31 => .fcr31 (fcr31.setCondition r.1))
    rw [bind_run]
    unfold record Cpu.recorded
    rcases b.cpu.fcr31.record r.2 with ⟨quiet, fcr31⟩
    cases quiet <;> rfl
  | unknown =>
    show record .unimplemented b = b.finish (b.cpu.recorded .unimplemented .fcr31)
    unfold record Cpu.recorded
    rcases b.cpu.fcr31.record .unimplemented with ⟨quiet, fcr31⟩
    cases quiet <;> rfl
  | _ => rfl

theorem handleLatch_eq (op : LatchOp) (b : Workbench) :
    handleLatch op b = b.finish (b.cpu.planLatch op) := by
  unfold handleLatch Cpu.planLatch
  rw [look_bind]
  cases b.cpu.cp0.hasStatus Control.statusCU2 with
  | true => cases op <;> rfl
  | false => rfl

/-! ### All instructions -/

/-- **A handler is its plan**, carried out. -/
theorem handle_eq (i : Instruction) (b : Workbench) : handle i b = b.finish (b.cpu.plan i) := by
  cases i with
  | immediate op rt rs value => exact handleImmediate_eq op rt rs value b
  | register op rd rs rt => exact handleRegister_eq op rd rs rt b
  | readHiLo half rd => cases half <;> rfl
  | writeHiLo half rs => cases half <;> rfl
  | trapIf test rs operand =>
    show (if test.holds (b.cpu.regs.get rs) (b.cpu.trapOperand operand) = true then raise .trapInstruction
      else pure () : Handler Unit) b =
        b.finish (if test.holds (b.cpu.regs.get rs) (b.cpu.trapOperand operand) = true then _ else _)
    cases test.holds (b.cpu.regs.get rs) (b.cpu.trapOperand operand) <;> rfl
  | jump linked offset => cases linked <;> rfl
  | jumpRegister rs linked => cases linked <;> rfl
  | branch test likely linked offset =>
    cases linked with
    | false => exact branch_eq b.cpu (b.cpu.testHolds test) likely offset .none b rfl rfl fun _ => rfl
    | true =>
      refine branch_eq b.cpu (b.cpu.testHolds test) likely offset
        (.register Instruction.linkRegister b.cpu.linkAddress)
        { b with cpu := b.cpu.setRegister Instruction.linkRegister b.cpu.linkAddress } rfl rfl ?_
      intro f
      cases f <;> rfl
  | load op rt base offset => exact handleLoad_eq op rt base offset b
  | store op rt base offset => exact handleStore_eq op rt base offset b
  | cache selector base offset =>
    show (if selector.val % 4 = 0 then _ else _ : Handler Unit) b =
      b.finish (if selector.val % 4 = 0 then _ else _)
    split <;> rfl
  | system op => exact handleSystem_eq op b
  | float op => exact handleFloat_eq op b
  | latch op => exact handleLatch_eq op b
  | _ => rfl

end Handler

theorem handler_eq (word : UInt32) (b : Workbench) :
    handler word b = b.finish (b.cpu.planGuarded (.decode word)) := by
  show (if ((Instruction.decode word).needsFloat && !b.cpu.floatUsable) = true then
    Handler.raise (.coprocessorUnusable 1) else Handler.handle (.decode word) : Handler Unit) b = _
  unfold Cpu.planGuarded
  split
  · rfl
  · exact Handler.handle_eq _ b

/-! ## The pending target -/

namespace Cpu

/-- The processor with another pending target. -/
def withSlot (c : Cpu) (slot : Option UInt64) : Cpu := { c with delaySlot := slot }

theorem withSlot_eq (c : Cpu) (slot : Option UInt64) :
    c.withSlot slot = c.adorn { c.margin with delaySlot := slot } := rfl

/-- No effect depends on the pending target or changes it. -/
theorem apply_withSlot (c : Cpu) (slot : Option UInt64) (e : Effect) :
    (c.withSlot slot).apply e = (c.apply e).withSlot slot := by
  have hnote : ({ c.margin with delaySlot := slot } : Margin).note e =
      { c.margin.note e with delaySlot := slot } := by
    cases e <;> rfl
  rw [withSlot_eq, withSlot_eq, apply_adorn, hnote, margin_apply]

/-- An exception drops the pending target. -/
theorem takeException_withSlot (c : Cpu) (slot : Option UInt64) (t : Trap) (inDelay : Bool) :
    (c.withSlot slot).takeException t inDelay = c.takeException t inDelay :=
  (takeException_adorn c { c.margin with delaySlot := slot } t inDelay).trans
    (takeException_adorn c c.margin t inDelay).symm

/-! ## Executing by handlers -/

/-- **Executing by handlers** is executing by plans. -/
theorem executeHandler_eq (c : Cpu) (word : UInt32) : c.executeHandler word = c.executeWord word := by
  have hwork : handler word c.workbench =
      c.workbench.finish (c.planGuarded (.decode word)) := by
    rw [handler_eq]
    exact congrArg _ (planGuarded_adorn c { c.margin with delaySlot := none } (.decode word))
  unfold executeHandler executeWord execute
  rw [hwork]
  cases c.planGuarded (.decode word) with
  | ok p =>
    -- the handler clears the pending target before it works, the plan is followed with it
    have hcpu : (c.workbench.complete p).cpu = (c.apply p.effect).withSlot none :=
      apply_withSlot c none p.effect
    have hidle : (c.workbench.complete p).idle = c.idles p.flow := by
      show (if (c.withSlot none).idles p.flow = true then true else false) = _
      rw [withSlot_eq, idles_adorn]
      cases c.idles p.flow <;> rfl
    have hfollow : ({ (c.workbench.complete p).cpu with
        pc := (c.workbench.complete p).next, delaySlot := (c.workbench.complete p).target } : Cpu) =
          (c.apply p.effect).follow c.successor p.flow := by
      rw [hcpu]
      unfold Workbench.complete
      cases p.flow <;> rfl
    show (Except.ok _, if (c.workbench.complete p).idle = true then (retire { (c.workbench.complete p).cpu with
        pc := (c.workbench.complete p).next, delaySlot := (c.workbench.complete p).target }).skipIdle
      else retire { (c.workbench.complete p).cpu with
        pc := (c.workbench.complete p).next, delaySlot := (c.workbench.complete p).target }) = _
    rw [hidle, hfollow]
  | error f =>
    cases f with
    | trap t =>
      show (Except.ok _, retire ((c.withSlot none).takeException t c.inDelaySlot)) = _
      rw [takeException_withSlot]
    | floatingPoint fcr31 =>
      let recorded : Cpu := { c with fcr31 := fcr31 }
      show (Except.ok _,
        retire ((recorded.withSlot none).takeException .floatingPoint c.inDelaySlot)) = _
      rw [takeException_withSlot]
    | fatal e => rfl

/-- An instruction in main memory is fetched without a trace. -/
theorem step_of_peek? {c : Cpu} {word : UInt32} (h : c.peek? c.pc = some word) :
    c.step = c.executeHandler word := by
  unfold step
  rw [fetch_of_peek? h, executeHandler_eq]

end Cpu

/-! ## No partial effects -/

/-- **A fault leaves no trace.** A handler that raises an exception has changed nothing, except that a
floating-point exception is recorded; one that stops the machine has changed nothing at all. A step whose
instruction lies in main memory is its handler's work, and if it stops the machine the processor is as it was,
in a delay slot or not. -/
theorem precise_faults (word : UInt32) :
    (∀ b b' t, handler word b = (.error (.trap t), b') →
      (t ≠ .floatingPoint → b' = b) ∧ ∃ fcr31, b' = { b with cpu := { b.cpu with fcr31 := fcr31 } }) ∧
    (∀ b b' e, handler word b = (.error (.fatal e), b') → b' = b) ∧
    ∀ c : Cpu, c.peek? c.pc = some word →
      c.step = c.executeHandler word ∧ ∀ e c', c.step = (.error e, c') → c' = c := by
  refine ⟨?_, ?_, ?_⟩
  -- a plan that raises an exception holds no effect to carry out
  · intro b b' t h
    rw [handler_eq] at h
    cases hplan : b.cpu.planGuarded (.decode word) with
    | ok p => rw [hplan] at h; cases h
    | error f =>
      rw [hplan] at h
      cases f with
      | trap t' =>
        obtain ⟨-, rfl⟩ := Prod.mk.inj h
        exact ⟨fun _ => rfl, b.cpu.fcr31, rfl⟩
      | floatingPoint fcr31 =>
        obtain ⟨ht, rfl⟩ := Prod.mk.inj h
        have ht : Trap.floatingPoint = t := HandlerFault.trap.inj (Except.error.inj ht)
        exact ⟨fun hne => absurd ht.symm hne, fcr31, rfl⟩
      | fatal e => cases h
  · intro b b' e h
    rw [handler_eq] at h
    cases hplan : b.cpu.planGuarded (.decode word) with
    | ok p => rw [hplan] at h; cases h
    | error f =>
      rw [hplan] at h
      cases f with
      | trap t => cases h
      | floatingPoint fcr31 => cases h
      | fatal e' => exact (Prod.mk.inj h).2.symm
  · intro c hpeek
    have hstep := Cpu.step_of_peek? hpeek
    refine ⟨hstep, ?_⟩
    intro e c' h
    rw [hstep, Cpu.executeHandler_eq] at h
    unfold Cpu.executeWord Cpu.execute at h
    cases hplan : c.planGuarded (.decode word) with
    | ok p => rw [hplan] at h; cases h
    | error f =>
      rw [hplan] at h
      cases f with
      | trap t => cases h
      | floatingPoint fcr31 => cases h
      | fatal e' => exact (Prod.mk.inj h).2.symm

/-- A load of the third coprocessor, which stops the machine where it is. -/
theorem precise_faults_unimplemented :
    let c := ((Machine.create
      { general := { startPc := 0xFFFFFFFF80000000 }, memory := { ramSize := 16 } } {} {}).loadProgram 0
        [0xC8000000]).cpu
    ∃ e, c.step = (.error e, c) := by
  intro c
  have hpeek : c.peek? c.pc = some 0xC8000000 := by decide +kernel
  have hstep : c.step.1 = .error (.unimplementedInstruction 0xFFFFFFFF80000000 0xC8000000) := by decide +kernel
  have hcpu := ((precise_faults 0xC8000000).2.2 c hpeek).2 _ _ (Prod.ext hstep rfl)
  exact ⟨_, Prod.ext hstep hcpu⟩

end Vr4300
