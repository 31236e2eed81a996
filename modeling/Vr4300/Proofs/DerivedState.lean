import Vr4300.Proofs.Accounting

/-!
# `Proofs.DerivedState` — what is derived from the control registers is never out of date

Three fields of the processor repeat what Status and Cause say: the view of the floating-point registers, whether
the floating-point unit is usable, and whether an interrupt is pending. Many places write the two registers:
moves to them, exceptions, returns from exceptions, the timer and its acknowledgement, the sampling of the line,
a reset. Each of them derives the fields anew before anything can look.

`Cpu.Fresh` says that they agree. No lemma about it supposes anything about the schedule, so it holds in the
middle of an instruction as well: behind its effect, and behind each event that its cycle sets off.

## Contents

* `gatedOpcodes`, `needsFloat_decode`: the instructions that look at `floatUsable`;
* `Cpu.Fresh`, with one lemma per operation; `Fresh.planGuarded`: what stands in the slot of a gated opcode;
* `Execution.Passes`: the states that an instruction passes through (`fresh_passes`);
* `Collaborator`, `Visit`, `derived_state_fresh`.
-/

namespace Vr4300

/-! ## Gated instructions -/

/-- The primary opcodes of the floating-point unit: its operations and branches, its loads and its stores. -/
def gatedOpcodes : List Nat := [0x11, 0x31, 0x35, 0x39, 0x3D]

namespace Instruction

@[simp] theorem needsFloat_decodeSpecial (w : UInt32) : (decodeSpecial w).needsFloat = false := by
  unfold decodeSpecial
  dsimp only
  split <;> rfl

@[simp] theorem needsFloat_decodeRegisterImmediate (w : UInt32) : (decodeRegisterImmediate w).needsFloat = false := by
  unfold decodeRegisterImmediate
  dsimp only
  split <;> rfl

@[simp] theorem needsFloat_decodeSystem (w : UInt32) : (decodeSystem w).needsFloat = false := by
  unfold decodeSystem
  split
  case h_5 =>
    split
    · rfl
    · split <;> rfl
  all_goals rfl

@[simp] theorem needsFloat_decodeLatch (w : UInt32) : (decodeLatch w).needsFloat = false := by
  unfold decodeLatch
  split <;> rfl

@[simp] theorem needsFloat_decodeFloat (w : UInt32) : (decodeFloat w).needsFloat = true := by
  unfold decodeFloat
  split <;> rfl

/-- **The gated instructions** are those with a gated opcode, whatever the rest of the word. -/
theorem needsFloat_decode (w : UInt32) :
    (decode w).needsFloat = gatedOpcodes.contains (Encoding.opcode w).toNat := by
  unfold decode
  dsimp only
  split
  -- the groups with a table of their own
  case h_1 h => simp [h, gatedOpcodes]
  case h_2 h => simp [h, gatedOpcodes]
  case h_17 h => simp [h, gatedOpcodes]
  case h_18 h => simp [h, gatedOpcodes]
  case h_19 h => simp [h, gatedOpcodes]
  -- an opcode without an instruction
  case h_58 =>
    simp only [needsFloat, gatedOpcodes]
    grind
  all_goals simp [needsFloat, gatedOpcodes, *]

end Instruction

/-! ## Fresh states -/

namespace ControlRegisters

open Control

/-- A write of another register than Status or Cause decides nothing about interrupts. -/
theorem interruptPending_write? {b b' : ControlRegisters} {r : Reg} {v : UInt64} (h : b.write? r v = some b')
    (hc : r ≠ cause) (hs : r ≠ status) : b'.interruptPending = b.interruptPending := by
  unfold write? at h
  split at h
  · obtain rfl := Option.some.inj h
    exact interruptPending_put b _ hc hs
  · cases h
  · obtain rfl := Option.some.inj h
    exact interruptPending_put b v hc hs

end ControlRegisters

namespace Cpu

open Control

/-- The view of the floating-point registers is the one that Status selects. -/
def FullWidth (c : Cpu) : Prop := c.fpr.fullWidth = c.cp0.hasStatus statusFR

/-- **What is derived from the control registers is what they say.** -/
structure Fresh (c : Cpu) : Prop where
  /-- The view of the floating-point registers. -/
  wide : c.FullWidth
  /-- The floating-point unit is usable. -/
  gated : c.Gated
  /-- An interrupt is pending. -/
  pending : c.interruptsPending = c.cp0.interruptPending

/-- Sampling the line derives the pending interrupt anew. -/
theorem fresh_updateInterrupts {c : Cpu} (hs : c.FullWidth) (hg : c.Gated) : c.updateInterrupts.Fresh where
  wide := hs.trans (ControlRegisters.hasStatus_sample c.cp0 c.line statusFR).symm
  gated := hg.updateInterrupts
  pending := rfl

/-- Whatever Status was changed to. -/
theorem fresh_statusChanged (c : Cpu) : c.statusChanged.Fresh :=
  fresh_updateInterrupts
    (c := { c with fpr := c.fpr.select (c.cp0.hasStatus statusFR), floatUsable := c.statusFloatUsable }) rfl rfl

theorem fresh_takeException (c : Cpu) (t : Trap) (inDelay : Bool) : (c.takeException t inDelay).Fresh :=
  fresh_statusChanged _

theorem fresh_leaveException (c : Cpu) : c.leaveException.Fresh := fresh_statusChanged _

namespace Fresh

variable {c c' : Cpu}

/-- Only the derived fields and the control registers decide. -/
theorem of_eq (h : c.Fresh) (hw : c'.fpr.fullWidth = c.fpr.fullWidth) (hf : c'.floatUsable = c.floatUsable)
    (hp : c'.interruptsPending = c.interruptsPending) (hc : c'.cp0 = c.cp0) : c'.Fresh where
  wide := by
    unfold FullWidth
    rw [hw, hc]
    exact h.wide
  gated := by
    unfold Gated statusFloatUsable
    rw [hf, hc]
    exact h.gated
  pending := by
    rw [hp, hc]
    exact h.pending

/-- Of the control registers, only Status and Cause decide. -/
theorem put_iff {r : Reg} (v : UInt64) (hr : r ≠ status ∧ r ≠ cause) :
    Fresh { c with cp0 := c.cp0.put r v } ↔ c.Fresh := by
  have hwidth := ControlRegisters.hasStatus_put c.cp0 v statusFR hr.1
  have husable := ControlRegisters.hasStatus_put c.cp0 v statusCU1 hr.1
  have hpending := ControlRegisters.interruptPending_put c.cp0 v hr.2 hr.1
  constructor
  · intro h
    exact ⟨h.wide.trans hwidth, h.gated.trans husable, h.pending.trans hpending⟩
  · intro h
    exact ⟨h.wide.trans hwidth.symm, h.gated.trans husable.symm, h.pending.trans hpending.symm⟩

theorem put (h : c.Fresh) {r : Reg} (v : UInt64) (hr : r ≠ status ∧ r ≠ cause) :
    Fresh { c with cp0 := c.cp0.put r v } := (put_iff v hr).mpr h

theorem updateInterrupts (h : c.Fresh) : c.updateInterrupts.Fresh := fresh_updateInterrupts h.wide h.gated

theorem schedule (h : c.Fresh) (kind : EventKind) (n : Int) (action : TimerAction) :
    (c.schedule kind n action).Fresh := by
  unfold Cpu.schedule
  split
  · exact h.of_eq rfl rfl rfl rfl
  · exact h

theorem scheduleCompare (h : c.Fresh) : c.scheduleCompare.Fresh :=
  schedule (c := { c with events := c.events.erase .compare }) (h.of_eq rfl rfl rfl rfl) .compare _ .compareMatch

/-- **A write of a control register** derives what depends on it. -/
theorem writeControl (h : c.Fresh) (r : Reg) (v : UInt64) : (c.writeControl r v).Fresh := by
  unfold Cpu.writeControl
  cases hw : c.cp0.write? r v with
  | none => exact h
  | some cp0 =>
    have hkept (hs : r ≠ status) (hc : r ≠ cause) : Fresh { c with cp0 := cp0 } :=
      ⟨h.wide.trans (ControlRegisters.hasStatus_write? hw hs statusFR).symm,
        h.gated.trans (ControlRegisters.hasStatus_write? hw hs statusCU1).symm,
        h.pending.trans (ControlRegisters.interruptPending_write? hw hc hs).symm⟩
    dsimp only
    split
    · rename_i hr
      exact (hkept (hr ▸ by decide) (hr ▸ by decide)).scheduleCompare
    split
    -- the acknowledgement of the timer clears a bit of Cause, and samples
    · rename_i hr
      have hwritten := hkept (hr ▸ by decide) (hr ▸ by decide)
      have hwide : FullWidth { c with cp0 := cp0.clearBits cause causeIP7 } :=
        hwritten.wide.trans (ControlRegisters.hasStatus_put cp0 _ statusFR (by decide)).symm
      have hframe (b : Cpu) (hb : b.FullWidth) : b.scheduleCompare.FullWidth := by
        unfold Cpu.scheduleCompare Cpu.schedule
        split <;> exact hb
      exact fresh_updateInterrupts (hframe _ hwide) (hwritten.gated.put _ (by decide)).scheduleCompare
    split
    · exact fresh_statusChanged _
    split
    -- a software interrupt is requested or withdrawn
    · rename_i hs hr
      exact fresh_updateInterrupts (c := { c with cp0 := cp0 })
        (h.wide.trans (ControlRegisters.hasStatus_write? hw hs statusFR).symm)
        (h.gated.trans (ControlRegisters.hasStatus_write? hw hs statusCU1).symm)
    · rename_i hs hc
      split
      · exact (hkept hs hc).of_eq rfl rfl rfl rfl
      · exact hkept hs hc

theorem setFloat (h : c.Fresh) (p : FloatingPoint.Precision) (r : Reg) (bits : UInt64) :
    (c.setFloat p r bits).Fresh := by
  cases p <;> exact h.of_eq rfl rfl rfl rfl

theorem readAt (h : c.Fresh) (w : Width) (l : Location) : (c.readAt w l).2.Fresh := by
  cases l with
  | ram offset => exact h
  | bus address => exact h.of_eq rfl rfl rfl rfl

theorem writeAt (h : c.Fresh) (w : Width) (l : Location) (v : UInt64) : (c.writeAt w l v).Fresh := by
  cases l <;> exact h.of_eq rfl rfl rfl rfl

theorem deliver (h : c.Fresh) (w : Width) (v : UInt64) (d : Destination) : (c.deliver w v d).Fresh := by
  cases d with
  | linked rt physical =>
    have hregs : Fresh { c.setRegister rt (w.signExtend v) with llBit := true } := h.of_eq rfl rfl rfl rfl
    exact hregs.put (physical >>> 4) (by decide)
  | float p ft => exact h.setFloat p ft v
  | _ => exact h.of_eq rfl rfl rfl rfl

theorem showEntry (h : c.Fresh) (e : TlbEntry) : (c.showEntry e).Fresh :=
  (((h.put _ (by decide)).put _ (by decide)).put _ (by decide)).put _ (by decide)

/-- **No effect** leaves a derived field behind. -/
theorem apply (h : c.Fresh) (e : Effect) : (c.apply e).Fresh := by
  cases e with
  | none => exact h
  | load w source into => exact (h.readAt w source).deliver w _ into
  | store w target v => exact h.writeAt w target v
  | storeMasked w target v mask => exact (h.readAt w target).writeAt w target _
  | storeLinked w target v rt => exact (h.writeAt w target v).of_eq rfl rfl rfl rfl
  | control rd v => exact h.writeControl rd v
  | entryRegisters e => exact h.showEntry e
  | index v => exact h.put v (by decide)
  | leaveException => exact fresh_leaveException c
  | float p fd bits fcr31 => exact (h.setFloat p fd bits).of_eq rfl rfl rfl rfl
  | _ => exact h.of_eq rfl rfl rfl rfl

theorem follow (h : c.Fresh) (base : UInt64) (f : Flow) : (c.follow base f).Fresh := by
  cases f <;> exact h.of_eq rfl rfl rfl rfl

theorem passCycles (h : c.Fresh) (n : UInt64) : (c.passCycles n).Fresh := by
  have hclock : Fresh { c with cycles := c.cycles + n } := h.of_eq rfl rfl rfl rfl
  exact hclock.put _ (by decide)

/-- The timer matches: a bit of Cause is set, and the line is sampled. -/
theorem compareMatched (h : c.Fresh) : c.compareMatched.Fresh := by
  have hwide : FullWidth { c with cp0 := c.cp0.setBits cause causeIP7 } :=
    h.wide.trans (ControlRegisters.hasStatus_put c.cp0 _ statusFR (by decide)).symm
  have hframe (b : Cpu) (hb : b.FullWidth) : (b.schedule .compare comparePeriod .compareMatch).FullWidth := by
    unfold Cpu.schedule
    split <;> exact hb
  exact fresh_updateInterrupts (hframe _ hwide) ((h.gated.put _ (by decide)).schedule _ _ _)

/-- **An event** leaves the derived fields up to date, whatever remains behind it. -/
theorem perform (h : c.Fresh) (action : TimerAction) (rest : Schedule TimerAction) :
    (Scheduled.perform action { c with events := rest } : Cpu).Fresh := by
  have hrest : Fresh { c with events := rest } := h.of_eq rfl rfl rfl rfl
  cases action with
  | compareMatch => exact hrest.compareMatched
  | budgetSpent => exact hrest.of_eq rfl rfl rfl rfl

theorem fireDue (limit : Nat) : ∀ {c : Cpu}, c.Fresh → (Vr4300.fireDue limit c).Fresh := by
  induction limit with
  | zero => intro c h; exact h
  | succ limit ih =>
    intro c h
    unfold Vr4300.fireDue
    split
    · exact h
    · rename_i action rest _
      exact ih (h.perform action rest)

theorem advance (h : c.Fresh) (n : UInt64) : (c.advance n).Fresh :=
  fireDue _ ((h.passCycles n).of_eq rfl rfl rfl rfl)

theorem retire (h : c.Fresh) : c.retire.Fresh :=
  advance (c := { c with opsExecuted := c.opsExecuted + 1 }) (h.of_eq rfl rfl rfl rfl) 1

theorem skipIdle (h : c.Fresh) : c.skipIdle.Fresh := by
  rw [skipIdle_eq]
  split
  · exact (h.passCycles (UInt64.ofNat c.idleCycles)).of_eq rfl rfl rfl rfl
  · exact h

end Fresh

/-- A reset derives everything from the Status that it leaves. -/
theorem fresh_reset (c : Cpu) : c.reset.Fresh := (fresh_statusChanged _).scheduleCompare.updateInterrupts

/-- **The slots of the gated opcodes** raise an exception exactly while Status does not make the floating-point
unit usable. -/
theorem Fresh.planGuarded {c : Cpu} (h : c.Fresh) (word : UInt32) :
    c.planGuarded (.decode word) =
      if (Encoding.opcode word).toNat ∈ gatedOpcodes ∧ c.cp0.hasStatus statusCU1 = false then
        raise (.coprocessorUnusable 1)
      else c.plan (.decode word) := by
  unfold Cpu.planGuarded
  rw [Instruction.needsFloat_decode, show c.floatUsable = c.cp0.hasStatus statusCU1 from h.gated]
  simp only [List.contains_iff_mem, Bool.and_eq_true, Bool.not_eq_true']

/-- An account of deferred instructions that is open says nothing about the derived fields. -/
theorem fresh_of_settle {c : Cpu} {d : Deferred} (h : (d.settle c).Fresh) : c.Fresh := by
  unfold Deferred.settle at h
  split at h
  · exact h
  · have hput : Fresh { c with cp0 := c.cp0.put count ((c.cp0.get count + UInt64.ofNat d.count) &&& countMask) } :=
      h.of_eq rfl rfl rfl rfl
    exact (Fresh.put_iff _ (by decide)).mp hput

end Cpu

/-! ## Instructions and what lies between them -/

theorem Quiet.fresh {a b : Cpu} (h : Quiet a b) (ha : a.Fresh) : b.Fresh := by
  cases h with
  | sample => exact ha.updateInterrupts
  | interrupt => exact Cpu.fresh_takeException _ _ _
  | outside => exact ha.of_eq rfl rfl rfl rfl

namespace Execution

/-- **The states that an instruction passes through.** -/
inductive Passes (e : Execution) : Cpu → Prop where
  /-- It is not fetched yet; the interrupt before it has been delivered. -/
  | unfetched {c : Cpu} (h : e.before = { c with bus := e.before.bus, statistics := e.before.statistics }) :
      Passes e c
  /-- It has not begun. -/
  | before : Passes e e.before
  /-- Its effect is carried out: a control register is written, or a handler of exceptions left. -/
  | applied {p : Plan} (h : e.planned = .ok p) : Passes e (e.before.apply p.effect)
  /-- It has worked, or its exception is entered. -/
  | worked {b : Cpu} (h : e.worked = some b) : Passes e b
  /-- It is counted, and its cycle passes. -/
  | counted {b : Cpu} (h : e.worked = some b) :
      Passes e { b.passCycles 1 with opsExecuted := b.opsExecuted + 1, events := b.events.advance 1 }
  /-- An event that its cycle sets off is handled. -/
  | handled {s : Cpu} (h : Passes e s) {action : TimerAction} {rest : Schedule TimerAction}
      (hdue : s.events.popDue? = some (action, rest)) :
      Passes e (Scheduled.perform action { s with events := rest } : Cpu)
  /-- It is over. -/
  | after : Passes e e.after
  /-- Any of these, as it is in a fragment that has not accounted for the instructions before it. -/
  | deferred {c : Cpu} {d : Deferred} (h : Passes e (d.settle c)) : Passes e c

variable {e : Execution}

theorem fresh_worked {b : Cpu} (h : e.worked = some b) (he : e.before.Fresh) : b.Fresh := by
  rcases worked_cases h with ⟨p, -, rfl⟩ | ⟨-, fcr31, t, rfl⟩
  · exact (he.apply p.effect).follow _ p.flow
  · exact Cpu.fresh_takeException _ _ _

theorem fresh_after (he : e.before.Fresh) : e.after.Fresh := by
  rw [e.after_eq]
  cases hw : e.worked with
  | none => exact he
  | some b =>
    have hb := (fresh_worked hw he).retire
    dsimp only
    split
    · exact hb.skipIdle
    · exact hb

/-- **An instruction** passes through fresh states only. -/
theorem fresh_passes {c : Cpu} (h : e.Passes c) (he : e.before.Fresh) : c.Fresh := by
  induction h with
  | unfetched h =>
    rw [h] at he
    exact he.of_eq rfl rfl rfl rfl
  | before => exact he
  | applied _ => exact he.apply _
  | worked h => exact fresh_worked h he
  | counted h => exact ((fresh_worked h he).passCycles 1).of_eq rfl rfl rfl rfl
  | handled _ _ ih => exact ih.perform _ _
  | after => exact fresh_after he
  | deferred _ ih => exact Cpu.fresh_of_settle ih

end Execution

/-- **A chain** of instructions leads from fresh states to fresh states, by way of fresh states. -/
theorem Chain.fresh {a b : Cpu} {es : List Execution} (h : Chain a es b) (ha : a.Fresh) :
    b.Fresh ∧ ∀ e ∈ es, e.before.Fresh :=
  ⟨h.preserves (fun _ _ hq => hq.fresh) (fun _ _ => Execution.fresh_after) ha,
    h.before (fun _ _ hq => hq.fresh) (fun _ => Execution.fresh_after) ha⟩

/-! ## Visits -/

/-- What a host attaches to a machine, or changes there. -/
inductive Collaborator where
  /-- The devices. -/
  | devices (bus : Bus)
  /-- The vector unit. -/
  | vectorUnit (vector : VectorUnit)
  /-- Another observer of resets. -/
  | observer
  /-- The level of the interrupt line, which is sampled later. -/
  | lineLevel (level : Bool)

/-- A collaborator is attached. That leaves the processor alone, apart from what it is attached to. -/
def Edit.install (x : Collaborator) : Edit where
  perform m :=
    match x with
    | .devices bus => m.onCpu fun c => { c with bus := bus }
    | .vectorUnit vector => m.withTandem ⟨m.cpu, vector⟩
    | .observer => m.observeResets
    | .lineLevel level => m.setLine level
  events _ := by cases x <;> rfl
  timing _ := by cases x <;> rfl
  gated _ h := by cases x <;> exact h

/-- What a host does to a machine whose control registers it watches. -/
inductive Visit where
  /-- It asks for something. -/
  | request (r : HostRequest)
  /-- It attaches something. -/
  | install (x : Collaborator)

/-- A visit as an action. -/
def Visit.action : Visit → HostAction
  | request r => r.action
  | install x => .edit (.install x)

namespace Machine

/-- The machine behind visits in order. -/
def receive (m : Machine) (visits : List Visit) : Machine := m.performAll (visits.map Visit.action)

/-- **The states of the processor** that there are: between visits, and while an instruction is executed. -/
inductive Encounters (m : Machine) (visits : List Visit) : Cpu → Prop where
  /-- The next visit is awaited. -/
  | between {earlier later : List Visit} (h : visits = earlier ++ later) :
      Encounters m visits (m.receive earlier).cpu
  /-- An instruction passes through it. -/
  | within {e : Execution} (h : .executed e ∈ m.journal (visits.map Visit.action)) {c : Cpu} (hc : e.Passes c) :
      Encounters m visits c

/-- How a run ends has nothing to do with the control registers. -/
theorem Ends.fresh {c c' : Cpu} {r : Option (Except FatalError Exit)} (h : Ends c r c') (hc : c.Fresh) :
    c'.Fresh := by
  cases h with
  | stop _ => exact hc.of_eq rfl rfl rfl rfl
  | _ => exact hc

/-- **A run** ends in a fresh state, and executes its instructions in fresh states. -/
theorem fresh_run {m : Machine} {past : List TimerEvent} (hrest : m.AtRest past) (h : m.cpu.Fresh)
    (budget : UInt64) : (m.run budget).2.cpu.Fresh ∧ ∀ e ∈ m.executions budget, e.before.Fresh := by
  by_cases h0 : budget = 0
  · rw [h0, run_zero, executions_zero]
    exact ⟨h, by simp⟩
  · obtain ⟨c, c', hchain, hends, hcpu⟩ := run_chain h0 hrest.ticking.timed hrest.free
    obtain ⟨hc, hway⟩ := hchain.fresh (h.schedule .runForCycles _ .budgetSpent)
    refine ⟨?_, hway⟩
    rw [hcpu]
    exact (hends.fresh hc).of_eq rfl rfl rfl rfl

/-- **A single step**, likewise. -/
theorem fresh_step {m : Machine} (h : m.cpu.Fresh) :
    m.step.2.cpu.Fresh ∧ m.takeInterrupt.cpu.nextExecution.before.Fresh := by
  have htaken : m.takeInterrupt.cpu.Fresh := (m.cpu.chain_takePending.fresh h).1
  have hbefore := (Cpu.quiet_nextExecution m.takeInterrupt.cpu).fresh htaken
  exact ⟨(m.chain_step.fresh (Execution.fresh_after hbefore)).1, hbefore⟩

/-- **A visit** leaves a fresh state, and executes its instructions in fresh states. -/
theorem fresh_visit {m : Machine} {past : List TimerEvent} (hrest : m.AtRest past) (h : m.cpu.Fresh)
    (visit : Visit) :
    (visit.action.perform m).cpu.Fresh ∧ ∀ e, .executed e ∈ visit.action.happenings m → e.before.Fresh := by
  have hidle {js : List Happening} (hjs : js = []) : ∀ e, .executed e ∈ js → e.before.Fresh := by simp [hjs]
  cases visit with
  | install x =>
    refine ⟨?_, hidle rfl⟩
    cases x <;> exact h.of_eq rfl rfl rfl rfl
  | request r =>
    cases r with
    | run budget =>
      obtain ⟨hend, hway⟩ := fresh_run hrest h budget
      refine ⟨hend, ?_⟩
      intro e he
      obtain ⟨f, hf, heq⟩ := List.mem_map.mp he
      exact Happening.executed.inj heq ▸ hway f hf
    | step =>
      obtain ⟨hend, hbefore⟩ := fresh_step h
      refine ⟨hend, ?_⟩
      intro e he
      exact Happening.executed.inj (List.mem_singleton.mp he) ▸ hbefore
    | reset => exact ⟨Cpu.fresh_reset m.cpu, by simp [Visit.action, HostRequest.action, HostAction.happenings]⟩
    | requestHalt => exact ⟨h.of_eq rfl rfl rfl rfl, hidle rfl⟩
    | writeControl r v =>
      exact ⟨h.writeControl r v, by simp [Visit.action, HostRequest.action, HostAction.happenings]⟩
    | loadProgram physical program => exact ⟨h.of_eq rfl rfl rfl rfl, hidle rfl⟩
    | setRecompiler enabled => exact ⟨h, hidle rfl⟩
    | setBreakpoints breakpoints => exact ⟨h, hidle rfl⟩
    | attachLine level =>
      have hline : Cpu.Fresh { m.cpu with line := level } := h.of_eq rfl rfl rfl rfl
      exact ⟨hline.updateInterrupts, hidle rfl⟩

/-- **Visits in order**, likewise. -/
theorem fresh_receive (visits : List Visit) :
    ∀ {m : Machine} {past : List TimerEvent}, m.AtRest past → m.cpu.Fresh →
      (m.receive visits).cpu.Fresh ∧
        ∀ e, .executed e ∈ m.journal (visits.map Visit.action) → e.before.Fresh := by
  induction visits with
  | nil =>
    intro m past _ h
    exact ⟨h, by simp [journal]⟩
  | cons visit rest ih =>
    intro m past hrest h
    obtain ⟨hnext, hway⟩ := fresh_visit hrest h visit
    obtain ⟨hend, hlater⟩ := ih (atRest_perform hrest visit.action).1 hnext
    refine ⟨hend, ?_⟩
    intro e he
    rcases List.mem_append.mp he with he | he
    · exact hway e he
    · exact hlater e he

end Machine

/-- **What is derived from the control registers is never out of date.** In every state of the processor, from
the creation of the machine on and in the middle of instructions, the floating-point registers have the view that
Status selects, the floating-point unit is usable when Status says so and the gated opcodes raise their exception
otherwise, and an interrupt is pending when Status and Cause say so. -/
theorem derived_state_fresh (config : Configuration) (bus : Bus) (vector : VectorUnit) (visits : List Visit)
    {c : Cpu} (h : (Machine.create config bus vector).Encounters visits c) :
    c.fpr.fullWidth = c.cp0.hasStatus Control.statusFR ∧
      c.floatUsable = c.cp0.hasStatus Control.statusCU1 ∧
      (∀ word, c.planGuarded (.decode word) =
        if (Encoding.opcode word).toNat ∈ gatedOpcodes ∧ c.cp0.hasStatus Control.statusCU1 = false then
          Cpu.raise (.coprocessorUnusable 1)
        else c.plan (.decode word)) ∧
      c.interruptsPending = c.cp0.interruptPending := by
  have hrest := Machine.atRest_create config bus vector
  have hstart : (Machine.create config bus vector).cpu.Fresh := (Cpu.fresh_reset _).of_eq rfl rfl rfl rfl
  have hfresh : c.Fresh := by
    cases h with
    | between _ => exact (Machine.fresh_receive _ hrest hstart).1
    | within he hc => exact Execution.fresh_passes hc ((Machine.fresh_receive visits hrest hstart).2 _ he)
  exact ⟨hfresh.wide, hfresh.gated, hfresh.planGuarded, hfresh.pending⟩

/-- A program withdraws the floating-point unit, and its next instruction is refused. -/
theorem derived_state_fresh_withdrawn :
    let start := Machine.create { general := { startPc := 0xFFFFFFFF80000000 }, memory := { ramSize := 32 } } {} {}
    let visits : List Visit :=
      [.request (.loadProgram 0 [0x3C011000, 0x40816000, 0x44020000]), .request (.run 3)]
    let c := (start.receive visits).cpu
    start.cpu.floatUsable = true ∧ start.Encounters visits c ∧ c.cp0.hasStatus Control.statusCU1 = false ∧
      c.statistics.exceptions = 1 ∧ c.fpr.fullWidth = false ∧
      c.planGuarded (.decode 0x44020000) = Cpu.raise (.coprocessorUnusable 1) := by
  intro start visits c
  have hc : start.Encounters visits c := .between (List.append_nil visits).symm
  have hstatus : c.cp0.hasStatus Control.statusCU1 = false := by decide +kernel
  obtain ⟨hwidth, -, hslots, -⟩ := derived_state_fresh _ _ _ visits hc
  refine ⟨by decide +kernel, hc, hstatus, by decide +kernel, hwidth.trans (by decide +kernel), ?_⟩
  exact (hslots 0x44020000).trans (if_pos ⟨by decide, hstatus⟩)

end Vr4300
