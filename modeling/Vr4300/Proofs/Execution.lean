import Vr4300.Proofs.Frame

/-!
# `Proofs.Execution` — instructions as they were executed, in order

Interpreted or from a fragment, an instruction is executed by `Cpu.execute`, from a state in which every
instruction before it is accounted for. An `Execution` is that state together with the word and its plan.
Between two executions the processor changes in few ways, `Quiet`, and a `Chain` is executions in order
with quiet steps between them.

What an instruction boundary satisfies is proved by induction on chains, and nothing about fragments,
caches or the loop of a run enters such a proof.

## Contents

* `Execution`, `Cpu.nextExecution`: a step is an execution (`step_eq`);
* `Execution.worked`, `Execution.after_eq`: an execution works, is retired and may wait;
* `Quiet`, `Chain`, `Chain.append`, `Chain.split`, `Chain.preserves`, `Chain.same`, `Chain.before`.
-/

namespace Vr4300

/-- An instruction as it was executed. -/
structure Execution where
  /-- The state before it, in which all instructions before it are accounted for. -/
  before : Cpu
  /-- The instruction word, or zero if it could not be fetched. -/
  word : UInt32
  /-- What it does there. -/
  planned : Except Fault Plan

namespace Execution

/-- What the execution answers, and the state that it leaves. -/
def outcome (e : Execution) : Except FatalError Retired × Cpu := e.before.execute e.word e.planned

/-- The state after it. -/
def after (e : Execution) : Cpu := e.outcome.2

end Execution

namespace Cpu

/-- The instruction at `pc`. One that cannot be fetched is an exception in its place. -/
def nextExecution (c : Cpu) : Execution :=
  match c.fetch c.pc with
  | (.ok word, c) => ⟨c, word, c.planGuarded (.decode word)⟩
  | (.error t, c) => ⟨c, 0, .error (.trap t)⟩

theorem step_eq (c : Cpu) : c.step = c.nextExecution.outcome := by
  unfold step nextExecution
  rcases c.fetch c.pc with ⟨r, b⟩
  cases r <;> rfl

theorem nextExecution_before (c : Cpu) : c.nextExecution.before = (c.fetch c.pc).2 := by
  unfold nextExecution
  rcases c.fetch c.pc with ⟨r, b⟩
  cases r <;> rfl

/-- Before an instruction at most a device is read. -/
theorem exists_nextExecution_before (c : Cpu) : ∃ bus, c.nextExecution.before = { c with bus := bus } := by
  rw [nextExecution_before]
  exact c.fetch_snd c.pc

/-- An instruction in main memory is fetched without a trace. -/
theorem nextExecution_of_peek? {c : Cpu} {word : UInt32} (h : c.peek? c.pc = some word) :
    c.nextExecution = ⟨c, word, c.planGuarded (.decode word)⟩ := by
  unfold nextExecution
  rw [fetch_of_peek? h]

end Cpu

/-! ## The anatomy of an execution -/

namespace Execution

/-- The state before the instruction is counted and its cycle passes; none if it stops the machine. -/
def worked (e : Execution) : Option Cpu :=
  match e.planned with
  | .ok p => some ((e.before.apply p.effect).follow e.before.successor p.flow)
  | .error (.trap t) => some (e.before.takeException t e.before.inDelaySlot)
  | .error (.floatingPoint fcr31) =>
    some (({ e.before with fcr31 := fcr31 } : Cpu).takeException .floatingPoint e.before.inDelaySlot)
  | .error (.fatal _) => none

/-- The instruction waits for an event. -/
def idle (e : Execution) : Bool :=
  match e.planned with
  | .ok p => e.before.idles p.flow
  | .error _ => false

/-- The cycles that the instruction forwards time by. -/
def idleCycles (e : Execution) : Nat :=
  match e.worked with
  | some b => if e.idle then b.retire.idleCycles else 0
  | none => 0

/-- **An execution** works, is retired, and forwards time if it waits; or it stops the machine. -/
theorem after_eq (e : Execution) :
    e.after =
      match e.worked with
      | some b => if e.idle then b.retire.skipIdle else b.retire
      | none => e.before := by
  obtain ⟨before, word, planned⟩ := e
  cases planned with
  | ok p => rfl
  | error f => cases f <;> rfl

/-- **An instruction works** by carrying out its plan, or by taking an exception. -/
theorem worked_cases {e : Execution} {b : Cpu} (h : e.worked = some b) :
    (∃ p, e.planned = .ok p ∧ b = (e.before.apply p.effect).follow e.before.successor p.flow) ∨
      (∃ f, e.planned = .error f) ∧ ∃ (fcr31 : FloatingPoint.Fcr31) (t : Trap),
        b = ({ e.before with fcr31 := fcr31 } : Cpu).takeException t e.before.inDelaySlot := by
  obtain ⟨before, word, planned⟩ := e
  cases planned with
  | ok p => exact .inl ⟨p, rfl, (Option.some.inj h).symm⟩
  | error f =>
    refine .inr ⟨⟨f, rfl⟩, ?_⟩
    cases f with
    | trap t => exact ⟨before.fcr31, t, (Option.some.inj h).symm⟩
    | floatingPoint fcr31 => exact ⟨fcr31, .floatingPoint, (Option.some.inj h).symm⟩
    | fatal x => cases h

/-- What a plan works. -/
theorem worked_of_plan {e : Execution} {p : Plan} (h : e.planned = .ok p) :
    e.worked = some ((e.before.apply p.effect).follow e.before.successor p.flow) := by
  unfold worked
  rw [h]

theorem surround_worked {e : Execution} {b : Cpu} (h : e.worked = some b) :
    b.surround = e.before.surround := by
  rcases worked_cases h with ⟨p, -, rfl⟩ | ⟨-, fcr31, t, rfl⟩
  · exact (Cpu.surround_follow _ _ _).trans (Cpu.surround_apply _ _)
  · exact Cpu.surround_takeException _ _ _

/-- An instruction that is answered works. -/
theorem exists_worked {e : Execution} {retired : Retired} {cpu : Cpu} (h : e.outcome = (.ok retired, cpu)) :
    ∃ b, e.worked = some b := by
  obtain ⟨before, word, planned⟩ := e
  cases planned with
  | ok p => exact ⟨_, rfl⟩
  | error f =>
    cases f with
    | trap t => exact ⟨_, rfl⟩
    | floatingPoint fcr31 => exact ⟨_, rfl⟩
    | fatal x => cases h

theorem timed_worked {e : Execution} {b : Cpu} (h : e.worked = some b) (he : e.before.Timed) :
    b.Timed := by
  rcases worked_cases h with ⟨p, -, rfl⟩ | ⟨-, fcr31, t, rfl⟩
  · exact (he.apply p.effect).of_events (Cpu.events_follow _ _ _)
  · exact he.of_events (Cpu.events_takeException { e.before with fcr31 := fcr31 } _ _)

/-- An execution that stops the machine leaves the state as it was. -/
theorem eq_before_of_error {e : Execution} {x : FatalError} {cpu : Cpu}
    (h : e.outcome = (.error x, cpu)) : cpu = e.before := by
  obtain ⟨before, word, planned⟩ := e
  unfold outcome Cpu.execute at h
  dsimp only at h
  cases planned with
  | ok p => cases h
  | error f =>
    cases f with
    | trap t => cases h
    | floatingPoint fcr31 => cases h
    | fatal y => exact (Prod.mk.inj h).2.symm

/-- Nothing is due at the end of an instruction if nothing was at its start. -/
theorem timed_after {e : Execution} (h : e.before.Timed) : e.after.Timed := by
  rw [e.after_eq]
  cases hw : e.worked with
  | none => exact h
  | some b =>
    have hb := (timed_worked hw h).retire
    dsimp only
    split
    · exact hb.skipIdle
    · exact hb

/-- **The clock** moves by a cycle, and by the cycles that the instruction forwards time by. -/
theorem cycles_after {e : Execution} {b : Cpu} (h : e.worked = some b) (he : e.before.Timed) :
    e.after.cycles = e.before.cycles + 1 + UInt64.ofNat e.idleCycles := by
  have hb : b.cycles = e.before.cycles := congrArg Surround.cycles (surround_worked h)
  have hretire : b.retire.cycles = e.before.cycles + 1 := by
    rw [← hb]
    exact (timed_worked h he).cycles_retire
  rw [e.after_eq, idleCycles, h]
  dsimp only
  cases e.idle with
  | false =>
    rw [if_neg Bool.false_ne_true, if_neg Bool.false_ne_true, hretire]
    exact (UInt64.add_zero _).symm
  | true =>
    rw [if_pos rfl, if_pos rfl, Cpu.skipIdle_eq, ← hretire]
    split
    · rfl
    · rename_i hk
      rw [Nat.eq_zero_of_not_pos hk]
      exact (UInt64.add_zero _).symm

/-- **An instruction is counted** unless it stops the machine. -/
theorem opsExecuted_after {e : Execution} {b : Cpu} (h : e.worked = some b) (he : e.before.Timed) :
    e.after.opsExecuted = e.before.opsExecuted + 1 := by
  have hb : b.opsExecuted = e.before.opsExecuted := congrArg Surround.opsExecuted (surround_worked h)
  have hretire : b.retire.opsExecuted = e.before.opsExecuted + 1 := by
    rw [← hb]
    exact (timed_worked h he).opsExecuted_retire
  rw [e.after_eq, h]
  dsimp only
  split
  · rw [Cpu.skipIdle_eq]
    split <;> exact hretire
  · exact hretire

theorem settings_after {e : Execution} (he : e.before.Timed) : e.after.settings = e.before.settings := by
  rw [e.after_eq]
  cases hw : e.worked with
  | none => rfl
  | some b =>
    have hb : b.settings = e.before.settings := congrArg Surround.settings (surround_worked hw)
    have hretire := (timed_worked hw he).settings_retire.trans hb
    dsimp only
    split
    · rw [Cpu.skipIdle_eq]
      split <;> exact hretire
    · exact hretire

/-- No event is farther than the horizon, so no instruction forwards time by more. -/
theorem idleCycles_le {e : Execution} (he : e.before.Timed) : (e.idleCycles : Int) ≤ horizon := by
  have hzero : ((0 : Nat) : Int) ≤ horizon := by decide
  unfold idleCycles
  cases hw : e.worked with
  | none => exact hzero
  | some b =>
    dsimp only
    split
    · exact (timed_worked hw he).retire.idleCycles_le
    · exact hzero

/-- The cycles that an execution takes. -/
theorem toNat_cycles_after {e : Execution} {b : Cpu} (h : e.worked = some b) (he : e.before.Timed) :
    (e.after.cycles - e.before.cycles).toNat = 1 + e.idleCycles := by
  have hle := idleCycles_le he
  unfold horizon at hle
  rw [cycles_after h he, UInt64.add_assoc, UInt64.add_comm, UInt64.add_sub_cancel, UInt64.toNat_add,
    UInt64.toNat_ofNat', show (1 : UInt64).toNat = 1 from rfl]
  omega

end Execution

/-! ## Chains -/

/-- How the processor changes between two instructions. -/
inductive Quiet : Cpu → Cpu → Prop where
  /-- The line is sampled. -/
  | sample (c : Cpu) : Quiet c c.updateInterrupts
  /-- An interrupt is delivered. -/
  | interrupt (c : Cpu) : Quiet c c.deliverInterrupt
  /-- Devices are read, the line is driven, counters count, invalidations are looked at. -/
  | outside (c : Cpu) (bus : Bus) (line : Bool) (ranges : List (UInt64 × UInt64)) (dirty : Bool)
      (statistics : Statistics) :
      Quiet c { c with bus, line, codeInvalidations := ranges, tlbDirty := dirty, statistics }

/-- Executions in order, from one state to another, each while nothing asks the run to end. -/
inductive Chain : Cpu → List Execution → Cpu → Prop where
  | nil (c : Cpu) : Chain c [] c
  | quiet {a b c : Cpu} {es : List Execution} (h : Quiet a b) (rest : Chain b es c) : Chain a es c
  | execute {c : Cpu} {es : List Execution} (e : Execution) (h : e.before.breakout = none)
      (rest : Chain e.after es c) : Chain e.before (e :: es) c

namespace Chain

theorem single {a b : Cpu} (h : Quiet a b) : Chain a [] b := .quiet h (.nil b)

theorem append {a b c : Cpu} {es fs : List Execution} (h : Chain a es b) (h' : Chain b fs c) :
    Chain a (es ++ fs) c := by
  induction h with
  | nil => exact h'
  | quiet hq _ ih => exact .quiet hq (ih h')
  | execute e hb _ ih => exact .execute e hb (ih h')

/-- A chain is cut in two by each of its executions. -/
theorem split {a b : Cpu} {es : List Execution} (h : Chain a es b) :
    ∀ {earlier later : List Execution} {e : Execution}, es = earlier ++ e :: later →
      Chain a earlier e.before ∧ Chain e.after later b := by
  induction h with
  | nil c =>
    intro earlier later e hes
    cases List.append_eq_nil_iff.mp hes.symm |>.2
  | quiet hq _ ih =>
    intro earlier later e hes
    exact (ih hes).imp (.quiet hq) id
  | execute f hb rest ih =>
    intro earlier later e hes
    cases earlier with
    | nil =>
      obtain ⟨rfl, rfl⟩ := List.cons.inj hes
      exact ⟨.nil _, rest⟩
    | cons g earlier =>
      obtain ⟨rfl, htail⟩ := List.cons.inj hes
      exact (ih htail).imp (.execute f hb) id

/-- What quiet steps and executions preserve, a chain preserves. -/
theorem preserves {P : Cpu → Prop} (hquiet : ∀ a b, Quiet a b → P a → P b)
    (hexecute : ∀ e : Execution, e.before.breakout = none → P e.before → P e.after) {a c : Cpu}
    {es : List Execution} (h : Chain a es c) (ha : P a) : P c := by
  induction h with
  | nil => exact ha
  | quiet hq _ ih => exact ih (hquiet _ _ hq ha)
  | execute e hb _ ih => exact ih (hexecute e hb ha)

/-- What quiet steps and the executions of a chain leave alone, the chain leaves alone. -/
theorem same {α : Type} (read : Cpu → α) (hquiet : ∀ a b, Quiet a b → read b = read a) {a c : Cpu}
    {es : List Execution} (h : Chain a es c) (hes : ∀ e ∈ es, read e.after = read e.before) : read c = read a := by
  induction h with
  | nil => rfl
  | quiet hq _ ih => exact (ih hes).trans (hquiet _ _ hq)
  | execute e _ _ ih =>
    exact (ih fun f hf => hes f (List.mem_cons_of_mem _ hf)).trans (hes e List.mem_cons_self)

/-- What they preserve holds at each instruction of a chain. -/
theorem before {P : Cpu → Prop} (hquiet : ∀ a b, Quiet a b → P a → P b)
    (hexecute : ∀ e : Execution, P e.before → P e.after) {a c : Cpu} {es : List Execution} (h : Chain a es c)
    (ha : P a) : ∀ e ∈ es, P e.before := by
  induction h with
  | nil => exact fun e he => absurd he List.not_mem_nil
  | quiet hq _ ih => exact ih (hquiet _ _ hq ha)
  | execute f _ _ ih =>
    intro e he
    rcases List.mem_cons.mp he with rfl | he
    · exact ha
    · exact ih (hexecute f ha) e he

/-- A chain with nothing to execute asks for nothing. -/
theorem of_eq {a b : Cpu} {es : List Execution} {c : Cpu} (h : Chain a es b) (hb : b = c) :
    Chain a es c := hb ▸ h

end Chain

theorem Quiet.events {a b : Cpu} (h : Quiet a b) : b.events = a.events := by
  cases h with
  | sample => rfl
  | interrupt => exact Cpu.events_takeException _ _ _
  | outside => rfl

theorem Quiet.breakout {a b : Cpu} (h : Quiet a b) : b.breakout = a.breakout := by
  cases h with
  | sample => rfl
  | interrupt => exact congrArg Surround.breakout (Cpu.surround_takeException a .interrupt a.inDelaySlot)
  | outside => rfl

theorem Quiet.cycles {a b : Cpu} (h : Quiet a b) : b.cycles = a.cycles := by
  cases h with
  | sample => rfl
  | interrupt => exact congrArg Surround.cycles (Cpu.surround_takeException a .interrupt a.inDelaySlot)
  | outside => rfl

theorem Quiet.opsExecuted {a b : Cpu} (h : Quiet a b) : b.opsExecuted = a.opsExecuted := by
  cases h with
  | sample => rfl
  | interrupt => exact congrArg Surround.opsExecuted (Cpu.surround_takeException a .interrupt a.inDelaySlot)
  | outside => rfl

theorem Quiet.settings {a b : Cpu} (h : Quiet a b) : b.settings = a.settings := by
  cases h with
  | sample => rfl
  | interrupt => exact congrArg Surround.settings (Cpu.surround_takeException a .interrupt a.inDelaySlot)
  | outside => rfl

theorem Quiet.timed {a b : Cpu} (h : Quiet a b) (ha : a.Timed) : b.Timed := ha.of_events h.events

theorem Chain.timed {a b : Cpu} {es : List Execution} (h : Chain a es b) (ha : a.Timed) : b.Timed :=
  h.preserves (fun _ _ hq => hq.timed) (fun _ _ => Execution.timed_after) ha

end Vr4300
