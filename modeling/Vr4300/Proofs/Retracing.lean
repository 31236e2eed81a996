import Mathlib.Logic.Function.Iterate
import Vr4300.Proofs.Accounting
import Vr4300.Proofs.Addresses
import Vr4300.Proofs.FragmentTurns

/-!
# `Proofs.Retracing` — a fragment retraces the steps of the processor

The recompiler is not told how a fragment came about: it may be the trace of a run, or any list of operations
with gaps, repetitions and wrong marks. As long as each operation is what lies at its address, running the
fragment is stepping: the processor and the vector unit end where some steps lead that are no more than
the operations. The steps end where the fragment does, so there is nothing between them that the machine would
have had to look at (`run_retraces_steps`).

A fragment counts what it executes, and no instruction looks at those counters. The invariant of the proof is
that the fragment is at what the steps have reached, with more operations counted.

## Contents

* `Cpu.tally`: more operations, runs and bailouts are counted; `execute_tally`: nothing depends on them;
* `Tandem.stepped`: one step of the processor with the vector unit;
* `Fragment.count_runEach`: the operations counted are no more than there are;
* `Fragment.outcome_operation`: an operation is what the processor would have fetched;
* `Fragment.Retraces`, `Fragment.retraces_runEach`, `Fragment.run_retraces_steps`.
-/

namespace Vr4300

/-! ## What a fragment counts -/

/-- More operations, runs and bailouts of fragments are counted. -/
def Statistics.tally (s : Statistics) (ops runs bailouts : Nat) : Statistics :=
  { s with
    compiledOps := s.compiledOps + ops
    fragmentRuns := s.fragmentRuns + runs
    bailouts := s.bailouts + bailouts }

/-- They are counted in the margin. -/
def Margin.tally (t : Margin) (ops runs bailouts : Nat) : Margin :=
  { t with statistics := t.statistics.tally ops runs bailouts }

namespace Cpu

/-- They are counted by the processor. -/
def tally (c : Cpu) (ops runs bailouts : Nat) : Cpu :=
  { c with statistics := c.statistics.tally ops runs bailouts }

variable (c : Cpu) (ops runs bailouts : Nat)

theorem plan_tally (i : Instruction) : (c.tally ops runs bailouts).plan i = c.plan i :=
  plan_adorn c (c.margin.tally ops runs bailouts) i

/-- An operation that commutes with changes of the margin commutes with counting, if what it writes into the
margin does. -/
theorem map_tally {c : Cpu} {f : Cpu → Cpu} {g : Margin → Margin} (hf : ∀ t, f (c.adorn t) = (f c).adorn (g t))
    (hg : ∀ t, g (t.tally ops runs bailouts) = (g t).tally ops runs bailouts) :
    f (c.tally ops runs bailouts) = (f c).tally ops runs bailouts := by
  have hmargin : g c.margin = (f c).margin := (congrArg margin (hf c.margin)).symm
  calc f (c.tally ops runs bailouts)
      = (f c).adorn (g (c.margin.tally ops runs bailouts)) := hf (c.margin.tally ops runs bailouts)
    _ = (f c).adorn ((f c).margin.tally ops runs bailouts) := by rw [hg, hmargin]

theorem apply_tally (e : Effect) :
    (c.tally ops runs bailouts).apply e = (c.apply e).tally ops runs bailouts :=
  map_tally ops runs bailouts (f := (·.apply e)) (fun t => apply_adorn c t e) fun t => by cases e <;> rfl

theorem follow_tally (base : UInt64) (f : Flow) :
    (c.tally ops runs bailouts).follow base f = (c.follow base f).tally ops runs bailouts := by
  cases f <;> rfl

theorem takeException_tally (x : Trap) (inDelay : Bool) :
    (c.tally ops runs bailouts).takeException x inDelay =
      (c.takeException x inDelay).tally ops runs bailouts := by
  refine map_tally ops runs bailouts (f := (·.takeException x inDelay))
    (fun t => takeException_adorn c t x inDelay) fun t => ?_
  have hcount (s : Statistics) :
      countException x (s.tally ops runs bailouts) = (countException x s).tally ops runs bailouts := by
    unfold countException
    split <;> rfl
  show ({ t with delaySlot := none, statistics := countException x (t.statistics.tally _ _ _) } : Margin) = _
  rw [hcount]
  rfl

theorem retire_tally : (c.tally ops runs bailouts).retire = c.retire.tally ops runs bailouts :=
  map_tally ops runs bailouts (g := id) (fun t => retire_adorn c t) fun _ => rfl

theorem skipIdle_tally : (c.tally ops runs bailouts).skipIdle = c.skipIdle.tally ops runs bailouts :=
  map_tally ops runs bailouts (fun t => skipIdle_adorn c t) fun _ => rfl

/-- **Executing an instruction** does not depend on what fragments have counted. -/
theorem execute_tally (word : UInt32) (planned : Except Fault Plan) :
    (c.tally ops runs bailouts).execute word planned =
      ((c.execute word planned).1, (c.execute word planned).2.tally ops runs bailouts) := by
  unfold execute
  cases planned with
  | ok p =>
    have hidles : (c.tally ops runs bailouts).idles p.flow = c.idles p.flow :=
      idles_adorn c (c.margin.tally ops runs bailouts) p.flow
    dsimp only
    rw [hidles, apply_tally, show (c.tally ops runs bailouts).successor = c.successor from rfl,
      follow_tally, retire_tally]
    split
    · rw [skipIdle_tally]
      rfl
    · rfl
  | error f =>
    cases f with
    | trap x =>
      dsimp only
      rw [takeException_tally, retire_tally]
      rfl
    | floatingPoint fcr31 =>
      have hexception := takeException_tally { c with fcr31 := fcr31 } ops runs bailouts .floatingPoint c.inDelaySlot
      have hretire := (congrArg retire hexception).trans (retire_tally _ ops runs bailouts)
      exact congrArg (Prod.mk _) hretire
    | fatal x => rfl

end Cpu

/-! ## Steps -/

/-- A processor that stops at an instruction in main memory is left as it was. -/
theorem Cpu.step_of_error {c : Cpu} {word : UInt32} {x : FatalError} (hword : c.peek? c.pc = some word)
    (h : c.step.1 = .error x) : c.step = (.error x, c) := by
  have hnext := nextExecution_of_peek? hword
  have hout : c.nextExecution.outcome = (.error x, c.nextExecution.after) := Prod.ext (c.step_eq ▸ h) rfl
  rw [step_eq, hout, Execution.eq_before_of_error hout, hnext]

namespace Tandem

/-- More operations, runs and bailouts are counted. -/
def tally (t : Tandem) (ops runs bailouts : Nat) : Tandem := t.onCpu (·.tally ops runs bailouts)

/-- **A step** of the processor and the vector unit, behind which the line is sampled. -/
def stepped (t : Tandem) : Tandem :=
  let ⟨cpu, vector⟩ := t
  (Tandem.stepVector ⟨cpu.step.2, vector⟩).onCpu Cpu.updateInterrupts

theorem stepVector_tally (t : Tandem) (ops runs bailouts : Nat) :
    (t.tally ops runs bailouts).stepVector = t.stepVector.tally ops runs bailouts := by
  obtain ⟨cpu, vector⟩ := t
  unfold stepVector tally onCpu
  dsimp only
  cases vector.drive (vector.steps + 1) <;> rfl

end Tandem

/-- A step keeps the derived field up to date. -/
theorem Cpu.Gated.stepped {t : Tandem} (h : t.cpu.Gated) : t.stepped.cpu.Gated := by
  have hstep : t.cpu.step.2.Gated := by
    obtain ⟨bus, hb⟩ := t.cpu.exists_nextExecution_before
    rw [step_eq]
    exact Execution.gated_after (e := t.cpu.nextExecution) (hb ▸ h)
  have hvector : (Tandem.stepVector ⟨t.cpu.step.2, t.vector⟩).cpu.Gated := by
    unfold Tandem.stepVector
    dsimp only
    cases t.vector.drive (t.vector.steps + 1) <;> exact hstep
  exact hvector.updateInterrupts

namespace Fragment

/-- Counting an operation is the vector unit's step. -/
theorem countOp_tally (c : Cpu) (v : VectorUnit) (ops runs bailouts : Nat) :
    countOp ⟨c.tally ops runs bailouts, v⟩ = (Tandem.stepVector ⟨c, v⟩).tally (ops + 1) runs bailouts :=
  Tandem.stepVector_tally ⟨c, v⟩ (ops + 1) runs bailouts

/-- An operation that is settled is a step. -/
theorem settled_tally (t : Tandem) (ops runs bailouts : Nat) :
    settled (t.cpu.step.2.tally ops runs bailouts) t.vector = t.stepped.tally (ops + 1) runs bailouts := by
  unfold settled
  rw [countOp_tally]
  rfl

/-! ## The operations counted -/

theorem compiledOps_countOp (t : Tandem) :
    (countOp t).cpu.statistics.compiledOps = t.cpu.statistics.compiledOps + 1 := by
  obtain ⟨line, h⟩ := countOp_eq t.vector
  rw [show countOp t = countOp ⟨t.cpu, t.vector⟩ from rfl, h]

/-- An operation that is answered is counted once. -/
theorem compiledOps_execution {op : FragmentOp} {t : Tandem} {retired : Retired} {cpu : Cpu}
    (h : (execution op t.cpu).outcome = (.ok retired, cpu)) :
    (countOp ⟨cpu, t.vector⟩).cpu.statistics.compiledOps = t.cpu.statistics.compiledOps + 1 := by
  obtain ⟨w, hw⟩ := Execution.exists_worked h
  have hafter : (execution op t.cpu).after = cpu := congrArg Prod.snd h
  have hshown : (execution op t.cpu).after.statistics.compiledOps = t.cpu.statistics.compiledOps :=
    congrArg (fun s : Nat × Nat × Nat => s.2.1) (Execution.shown_after hw)
  rw [compiledOps_countOp, ← hafter, hshown]

/-- **A run counts** no more operations than there are. -/
theorem count_runEach (usesFloat : Bool) (ops : List FragmentOp) :
    ∀ (index : Nat) (t : Tandem), ∃ n ≤ ops.length,
      (runEach usesFloat ops index t).2.cpu.statistics.compiledOps = t.cpu.statistics.compiledOps + n := by
  induction ops with
  | nil => intro index t; exact ⟨0, Nat.le_refl _, rfl⟩
  | cons op rest ih =>
    intro index t
    have hstep := opStep usesFloat op rest index t
    generalize runEach usesFloat (op :: rest) index t = out at hstep ⊢
    generalize executions usesFloat (op :: rest) t = es at hstep
    cases hstep with
    | away _ => exact ⟨0, Nat.zero_le _, rfl⟩
    | fatal _ _ h =>
      obtain rfl := Execution.eq_before_of_error h
      exact ⟨0, Nat.zero_le _, rfl⟩
    | trapped _ _ h _ => exact ⟨1, Nat.succ_le_succ (Nat.zero_le _), compiledOps_execution h⟩
    | look _ _ h _ _ => exact ⟨1, Nat.succ_le_succ (Nat.zero_le _), compiledOps_execution h⟩
    | @next _ _ _ cpu h _ _ =>
      obtain ⟨n, hn, hcount⟩ := ih (index + 1) (settled cpu t.vector)
      refine ⟨n + 1, Nat.succ_le_succ hn, ?_⟩
      have hone : (settled cpu t.vector).cpu.statistics.compiledOps = t.cpu.statistics.compiledOps + 1 :=
        compiledOps_execution h
      rw [hcount, hone]
      omega

/-! ## One operation -/

/-- **An operation is the step** of a processor that finds its word in main memory. -/
theorem outcome_operation {op : FragmentOp} {c : Cpu} (hpc : c.pc = op.address)
    (hword : c.peek? op.address = some op.word)
    (hfloat : op.instruction.needsFloat = true → c.floatUsable = true) (ops runs bailouts : Nat) :
    (execution op (c.tally ops runs bailouts)).outcome = (c.step.1, c.step.2.tally ops runs bailouts) := by
  have hnext : c.nextExecution = execution op c := by
    rw [Cpu.nextExecution_of_peek? (hpc ▸ hword), ← op.instruction_eq, Cpu.planGuarded_of_usable hfloat]
    rfl
  have hplan : execution op (c.tally ops runs bailouts) =
      ⟨c.tally ops runs bailouts, op.word, c.plan op.instruction⟩ :=
    congrArg (Execution.mk _ _) (Cpu.plan_tally c ops runs bailouts op.instruction)
  rw [hplan, Cpu.step_eq, hnext]
  exact Cpu.execute_tally c ops runs bailouts op.word (c.plan op.instruction)

/-! ## Runs -/

/-- An answer that a fragment counts as a bailout. -/
def bailouts : Except FatalError FragmentExit → Nat
  | .ok ⟨_, false⟩ => 1
  | _ => 0

/-- **A reason to leave** a fragment behind some steps from `t`. -/
inductive Reason (usesFloat : Bool) (ops : List FragmentOp) (t : Tandem) : Nat → Prop where
  /-- The processor is not where the next operation was recorded. -/
  | away {n : Nat} (hnext : n < ops.length) (h : ¬ Here (ops.drop n) (Tandem.stepped^[n] t).cpu) :
      Reason usesFloat ops t n
  /-- The machine has to look. -/
  | look {n : Nat} (h : mustLeave usesFloat (Tandem.stepped^[n] t).cpu = true) : Reason usesFloat ops t n
  /-- The last step raised an exception. -/
  | trapped {n : Nat} {retired : Retired} (h : (Tandem.stepped^[n] t).cpu.step.1 = .ok retired)
      (ht : retired.trapped = true) : Reason usesFloat ops t (n + 1)

/-- **Where a run of operations ends**, with `n` steps from `t` made: behind the last operation, for a reason, or
where the next step stops the processor. Operations are numbered from `index` on. -/
def EndsBehind (usesFloat : Bool) (ops : List FragmentOp) (index : Nat) (t : Tandem) (n : Nat) :
    Except FatalError FragmentExit → Prop
  | .ok ⟨i, true⟩ => i = index + n ∧ n = ops.length
  | .ok ⟨i, false⟩ => i = index + n ∧ Reason usesFloat ops t n
  | .error x => (Tandem.stepped^[n] t).cpu.step = (.error x, (Tandem.stepped^[n] t).cpu)

/-- **Operations retrace steps**, from number `index` on: what is answered and left is what `n` steps from `t`
lead to. -/
structure Retraces (usesFloat : Bool) (ops : List FragmentOp) (index : Nat) (t : Tandem)
    (out : Except FatalError FragmentExit × Tandem) (n : Nat) : Prop where
  /-- There are no more steps than operations. -/
  bound : n ≤ ops.length
  /-- Each step is the operation of its number, and does not stop the machine. -/
  steps : ∀ k < n, Here (ops.drop k) (Tandem.stepped^[k] t).cpu ∧
    ∃ retired, (Tandem.stepped^[k] t).cpu.step.1 = .ok retired
  /-- Before none of them does the machine have to look; in particular no interrupt is pending. -/
  undisturbed : ∀ k < n, mustLeave usesFloat (Tandem.stepped^[k] t).cpu = false
  /-- The run ends where the steps lead, clock and events included: it has counted the operations, and may not
  have sampled the line. -/
  arrives : ∃ u, u = (Tandem.stepped^[n] t).tally (index + n) 1 (bailouts out.1) ∧
    (out.2 = u ∨ out.2.onCpu Cpu.updateInterrupts = u)
  /-- It ends there for a reason. -/
  ends : EndsBehind usesFloat ops index t n out.1

/-- A reason behind one more step. -/
theorem Reason.succ {usesFloat : Bool} {op : FragmentOp} {rest : List FragmentOp} {t : Tandem} {n : Nat}
    (h : Reason usesFloat rest t.stepped n) : Reason usesFloat (op :: rest) t (n + 1) := by
  cases h with
  | away hnext h => exact .away (Nat.succ_lt_succ hnext) h
  | look h => exact .look (n := n + 1) h
  | @trapped k retired h ht => exact .trapped (n := k + 1) h ht

namespace Retraces

variable {usesFloat : Bool} {ops rest : List FragmentOp} {op : FragmentOp} {index n : Nat} {t : Tandem}
  {out : Except FatalError FragmentExit × Tandem}

/-- A run without steps. -/
theorem zero (answer : Except FatalError FragmentExit) (hends : EndsBehind usesFloat ops index t 0 answer) :
    Retraces usesFloat ops index t (answer, t.tally index 1 (bailouts answer)) 0 where
  bound := Nat.zero_le _
  steps _ hk := absurd hk (Nat.not_lt_zero _)
  undisturbed _ hk := absurd hk (Nat.not_lt_zero _)
  arrives := ⟨_, rfl, .inl rfl⟩
  ends := hends

/-- A run that is left behind one step. -/
theorem one {retired : Retired} {u : Tandem} (hhere : Here (op :: rest) t.cpu)
    (hstep : t.cpu.step.1 = .ok retired) (hstay : mustLeave usesFloat t.cpu = false)
    (hu : u = t.stepped.tally (index + 1) 1 0 ∨ u.onCpu Cpu.updateInterrupts = t.stepped.tally (index + 1) 1 0)
    (hreason : Reason usesFloat (op :: rest) t 1) :
    Retraces usesFloat (op :: rest) index t (leave (index + 1) u) 1 where
  bound := Nat.succ_le_succ (Nat.zero_le _)
  steps k hk := by
    obtain rfl := Nat.lt_one_iff.mp hk
    exact ⟨hhere, retired, hstep⟩
  undisturbed k hk := by
    obtain rfl := Nat.lt_one_iff.mp hk
    exact hstay
  arrives := by
    have hcount {a b : Tandem} (h : a = b) : a.tally 0 0 1 = b.tally 0 0 1 := h ▸ rfl
    exact ⟨_, rfl, hu.imp hcount hcount⟩
  ends := ⟨rfl, hreason⟩

/-- **One step before others.** -/
theorem cons {retired : Retired} (hhere : Here (op :: rest) t.cpu) (hstep : t.cpu.step.1 = .ok retired)
    (hstay : mustLeave usesFloat t.cpu = false)
    (h : Retraces usesFloat rest (index + 1) t.stepped out n) :
    Retraces usesFloat (op :: rest) index t out (n + 1) := by
  have hindex : index + 1 + n = index + (n + 1) := by omega
  obtain ⟨hbound, hsteps, hundisturbed, harrives, hends⟩ := h
  rw [hindex] at harrives
  refine ⟨Nat.succ_le_succ hbound, ?_, ?_, harrives, ?_⟩
  · intro k hk
    cases k with
    | zero => exact ⟨hhere, retired, hstep⟩
    | succ k => exact hsteps k (Nat.lt_of_succ_lt_succ hk)
  · intro k hk
    cases k with
    | zero => exact hstay
    | succ k => exact hundisturbed k (Nat.lt_of_succ_lt_succ hk)
  · rcases out with ⟨x | ⟨i, completed⟩, u⟩
    · exact hends
    · cases completed with
      | true => exact ⟨hends.1.trans hindex, congrArg (· + 1) hends.2⟩
      | false => exact ⟨hends.1.trans hindex, hends.2.succ⟩

end Retraces

/-- **Operations retrace steps** while each of them is what lies at its address. The induction is on the
operations; the fragment is at what the steps have reached, with more operations counted. -/
theorem retraces_runEach (usesFloat : Bool) (ops : List FragmentOp)
    (hneeds : ∀ op ∈ ops, op.instruction.needsFloat = true → usesFloat = true) :
    ∀ (index n : Nat) (t : Tandem), mustLeave usesFloat t.cpu = false → (usesFloat = true → t.cpu.Gated) →
      (runEach usesFloat ops index (t.tally index 1 0)).2.cpu.statistics.compiledOps =
        (t.tally index 1 0).cpu.statistics.compiledOps + n →
      (∀ k ≤ n, ∀ op ∈ ops, (Tandem.stepped^[k] t).cpu.peek? op.address = some op.word) →
      Retraces usesFloat ops index t (runEach usesFloat ops index (t.tally index 1 0)) n := by
  induction ops with
  | nil =>
    intro index n t _ _ hcount _
    obtain rfl : n = 0 := Nat.left_eq_add.mp hcount
    exact .zero (.ok ⟨index, true⟩) ⟨rfl, rfl⟩
  | cons op rest ih =>
    intro index n t hstay hgated hcount hcode
    have hword : t.cpu.peek? op.address = some op.word := hcode 0 (Nat.zero_le _) op List.mem_cons_self
    have hfloat (h : op.instruction.needsFloat = true) : t.cpu.floatUsable = true := by
      have huses := hneeds op List.mem_cons_self h
      exact (hgated huses).trans (statusFloatUsable_of_stay hstay huses)
    -- the fragment is at `u`, and executes what the next step executes at `t`
    let u := t.tally index 1 0
    have hoperation (hpc : t.cpu.pc = op.address) := outcome_operation hpc hword hfloat index 1 0
    have hsettled : settled (t.cpu.step.2.tally index 1 0) u.vector = t.stepped.tally (index + 1) 1 0 :=
      settled_tally t index 1 0
    have hstep := opStep usesFloat op rest index u
    generalize hout : runEach usesFloat (op :: rest) index u = out at hstep hcount ⊢
    generalize executions usesFloat (op :: rest) u = es at hstep
    cases hstep with
    | away haway =>
      obtain rfl : n = 0 := Nat.left_eq_add.mp hcount
      refine .zero (.ok ⟨index, false⟩) ⟨rfl, .away (Nat.zero_lt_succ _) ?_⟩
      rintro ⟨op', hhead, hpc, hslot⟩
      obtain rfl := Option.some.inj hhead
      exact haway.elim (· hpc) (· hslot)
    | @fatal hpc _ x cpu h =>
      obtain rfl := Execution.eq_before_of_error h
      obtain rfl : n = 0 := Nat.left_eq_add.mp hcount
      have hanswer : t.cpu.step.1 = .error x := congrArg Prod.fst ((hoperation hpc).symm.trans h)
      exact .zero (.error x) (Cpu.step_of_error (hpc ▸ hword) hanswer)
    | @trapped hpc hslot retired cpu h ht =>
      obtain rfl : n = 1 := Nat.add_left_cancel (hcount.symm.trans (compiledOps_execution h))
      obtain ⟨hanswer, rfl⟩ := Prod.mk.inj ((hoperation hpc).symm.trans h)
      refine .one ⟨op, rfl, hpc, hslot⟩ hanswer hstay (.inr ?_) (.trapped (n := 0) hanswer ht)
      rw [countOp_tally]
      rfl
    | @look hpc hslot retired cpu h _ hl =>
      obtain rfl : n = 1 := Nat.add_left_cancel (hcount.symm.trans (compiledOps_execution h))
      rw [looksAfter_eq_mustLeave (t := u) hstay h] at hl
      obtain ⟨hanswer, rfl⟩ := Prod.mk.inj ((hoperation hpc).symm.trans h)
      rw [hsettled] at hl ⊢
      exact .one ⟨op, rfl, hpc, hslot⟩ hanswer hstay (.inl rfl) (.look (n := 1) hl)
    | @next hpc hslot retired cpu h _ hl =>
      -- the remaining operations count one less
      obtain ⟨m, -, hm⟩ := count_runEach usesFloat rest (index + 1) (settled cpu u.vector)
      have hone : (settled cpu u.vector).cpu.statistics.compiledOps = u.cpu.statistics.compiledOps + 1 :=
        compiledOps_execution h
      obtain rfl : n = m + 1 := by
        have hsum : u.cpu.statistics.compiledOps + n = u.cpu.statistics.compiledOps + 1 + m :=
          hcount.symm.trans (hone ▸ hm)
        omega
      rw [looksAfter_eq_mustLeave (t := u) hstay h] at hl
      obtain ⟨hanswer, rfl⟩ := Prod.mk.inj ((hoperation hpc).symm.trans h)
      rw [hsettled] at hm hl ⊢
      refine .cons ⟨op, rfl, hpc, hslot⟩ hanswer hstay
        (ih (fun op' hop' => hneeds op' (List.mem_cons_of_mem _ hop')) (index + 1) m t.stepped hl
          (fun huses => (hgated huses).stepped) hm ?_)
      intro k hk op' hop'
      exact hcode (k + 1) (Nat.succ_le_succ hk) op' (List.mem_cons_of_mem _ hop')

/-! ## Fragments -/

/-- The operations that a run of the fragment counts. -/
def opsRun (f : Fragment) (t : Tandem) : Nat :=
  (f.run t).2.cpu.statistics.compiledOps - t.cpu.statistics.compiledOps

/-- An instruction lies in main memory, behind an address that is not translated. -/
def Holds (c : Cpu) (r : RecordedOp) : Prop :=
  (Address.segment r.address).isMapped = false ∧ c.peek? r.address = some r.word

instance (c : Cpu) (r : RecordedOp) : Decidable (Holds c r) := inferInstanceAs (Decidable (_ ∧ _))

/-- **A fragment retraces the steps of the processor**, whatever operations it was made of. The machine does
not have to look when the fragment is entered, which includes that Status has the floating-point unit usable if
some operation needs it, and the processor knows what Status says, as between any two instructions
(`Chain.gated`). As far as the steps lead, each operation is what lies in main memory. Then the run ends where as
many steps lead as it counts operations. -/
theorem run_retraces_steps (entry : UInt64) (recorded : List RecordedOp) (t : Tandem)
    (hstay : mustLeave (compile entry recorded).usesFloat t.cpu = false)
    (hgated : (compile entry recorded).usesFloat = true → t.cpu.Gated)
    (hcode : ∀ k ≤ (compile entry recorded).opsRun t, ∀ r ∈ recorded, Holds (Tandem.stepped^[k] t).cpu r) :
    ((compile entry recorded).run t).2.cpu.statistics.compiledOps =
        t.cpu.statistics.compiledOps + (compile entry recorded).opsRun t ∧
      Retraces (compile entry recorded).usesFloat (compile entry recorded).ops 0 t
        ((compile entry recorded).run t) ((compile entry recorded).opsRun t) := by
  set f := compile entry recorded
  have hrecorded {op : FragmentOp} (hop : op ∈ f.ops) :
      ∃ r ∈ recorded, op.address = r.address ∧ op.word = r.word := by
    obtain ⟨r, hr, rfl⟩ := List.mem_map.mp hop
    exact ⟨r, hr, rfl, rfl⟩
  have hahead : ∀ op ∈ f.ops, (op.address + 4).toNat = op.address.toNat + 4 := by
    intro op hop
    obtain ⟨r, hr, haddress, -⟩ := hrecorded hop
    rw [haddress]
    exact toNat_add_of_unmapped (hcode 0 (Nat.zero_le _) r hr).1
  have hrun : f.run t = runEach f.usesFloat f.ops 0 (t.tally 0 1 0) :=
    runOps_eq_runEach_of_ahead f.usesFloat f.ops 0 (t.tally 0 1 0) hahead
  have hcount : (f.run t).2.cpu.statistics.compiledOps = t.cpu.statistics.compiledOps + f.opsRun t := by
    obtain ⟨n, -, hn⟩ := count_runEach f.usesFloat f.ops 0 (t.tally 0 1 0)
    have hn : (f.run t).2.cpu.statistics.compiledOps = t.cpu.statistics.compiledOps + n := hrun ▸ hn
    unfold opsRun
    omega
  have hneeds : ∀ op ∈ f.ops, op.instruction.needsFloat = true → f.usesFloat = true :=
    fun op hop hneeds => List.any_eq_true.mpr ⟨op, hop, hneeds⟩
  refine ⟨hcount, ?_⟩
  rw [hrun] at hcount ⊢
  refine retraces_runEach f.usesFloat f.ops hneeds 0 (f.opsRun t) t hstay hgated hcount ?_
  intro k hk op hop
  obtain ⟨r, hr, haddress, hword⟩ := hrecorded hop
  rw [haddress, hword]
  exact (hcode k hk r hr).2

/-- A processor in front of a loop that counts in a floating-point register, with the timer about to match. -/
def counting : Tandem :=
  ((Machine.create
    { general := { startPc := 0xFFFFFFFF80000000 }
      memory := { ramSize := 16 }
      cpu := { initialStatus := 0x34008001 } } {} {}).performAll
    [.edit (.loadProgram 0 [0x24420001, 0x44820000, 0x1000FFFD, 0]), .writeControl Control.compare 6]).drain.tandem

/-- Two turns of the loop. -/
def twice : List RecordedOp :=
  let turn : List RecordedOp :=
    [⟨0xFFFFFFFF80000000, 0x24420001, false⟩, ⟨0xFFFFFFFF80000004, 0x44820000, false⟩,
      ⟨0xFFFFFFFF80000008, 0x1000FFFD, false⟩, ⟨0xFFFFFFFF8000000C, 0, true⟩]
  turn ++ turn

/-- The timer matches in the second turn, and the fragment is left there. -/
theorem run_retraces_steps_counting :
    (compile 0xFFFFFFFF80000000 twice).usesFloat = true ∧ counting.cpu.Gated ∧
      (compile 0xFFFFFFFF80000000 twice).opsRun counting = 6 ∧
      (∀ k ≤ 6, ∀ r ∈ twice, Holds (Tandem.stepped^[k] counting).cpu r) ∧
      (Tandem.stepped^[6] counting).cpu.interruptsPending = true ∧
      Retraces true (compile 0xFFFFFFFF80000000 twice).ops 0 counting
        ((compile 0xFFFFFFFF80000000 twice).run counting) 6 := by
  have huses : (compile 0xFFFFFFFF80000000 twice).usesFloat = true := by decide +kernel
  have hgated : counting.cpu.floatUsable = counting.cpu.statusFloatUsable := by decide +kernel
  have hops : (compile 0xFFFFFFFF80000000 twice).opsRun counting = 6 := by decide +kernel
  have hstay : mustLeave (compile 0xFFFFFFFF80000000 twice).usesFloat counting.cpu = false := by decide +kernel
  have hcode : ∀ k ≤ 6, ∀ r ∈ twice, Holds (Tandem.stepped^[k] counting).cpu r := by decide +kernel
  have h := (run_retraces_steps 0xFFFFFFFF80000000 twice counting hstay (fun _ => hgated) (hops ▸ hcode)).2
  rw [huses, hops] at h
  exact ⟨huses, hgated, hops, hcode, by decide +kernel, h⟩

end Fragment

end Vr4300
