import Vr4300.Proofs.Deferral

/-!
# `Proofs.FragmentChain` — a fragment is a chain of executions

With deferral out of the way, a fragment is a loop over operations that executes one instruction each.
`Fragment.OpStep` lists all that one turn of that loop can do; `chain_runEach` puts the executions in a row.

## Contents

* `Fragment.executions`: the instructions that a fragment executes;
* `Fragment.OpStep`, `opStep`;
* `chain_runEach`, `runEach_error_rule`.
-/

namespace Vr4300

namespace Fragment

/-- The instructions that a fragment executes. -/
def executions (usesFloat : Bool) : List FragmentOp → Tandem → List Execution
  | [], _ => []
  | op :: rest, t =>
    if t.cpu.pc != op.address || t.cpu.inDelaySlot != op.inDelaySlot then []
    else
      let e : Execution := ⟨t.cpu, op.word, t.cpu.plan op.instruction⟩
      match e.outcome with
      | (.error _, _) => [e]
      | (.ok retired, cpu) =>
        let done := (countOp ⟨cpu, t.vector⟩).onCpu Cpu.updateInterrupts
        if retired.trapped || looksAfter usesFloat op t.cpu done.cpu then [e]
        else e :: executions usesFloat rest done

/-- The execution of an operation. -/
def execution (op : FragmentOp) (c : Cpu) : Execution := ⟨c, op.word, c.plan op.instruction⟩

/-- **All that an operation can do**, with the executions and the outcome of the operations from it on. -/
inductive OpStep (usesFloat : Bool) (op : FragmentOp) (rest : List FragmentOp) (index : Nat) (t : Tandem) :
    List Execution → Except FatalError FragmentExit × Tandem → Prop where
  /-- The processor is elsewhere. -/
  | away (h : t.cpu.pc ≠ op.address ∨ t.cpu.inDelaySlot ≠ op.inDelaySlot) :
      OpStep usesFloat op rest index t [] (leave index t)
  /-- The operation stops the machine. -/
  | fatal (hpc : t.cpu.pc = op.address) (hslot : t.cpu.inDelaySlot = op.inDelaySlot) {x : FatalError}
      {cpu : Cpu} (h : (execution op t.cpu).outcome = (.error x, cpu)) :
      OpStep usesFloat op rest index t [execution op t.cpu] (.error x, ⟨cpu, t.vector⟩)
  /-- It raises an exception. -/
  | trapped (hpc : t.cpu.pc = op.address) (hslot : t.cpu.inDelaySlot = op.inDelaySlot)
      {retired : Retired} {cpu : Cpu} (h : (execution op t.cpu).outcome = (.ok retired, cpu))
      (ht : retired.trapped = true) :
      OpStep usesFloat op rest index t [execution op t.cpu] (leave (index + 1) (countOp ⟨cpu, t.vector⟩))
  /-- The machine has to look behind it. -/
  | look (hpc : t.cpu.pc = op.address) (hslot : t.cpu.inDelaySlot = op.inDelaySlot)
      {retired : Retired} {cpu : Cpu} (h : (execution op t.cpu).outcome = (.ok retired, cpu))
      (ht : retired.trapped = false) (hl : looksAfter usesFloat op t.cpu (settled cpu t.vector).cpu = true) :
      OpStep usesFloat op rest index t [execution op t.cpu] (leave (index + 1) (settled cpu t.vector))
  /-- The next operation follows. -/
  | next (hpc : t.cpu.pc = op.address) (hslot : t.cpu.inDelaySlot = op.inDelaySlot)
      {retired : Retired} {cpu : Cpu} (h : (execution op t.cpu).outcome = (.ok retired, cpu))
      (ht : retired.trapped = false) (hl : looksAfter usesFloat op t.cpu (settled cpu t.vector).cpu = false) :
      OpStep usesFloat op rest index t
        (execution op t.cpu :: executions usesFloat rest (settled cpu t.vector))
        (runEach usesFloat rest (index + 1) (settled cpu t.vector))

theorem opStep (usesFloat : Bool) (op : FragmentOp) (rest : List FragmentOp) (index : Nat) (t : Tandem) :
    OpStep usesFloat op rest index t (executions usesFloat (op :: rest) t)
      (runEach usesFloat (op :: rest) index t) := by
  by_cases ha : (t.cpu.pc != op.address || t.cpu.inDelaySlot != op.inDelaySlot) = true
  · rw [executions, runEach, if_pos ha, if_pos ha]
    refine .away ?_
    simpa using ha
  · have hhere : t.cpu.pc = op.address ∧ t.cpu.inDelaySlot = op.inDelaySlot := by simpa using ha
    obtain ⟨hpc, hslot⟩ := hhere
    rw [executions, runEach, if_neg ha, if_neg ha]
    rcases hout : (execution op t.cpu).outcome with ⟨r, cpu⟩
    have hexec : t.cpu.execute op.word (t.cpu.plan op.instruction) = (r, cpu) := hout
    show OpStep usesFloat op rest index t
      (match (execution op t.cpu).outcome with
        | (.error _, _) => [execution op t.cpu]
        | (.ok retired, cpu) =>
          if retired.trapped || looksAfter usesFloat op t.cpu (settled cpu t.vector).cpu then
            [execution op t.cpu]
          else execution op t.cpu :: executions usesFloat rest (settled cpu t.vector)) _
    rw [hout, hexec]
    cases r with
    | error x => exact .fatal hpc hslot hout
    | ok retired =>
      dsimp only
      cases ht : retired.trapped with
      | true => exact .trapped hpc hslot hout ht
      | false =>
        rw [Bool.false_or, if_neg Bool.false_ne_true]
        show OpStep usesFloat op rest index t _
          (if looksAfter usesFloat op t.cpu (settled cpu t.vector).cpu then
              leave (index + 1) (settled cpu t.vector)
            else runEach usesFloat rest (index + 1) (settled cpu t.vector))
        cases hl : looksAfter usesFloat op t.cpu (settled cpu t.vector).cpu with
        | true => exact .look hpc hslot hout ht hl
        | false => exact .next hpc hslot hout ht hl

/-- Leaving a fragment counts a bailout. -/
theorem quiet_leave (index : Nat) (t : Tandem) : Quiet t.cpu (leave index t).2.cpu :=
  .outside t.cpu t.cpu.bus t.cpu.line t.cpu.codeInvalidations t.cpu.tlbDirty _

theorem quiet_countOp (t : Tandem) : Quiet t.cpu (countOp t).cpu := by
  obtain ⟨line, h⟩ := countOp_eq t.vector
  rw [show countOp t = countOp ⟨t.cpu, t.vector⟩ from rfl, h]
  exact .outside t.cpu t.cpu.bus _ t.cpu.codeInvalidations t.cpu.tlbDirty _

theorem timed_execution {t : Tandem} {op : FragmentOp} (hT : t.cpu.Timed) {r : Except FatalError Retired}
    {cpu : Cpu} (h : (execution op t.cpu).outcome = (r, cpu)) : (settled cpu t.vector).cpu.Timed := by
  have hafter : (execution op t.cpu).after.Timed := Execution.timed_after hT
  rw [show (execution op t.cpu).after = cpu from congrArg Prod.snd h] at hafter
  exact timed_settled hafter t.vector

/-- **A fragment is a chain** of the instructions that it executes. -/
theorem chain_runEach (usesFloat : Bool) (ops : List FragmentOp) :
    ∀ (index : Nat) (t : Tandem), t.cpu.Timed → t.cpu.breakout = none →
      Chain t.cpu (executions usesFloat ops t) (runEach usesFloat ops index t).2.cpu := by
  induction ops with
  | nil => intro index t _ _; exact .nil t.cpu
  | cons op rest ih =>
    intro index t hT hb
    have count {r : Except FatalError Retired} {cpu : Cpu} (h : (execution op t.cpu).outcome = (r, cpu)) :
        Quiet (execution op t.cpu).after (countOp ⟨cpu, t.vector⟩).cpu := by
      rw [show (execution op t.cpu).after = cpu from congrArg Prod.snd h]
      exact quiet_countOp ⟨cpu, t.vector⟩
    have hstep := opStep usesFloat op rest index t
    generalize executions usesFloat (op :: rest) t = es at hstep ⊢
    generalize runEach usesFloat (op :: rest) index t = out at hstep ⊢
    show Chain (execution op t.cpu).before _ _
    cases hstep with
    | away _ => exact .single (quiet_leave index t)
    | fatal _ _ h => exact .execute _ hb (.of_eq (.nil _) (congrArg Prod.snd h))
    | trapped _ _ h _ => exact .execute _ hb (.quiet (count h) (.single (quiet_leave _ _)))
    | @look _ _ _ cpu h _ _ =>
      have hleave := quiet_leave (index + 1) (settled cpu t.vector)
      exact .execute _ hb (.quiet (count h) (.quiet (.sample _) (.single hleave)))
    | @next _ _ _ cpu h _ hl =>
      exact .execute _ hb (.quiet (count h) (.quiet (.sample _)
        (ih _ _ (timed_execution hT h) (breakout_of_not_looksAfter hb h hl))))

/-- What an operation preserves behind which the next one follows, holds where one stops the machine. -/
theorem runEach_error_rule {P : Cpu → Prop} {usesFloat : Bool}
    (hnext : ∀ (op : FragmentOp) (t : Tandem) {retired : Retired} {cpu : Cpu}, P t.cpu →
      (execution op t.cpu).outcome = (.ok retired, cpu) →
      looksAfter usesFloat op t.cpu (settled cpu t.vector).cpu = false → P (settled cpu t.vector).cpu)
    {ops : List FragmentOp} {x : FatalError} {t' : Tandem} :
    ∀ {index : Nat} {t : Tandem}, P t.cpu → runEach usesFloat ops index t = (.error x, t') → P t'.cpu := by
  induction ops with
  | nil => intro index t _ h; cases h
  | cons op rest ih =>
    intro index t hP h
    have hstep := opStep usesFloat op rest index t
    rw [h] at hstep
    generalize executions usesFloat (op :: rest) t = es at hstep
    generalize hout : ((.error x, t') : Except FatalError FragmentExit × Tandem) = out at hstep
    cases hstep with
    | away _ => cases hout
    | fatal _ _ he =>
      obtain ⟨-, rfl⟩ := Prod.mk.inj hout
      rw [show _ = t.cpu from Execution.eq_before_of_error he]
      exact hP
    | trapped _ _ _ _ => cases hout
    | look _ _ _ _ _ => cases hout
    | next _ _ he _ hl => exact ih (hnext op t hP he hl) hout.symm

/-- An operation that stops the machine leaves what the operations before it left. -/
theorem runEach_error {usesFloat : Bool} {ops : List FragmentOp} {x : FatalError} {t' : Tandem}
    {index : Nat} {t : Tandem} (hb : t.cpu.breakout = none)
    (h : runEach usesFloat ops index t = (.error x, t')) : t'.cpu.breakout = none :=
  runEach_error_rule (P := fun c => c.breakout = none)
    (fun _ _ _ _ hb he hl => breakout_of_not_looksAfter hb he hl) hb h

/-- Nor does the machine have to look there. -/
theorem mustLeave_of_runEach_error {usesFloat : Bool} {ops : List FragmentOp} {x : FatalError} {t' : Tandem}
    {index : Nat} {t : Tandem} (hstay : mustLeave usesFloat t.cpu = false)
    (h : runEach usesFloat ops index t = (.error x, t')) : mustLeave usesFloat t'.cpu = false :=
  runEach_error_rule (P := fun c => mustLeave usesFloat c = false)
    (fun _ _ _ _ hstay he hl => (looksAfter_eq_mustLeave hstay he).symm.trans hl) hstay h

end Fragment

end Vr4300
