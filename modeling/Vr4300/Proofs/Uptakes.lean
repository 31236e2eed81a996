import Vr4300.Proofs.Retracing

/-!
# `Proofs.Uptakes` — the states in which a fragment takes its operations up

While a fragment runs, the processor may be behind: the clock does not count the instructions that are deferred. The
loop takes up each operation in such a state, with an account that is open. `Fragment.Uptake` is what it has in hand
there, and `Fragment.uptakes` lists it for the operations that a run executes. An operation that is not deferred is
planned when the account is settled; then the processor is where the execution of the operation begins, and where the
interpreter is after as many steps.

## Contents

* `Fragment.Uptake`, `Fragment.uptakes`, `Fragment.uptakesOf`;
* **`uptakes_executions`**: an operation is executed in the state in which it is taken up, with the account settled;
* `executions_stepped`, **`uptakesOf_stepped`**: operations are the next instructions of the interpreter, one after the
  other.
-/

namespace Vr4300

namespace Fragment

/-- What the loop of a fragment has in hand when it takes up an operation. -/
structure Uptake where
  /-- The operation. -/
  op : FragmentOp
  /-- The account that is open. -/
  account : Deferred
  /-- The processor and the vector unit. -/
  tandem : Tandem

/-- The operation is planned as its own execution, with the account settled. -/
def Uptake.execution (s : Uptake) : Execution := Fragment.execution s.op (s.account.flush s.tandem).cpu

/-- **What operations are taken up in**, from the state of the loop in front of them. -/
def uptakes (usesFloat : Bool) : List FragmentOp → Deferred → Tandem → List Uptake
  | [], _, _ => []
  | op :: rest, d, t =>
    match deferredPlan? d t.cpu op with
    | some p =>
      let done := settled (t.cpu.apply p.effect) t.vector
      ⟨op, d, t⟩ :: if done.cpu.interruptsPending then [] else uptakes usesFloat rest ⟨d.count + 1, op.address + 4⟩ done
    | none =>
      let u := d.flush t
      if u.cpu.pc != op.address || u.cpu.inDelaySlot != op.inDelaySlot then []
      else
        match (execution op u.cpu).outcome with
        | (.error _, _) => [⟨op, d, t⟩]
        | (.ok retired, cpu) =>
          let done := settled cpu u.vector
          ⟨op, d, t⟩ ::
            if retired.trapped || mustLeave usesFloat done.cpu then [] else uptakes usesFloat rest ⟨0, done.cpu.pc⟩ done

/-- What a run of a fragment takes its operations up in. -/
def uptakesOf (f : Fragment) (t : Tandem) : List Uptake :=
  uptakes f.usesFloat f.ops ⟨0, t.cpu.pc⟩ (t.count fun s => { s with fragmentRuns := s.fragmentRuns + 1 })

/-- An operation that is not trivial is not deferred, so that it is planned with the account settled. -/
theorem deferredPlan?_of_kind {d : Deferred} {c : Cpu} {op : FragmentOp} (h : op.instruction.kind ≠ .trivial) :
    deferredPlan? d c op = none := by
  cases hp : deferredPlan? d c op with
  | none => rfl
  | some p => exact absurd (Deferred.admits_of_plan hp).1 h

/-- What is executed from an operation on, if the processor is there. -/
theorem executions_cons {usesFloat : Bool} {op : FragmentOp} {rest : List FragmentOp} {t : Tandem}
    (hpc : t.cpu.pc = op.address) (hslot : t.cpu.inDelaySlot = op.inDelaySlot) {retired : Retired} {cpu : Cpu}
    (h : (execution op t.cpu).outcome = (.ok retired, cpu)) :
    executions usesFloat (op :: rest) t = execution op t.cpu ::
      if retired.trapped || looksAfter usesFloat op t.cpu (settled cpu t.vector).cpu then []
      else executions usesFloat rest (settled cpu t.vector) := by
  rw [executions, if_neg (by simp [hpc, hslot])]
  show (match (execution op t.cpu).outcome with
    | (.error _, _) => [execution op t.cpu]
    | (.ok retired, cpu) =>
      if retired.trapped || looksAfter usesFloat op t.cpu (settled cpu t.vector).cpu then [execution op t.cpu]
      else execution op t.cpu :: executions usesFloat rest (settled cpu t.vector)) = _
  rw [h]
  dsimp only
  split <;> rfl

/-- What is taken up from an operation on, if the account is settled for it and the processor is there. -/
theorem uptakes_cons {usesFloat : Bool} {op : FragmentOp} {rest : List FragmentOp} {d : Deferred} {t u : Tandem}
    (hplan : deferredPlan? d t.cpu op = none) (hflush : d.flush t = u) (hpc : u.cpu.pc = op.address)
    (hslot : u.cpu.inDelaySlot = op.inDelaySlot) {r : Except FatalError Retired} {cpu : Cpu}
    (h : (execution op u.cpu).outcome = (r, cpu)) :
    uptakes usesFloat (op :: rest) d t = ⟨op, d, t⟩ ::
      match r with
      | .error _ => []
      | .ok retired =>
        let done := settled cpu u.vector
        if retired.trapped || mustLeave usesFloat done.cpu then []
        else uptakes usesFloat rest ⟨0, done.cpu.pc⟩ done := by
  rw [uptakes, hplan]
  dsimp only
  rw [hflush, if_neg (by simp [hpc, hslot]), h]
  cases r <;> rfl

/-- **An operation is executed in the state in which it is taken up**, with its account settled. -/
theorem uptakes_executions (usesFloat : Bool) (ops : List FragmentOp) :
    ∀ (d : Deferred) (t : Tandem), d.Sound t.cpu → t.cpu.Timed →
      List.Forall₂ (fun s e => e = s.execution) (uptakes usesFloat ops d t)
        (executions usesFloat ops ⟨d.settle t.cpu, t.vector⟩) := by
  induction ops with
  | nil => exact fun _ _ _ _ => .nil
  | cons op rest ih =>
    intro d t hd hT
    have hflush := Deferred.flush_eq hd
    have hlook := looksAfter_settle hd usesFloat op
    have htaken : execution op (d.settle t.cpu) = (⟨op, d, t⟩ : Uptake).execution :=
      congrArg (execution op ·.cpu) hflush.symm
    cases hp : deferredPlan? d t.cpu op with
    -- the operation joins the account
    | some p =>
      obtain ⟨hpc, hslot, retired, cpu, hexec, htrap, hstate⟩ := Deferred.execute_deferred hd hp
      have hsound := Deferred.sound_joined (Deferred.room_of_timed hT hp) hp
      rw [hp] at hlook
      rw [uptakes, hp, executions_cons (t := ⟨d.settle t.cpu, t.vector⟩) hpc hslot hexec]
      refine .cons htaken ?_
      rw [htrap, Bool.false_or, hlook, hstate, Option.isSome_some, if_pos rfl, Deferred.interruptsPending_settle]
      split
      · exact .nil
      · exact ih _ _ hsound (timed_settled (hT.apply p.effect) t.vector)
    -- the account is settled before it
    | none =>
      rw [hp] at hlook
      have hlook (after : Cpu) : looksAfter usesFloat op (d.settle t.cpu) after = mustLeave usesFloat after :=
        hlook after
      have hstep := opStep usesFloat op rest 0 ⟨d.settle t.cpu, t.vector⟩
      generalize executions usesFloat (op :: rest) ⟨d.settle t.cpu, t.vector⟩ = es at hstep ⊢
      generalize runEach usesFloat (op :: rest) 0 ⟨d.settle t.cpu, t.vector⟩ = out at hstep
      cases hstep with
      | away h =>
        rw [uptakes, hp]
        dsimp only
        rw [hflush, if_pos (by simpa using h)]
        exact .nil
      | fatal hpc hslot h =>
        rw [uptakes_cons hp hflush hpc hslot h]
        exact .cons htaken .nil
      | trapped hpc hslot h ht =>
        rw [uptakes_cons hp hflush hpc hslot h]
        dsimp only
        rw [ht, Bool.true_or, if_pos rfl]
        exact .cons htaken .nil
      | look hpc hslot h ht hl =>
        rw [uptakes_cons hp hflush hpc hslot h]
        dsimp only
        rw [← hlook, hl, Bool.or_true, if_pos rfl]
        exact .cons htaken .nil
      | next hpc hslot h ht hl =>
        rw [uptakes_cons hp hflush hpc hslot h]
        dsimp only
        rw [← hlook, hl, ht, Bool.or_false, if_neg Bool.false_ne_true]
        have htimed := timed_execution (t := ⟨d.settle t.cpu, t.vector⟩) (Deferred.timed_settle hd hT) h
        exact .cons htaken (ih _ _ (Deferred.sound_zero _) htimed)

/-! ## The steps of the interpreter -/

end Fragment

/-- An execution with other counters. -/
def Execution.tally (e : Execution) (ops runs bailouts : Nat) : Execution :=
  { e with before := e.before.tally ops runs bailouts }

namespace Fragment

/-- An operation is the next instruction of a processor that finds its word in main memory. -/
theorem execution_tally {op : FragmentOp} {c : Cpu} (hpc : c.pc = op.address)
    (hword : c.peek? op.address = some op.word)
    (hfloat : op.instruction.needsFloat = true → c.floatUsable = true) (ops runs bailouts : Nat) :
    execution op (c.tally ops runs bailouts) = c.nextExecution.tally ops runs bailouts := by
  have hnext : c.nextExecution = execution op c := by
    rw [Cpu.nextExecution_of_peek? (hpc ▸ hword), ← op.instruction_eq, Cpu.planGuarded_of_usable hfloat]
    rfl
  rw [hnext]
  exact congrArg (Execution.mk _ _) (Cpu.plan_tally c ops runs bailouts op.instruction)

/-- **Operations are the steps of the interpreter**, one by one. -/
theorem executions_stepped (usesFloat : Bool) (ops : List FragmentOp)
    (hneeds : ∀ op ∈ ops, op.instruction.needsFloat = true → usesFloat = true) :
    ∀ (index k : Nat) (t : Tandem) (e : Execution), mustLeave usesFloat t.cpu = false →
      (usesFloat = true → t.cpu.Gated) →
      (∀ j ≤ k, ∀ op ∈ ops, (Tandem.stepped^[j] t).cpu.peek? op.address = some op.word) →
      (executions usesFloat ops (t.tally index 1 0))[k]? = some e →
      e = (Tandem.stepped^[k] t).cpu.nextExecution.tally (index + k) 1 0 := by
  induction ops with
  | nil => exact fun _ _ _ _ _ _ _ he => absurd he (by simp [executions])
  | cons op rest ih =>
    intro index k t e hstay hgated hcode he
    have hword : t.cpu.peek? op.address = some op.word := hcode 0 (Nat.zero_le _) op List.mem_cons_self
    have hfloat (h : op.instruction.needsFloat = true) : t.cpu.floatUsable = true := by
      have huses := hneeds op List.mem_cons_self h
      exact (hgated huses).trans (statusFloatUsable_of_stay hstay huses)
    let u := t.tally index 1 0
    have hfirst (hpc : t.cpu.pc = op.address) : execution op u.cpu = t.cpu.nextExecution.tally index 1 0 :=
      execution_tally hpc hword hfloat index 1 0
    have halone (hpc : t.cpu.pc = op.address) (he : [execution op u.cpu][k]? = some e) :
        e = (Tandem.stepped^[k] t).cpu.nextExecution.tally (index + k) 1 0 := by
      cases k with
      | zero =>
        obtain rfl := Option.some.inj he
        exact hfirst hpc
      | succ k => cases he
    have hstep := opStep usesFloat op rest index u
    generalize executions usesFloat (op :: rest) u = es at hstep he
    generalize runEach usesFloat (op :: rest) index u = out at hstep
    cases hstep with
    | away _ => cases he
    | fatal hpc _ _ => exact halone hpc he
    | trapped hpc _ _ _ => exact halone hpc he
    | look hpc _ _ _ _ => exact halone hpc he
    | @next hpc _ retired cpu h _ hl =>
      cases k with
      | zero =>
        obtain rfl := Option.some.inj he
        exact hfirst hpc
      | succ k =>
        have hsettled : settled (t.cpu.step.2.tally index 1 0) u.vector = t.stepped.tally (index + 1) 1 0 :=
          settled_tally t index 1 0
        rw [looksAfter_eq_mustLeave (t := u) hstay h] at hl
        have hoperation := outcome_operation (c := t.cpu) hpc hword hfloat index 1 0
        obtain ⟨-, rfl⟩ := Prod.mk.inj (hoperation.symm.trans h)
        rw [hsettled] at hl
        rw [List.getElem?_cons_succ, hsettled] at he
        rw [show index + (k + 1) = index + 1 + k by omega]
        refine ih (fun op' hop' => hneeds op' (List.mem_cons_of_mem _ hop')) (index + 1) k t.stepped e hl
          (fun huses => (hgated huses).stepped) ?_ he
        intro j hj op' hop'
        exact hcode (j + 1) (Nat.succ_le_succ hj) op' (List.mem_cons_of_mem _ hop')

/-- **A fragment does as the interpreter does.** Nothing is to be looked at when the fragment is entered. Then what is
taken up as number `k` is the next instruction of the interpreter after `k` steps, as far as the words of the fragment
lie in main memory; only the counters differ. -/
theorem uptakesOf_stepped {entry : UInt64} {recorded : List RecordedOp} {t : Tandem} (hT : t.cpu.Timed)
    (hstay : mustLeave (compile entry recorded).usesFloat t.cpu = false)
    (hgated : (compile entry recorded).usesFloat = true → t.cpu.Gated) {k : Nat}
    (hcode : ∀ j ≤ k, ∀ r ∈ recorded, (Tandem.stepped^[j] t).cpu.peek? r.address = some r.word) {s : Uptake}
    (hs : ((compile entry recorded).uptakesOf t)[k]? = some s) :
    s.execution = (Tandem.stepped^[k] t).cpu.nextExecution.tally k 1 0 := by
  set f := compile entry recorded
  let u : Tandem := t.tally 0 1 0
  have hexecutions :=
    uptakes_executions f.usesFloat f.ops ⟨0, u.cpu.pc⟩ u (Deferred.sound_zero u.cpu) (hT.of_events rfl)
  have hsettle : (⟨0, u.cpu.pc⟩ : Deferred).settle u.cpu = u.cpu := if_pos rfl
  rw [hsettle] at hexecutions
  have hs : (uptakes f.usesFloat f.ops ⟨0, u.cpu.pc⟩ u)[k]? = some s := hs
  obtain ⟨hk, rfl⟩ := List.getElem?_eq_some_iff.mp hs
  have hlt : k < (executions f.usesFloat f.ops u).length := hexecutions.length_eq ▸ hk
  refine (hexecutions.get hk hlt).symm.trans ?_
  have hneeds : ∀ op ∈ f.ops, op.instruction.needsFloat = true → f.usesFloat = true :=
    fun op hop hneeds => List.any_eq_true.mpr ⟨op, hop, hneeds⟩
  have hstepped := executions_stepped f.usesFloat f.ops hneeds 0 k t _ hstay hgated ?_ (List.getElem?_eq_getElem hlt)
  · rw [Nat.zero_add] at hstepped
    exact hstepped
  · intro j hj op hop
    obtain ⟨r, hr, rfl⟩ := List.mem_map.mp hop
    exact hcode j hj r hr

end Fragment

end Vr4300
