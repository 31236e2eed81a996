import Vr4300.Fragment.Basic
import Vr4300.Tandem

/-!
# Running a fragment

A fragment does what its instructions do one at a time. Runs of trivial instructions are accounted for
together: they are `Deferred`, as long as no event falls due among them.

The run leaves the fragment as soon as the processor is not where the trace was, or when the machine has
to look: after an exception, at the end of the budget, for an interrupt, for overwritten code.

## Contents

* `FragmentExit`: where a run ended.
* `Deferred`: trivial instructions that are not accounted for yet.
* `Fragment.run`.
-/

namespace Vr4300

/-- Where the run of a fragment ended. -/
structure FragmentExit where
  /-- The number of operations that were executed. -/
  index : Nat
  /-- All operations were executed. -/
  completed : Bool
deriving DecidableEq, Repr, Inhabited

/-- Trivial instructions that were executed but are not accounted for. -/
structure Deferred where
  /-- Their number. -/
  count : Nat := 0
  /-- The address behind the last one. -/
  pc : UInt64
deriving DecidableEq, Repr, Inhabited

namespace Deferred

/-- One more cycle does not reach the next event. -/
def fits (d : Deferred) (c : Cpu) : Bool :=
  match c.events.untilNext? with
  | none => true
  | some left => (d.count : Int) + 1 < left

/-- The operation may be deferred, too. -/
def admits (d : Deferred) (c : Cpu) (op : FragmentOp) : Bool :=
  op.instruction.kind == .trivial && !op.inDelaySlot && !c.inDelaySlot && d.pc == op.address &&
    d.fits c

/-- Accounts for the instructions. -/
def flush (d : Deferred) (t : Tandem) : Tandem :=
  if d.count = 0 then t
  else
    t.onCpu fun c =>
      let ops := c.opsExecuted + d.count
      Cpu.advance { c with pc := d.pc, opsExecuted := ops } (UInt64.ofNat d.count)

end Deferred

namespace Fragment

/-- The plan of an operation that may be deferred. -/
def deferredPlan? (d : Deferred) (c : Cpu) (op : FragmentOp) : Option Plan :=
  if d.admits c op then (c.plan op.instruction).toOption else none

/-- The machine has to look before the next operation. -/
def mustLeave (usesFloat : Bool) (c : Cpu) : Bool :=
  c.breakout.isSome || c.interruptsPending || !c.codeInvalidations.isEmpty || c.tlbDirty ||
    (usesFloat && !c.statusFloatUsable)

/-- Counts an executed operation and makes the vector unit's step for it. -/
def countOp (t : Tandem) : Tandem :=
  (t.count fun s => { s with compiledOps := s.compiledOps + 1 }).stepVector

/-- Leaves a fragment before its end. -/
def leave (index : Nat) (t : Tandem) : Except FatalError FragmentExit × Tandem :=
  (.ok ⟨index, false⟩, t.count fun s => { s with bailouts := s.bailouts + 1 })

/-- Runs the operations from number `index` on. -/
def runOps (usesFloat : Bool) :
    List FragmentOp → Nat → Deferred → Tandem → Except FatalError FragmentExit × Tandem
  | [], index, d, t => (.ok ⟨index, true⟩, d.flush t)
  | op :: rest, index, d, t =>
    match deferredPlan? d t.cpu op with
    | some p =>
      let d : Deferred := ⟨d.count + 1, op.address + 4⟩
      let t := (countOp (t.onCpu (·.apply p.effect))).onCpu Cpu.updateInterrupts
      if t.cpu.interruptsPending then leave (index + 1) (d.flush t)
      else runOps usesFloat rest (index + 1) d t
    | none =>
      let t := d.flush t
      if t.cpu.pc != op.address || t.cpu.inDelaySlot != op.inDelaySlot then leave index t
      else
        let ⟨cpu, vector⟩ := t
        let planned := cpu.plan op.instruction
        match cpu.execute op.word planned with
        | (.error e, cpu) => (.error e, ⟨cpu, vector⟩)
        | (.ok retired, cpu) =>
          let t := countOp ⟨cpu, vector⟩
          if retired.trapped then leave (index + 1) t
          else
            let t := t.onCpu Cpu.updateInterrupts
            if mustLeave usesFloat t.cpu then leave (index + 1) t
            else runOps usesFloat rest (index + 1) ⟨0, t.cpu.pc⟩ t

/-- Runs a fragment from the instruction at `pc`. -/
def run (f : Fragment) (t : Tandem) : Except FatalError FragmentExit × Tandem :=
  let t := t.count fun s => { s with fragmentRuns := s.fragmentRuns + 1 }
  runOps f.usesFloat f.ops 0 ⟨0, t.cpu.pc⟩ t

end Fragment

end Vr4300
