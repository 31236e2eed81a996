import Vr4300.Proofs.Execution

/-!
# `Proofs.FloatGate` — the floating-point unit is usable when Status says so

The processor keeps the answer of Status in a field of its own, `floatUsable`, and asks the field before each
floating-point instruction; a fragment asks Status itself, once. Both answers are the same at every
instruction boundary: whatever writes Status brings the field up to date at once, and nothing else touches
either of them.

## Contents

* `Cpu.planGuarded_of_usable`: while it allows them, instructions do what their words say;
* `Cpu.Gated`: the field is what Status says;
* one lemma per operation; `Quiet.gated`, `Execution.gated_after`, `Chain.gated`.
-/

namespace Vr4300

namespace ControlRegisters

open Control

/-- A software write of another register leaves Status alone. -/
theorem hasStatus_write? {b b' : ControlRegisters} {r : Reg} {v : UInt64} (h : b.write? r v = some b')
    (hr : r ≠ status) (bit : UInt64) : b'.hasStatus bit = b.hasStatus bit := by
  unfold write? at h
  split at h
  · obtain rfl := Option.some.inj h
    exact hasStatus_put b _ bit hr
  · cases h
  · obtain rfl := Option.some.inj h
    exact hasStatus_put b v bit hr

end ControlRegisters

namespace Cpu

open Control

/-- An instruction that may use the floating-point unit is what its word says. -/
theorem planGuarded_of_usable {c : Cpu} {i : Instruction} (h : i.needsFloat = true → c.floatUsable = true) :
    c.planGuarded i = c.plan i := by
  unfold planGuarded
  cases hneeds : i.needsFloat with
  | false => rfl
  | true => rw [h hneeds]; rfl

/-- **The derived field is what Status says.** -/
def Gated (c : Cpu) : Prop := c.floatUsable = c.statusFloatUsable

namespace Gated

variable {c c' : Cpu}

theorem of_eq (h : c.Gated) (hf : c'.floatUsable = c.floatUsable)
    (hs : c'.statusFloatUsable = c.statusFloatUsable) : c'.Gated :=
  hf.trans (Eq.trans h hs.symm)

/-- Writing a register other than Status. -/
theorem put (h : c.Gated) {r : Reg} (v : UInt64) (hr : r ≠ status) : Gated { c with cp0 := c.cp0.put r v } :=
  h.of_eq rfl (ControlRegisters.hasStatus_put c.cp0 v statusCU1 hr)

theorem updateInterrupts (h : c.Gated) : c.updateInterrupts.Gated :=
  h.of_eq rfl (ControlRegisters.hasStatus_sample c.cp0 c.line statusCU1)

theorem schedule (h : c.Gated) (kind : EventKind) (n : Int) (action : TimerAction) :
    (c.schedule kind n action).Gated := by
  unfold Cpu.schedule
  split
  · exact h
  · exact h

theorem scheduleCompare (h : c.Gated) : c.scheduleCompare.Gated :=
  schedule (c := { c with events := c.events.erase .compare }) h .compare _ .compareMatch

end Gated

/-- Whatever Status was changed to. -/
theorem gated_statusChanged (c : Cpu) : c.statusChanged.Gated :=
  Gated.updateInterrupts (c := { c with
    fpr := c.fpr.select (c.cp0.hasStatus statusFR)
    floatUsable := c.statusFloatUsable }) rfl

theorem gated_takeException (c : Cpu) (t : Trap) (inDelay : Bool) : (c.takeException t inDelay).Gated :=
  gated_statusChanged _

theorem gated_reset (c : Cpu) : c.reset.Gated :=
  (gated_statusChanged _).scheduleCompare.updateInterrupts

namespace Gated

variable {c : Cpu}

theorem writeControl (h : c.Gated) (r : Reg) (v : UInt64) : (c.writeControl r v).Gated := by
  unfold Cpu.writeControl
  cases hw : c.cp0.write? r v with
  | none => exact h
  | some cp0 =>
    have hput (hr : r ≠ status) : Gated { c with cp0 := cp0 } :=
      h.of_eq rfl (ControlRegisters.hasStatus_write? hw hr statusCU1)
    dsimp only
    split
    · rename_i hr
      exact (hput (hr ▸ by decide)).scheduleCompare
    split
    · rename_i hr
      exact ((hput (hr ▸ by decide)).put _ (by decide)).scheduleCompare.updateInterrupts
    split
    · exact gated_statusChanged _
    · rename_i hr
      split
      · exact (hput hr).updateInterrupts
      split
      · exact hput hr
      · exact hput hr

theorem readAt (h : c.Gated) (w : Width) (l : Location) : (c.readAt w l).2.Gated := by
  cases l <;> exact h

theorem writeAt (h : c.Gated) (w : Width) (l : Location) (v : UInt64) : (c.writeAt w l v).Gated := by
  cases l <;> exact h

theorem deliver (h : c.Gated) (w : Width) (v : UInt64) (d : Destination) : (c.deliver w v d).Gated := by
  cases d with
  | linked rt physical => exact h.put _ (by decide)
  | float p ft => cases p <;> exact h
  | _ => exact h

theorem showEntry (h : c.Gated) (e : TlbEntry) : (c.showEntry e).Gated :=
  (((h.put _ (by decide)).put _ (by decide)).put _ (by decide)).put _ (by decide)

/-- No effect leaves the field behind. -/
theorem apply (h : c.Gated) (e : Effect) : (c.apply e).Gated := by
  cases e with
  | load w source into => exact (h.readAt w source).deliver w _ into
  | store w target v => exact h.writeAt w target v
  | storeMasked w target v mask => exact (h.readAt w target).writeAt w target _
  | storeLinked w target v rt => exact h.writeAt w target v
  | control rd v => exact h.writeControl rd v
  | entryRegisters e => exact h.showEntry e
  | index v => exact h.put v (by decide)
  | leaveException => exact gated_statusChanged _
  | float p fd bits fcr31 => cases p <;> exact h
  | _ => exact h

theorem follow (h : c.Gated) (base : UInt64) (f : Flow) : (c.follow base f).Gated := by
  cases f <;> exact h

theorem passCycles (h : c.Gated) (n : UInt64) : (c.passCycles n).Gated := h.put _ (by decide)

/-- An event leaves the field alone, or samples the line. -/
theorem perform (h : c.Gated) (action : TimerAction) (rest : Schedule TimerAction) :
    (Scheduled.perform action { c with events := rest } : Cpu).Gated := by
  cases action with
  | compareMatch =>
    have hcause : Gated { c with cp0 := c.cp0.setBits cause causeIP7, events := rest } :=
      put (c := { c with events := rest }) h _ (by decide)
    exact (hcause.schedule .compare comparePeriod .compareMatch).updateInterrupts
  | budgetSpent => exact h

theorem fireDue (limit : Nat) : ∀ {c : Cpu}, c.Gated → (Vr4300.fireDue limit c).Gated := by
  induction limit with
  | zero => exact fun h => h
  | succ limit ih =>
    intro c h
    unfold Vr4300.fireDue
    split
    · exact h
    · exact ih (h.perform _ _)

theorem retire (h : c.Gated) : c.retire.Gated :=
  fireDue _ (h.passCycles 1)

theorem skipIdle (h : c.Gated) : c.skipIdle.Gated := by
  rw [skipIdle_eq]
  split
  · exact h.passCycles (UInt64.ofNat c.idleCycles)
  · exact h

end Gated

end Cpu

theorem Quiet.gated {a b : Cpu} (h : Quiet a b) (ha : a.Gated) : b.Gated := by
  cases h with
  | sample => exact ha.updateInterrupts
  | interrupt => exact Cpu.gated_takeException _ _ _
  | outside => exact ha

namespace Execution

theorem gated_worked {e : Execution} {b : Cpu} (h : e.worked = some b) (he : e.before.Gated) : b.Gated := by
  rcases worked_cases h with ⟨p, -, rfl⟩ | ⟨-, fcr31, t, rfl⟩
  · exact (he.apply p.effect).follow _ p.flow
  · exact Cpu.gated_takeException _ _ _

theorem gated_after {e : Execution} (he : e.before.Gated) : e.after.Gated := by
  rw [e.after_eq]
  cases hw : e.worked with
  | none => exact he
  | some b =>
    have hb := (gated_worked hw he).retire
    dsimp only
    split
    · exact hb.skipIdle
    · exact hb

end Execution

/-- **A chain** keeps the derived field up to date. -/
theorem Chain.gated {a b : Cpu} {es : List Execution} (h : Chain a es b) (ha : a.Gated) : b.Gated :=
  h.preserves (fun _ _ hq => hq.gated) (fun _ _ => Execution.gated_after) ha

end Vr4300
