import Vr4300.Proofs.Consistency
import Vr4300.Proofs.Margin

/-!
# `Proofs.Notes` — the notes that instructions leave for the fragment cache

Two instructions change what other instructions are read from: a write of a TLB entry, and an operation on a line
of the instruction cache. The processor carries neither out on the fragment cache. It leaves a note, and behind
the instruction the machine looks at it: a fragment is left at once, and the turn ends with `Machine.drain`.

## Contents

* `Effect.isNoted`, `Execution.leavesNote`; `Cpu.Noted`: a note waits;
* `notes_after`, `noted_after`: the note behind the instruction;
* `Fragment.runEach_leavesNote`: a fragment is left behind it, with the note;
* `Machine.Turn.noted`: a turn with such an instruction goes on, and drains what the instruction has left.
-/

namespace Vr4300

/-- The effect is a note. -/
def Effect.isNoted : Effect → Bool
  | .tlbEntry _ _ | .invalidateCode _ => true
  | _ => false

/-- The instruction leaves a note. -/
def Execution.leavesNote (e : Execution) : Bool :=
  match e.planned with
  | .ok p => p.effect.isNoted
  | .error _ => false

namespace Cpu

/-- A note waits. -/
def Noted (c : Cpu) : Prop := c.codeInvalidations ≠ [] ∨ c.tlbDirty = true

/-- The notes of a processor: the ranges of overwritten instructions, and whether an entry was replaced. -/
def notes (c : Cpu) : List (UInt64 × UInt64) × Bool := (c.codeInvalidations, c.tlbDirty)

theorem notes_follow (c : Cpu) (base : UInt64) (f : Flow) : (c.follow base f).notes = c.notes := by
  cases f <;> rfl

theorem notes_retire (c : Cpu) : c.retire.notes = c.notes := by
  have h := congrArg notes (retire_adorn c c.margin)
  exact h

theorem notes_skipIdle (c : Cpu) : c.skipIdle.notes = c.notes := by
  have h := congrArg notes (skipIdle_adorn c c.margin)
  exact h

end Cpu

namespace Execution

variable {e : Execution}

theorem exists_of_leavesNote (h : e.leavesNote = true) : ∃ p, e.planned = .ok p ∧ p.effect.isNoted = true := by
  unfold leavesNote at h
  split at h
  · rename_i p hplanned
    exact ⟨p, hplanned, h⟩
  · cases h

/-- An instruction that leaves a note completes, without an exception. -/
theorem outcome_of_leavesNote (h : e.leavesNote = true) :
    e.outcome = (.ok ⟨e.before.pc, e.word, e.before.inDelaySlot, false⟩, e.after) := by
  obtain ⟨p, hplanned, -⟩ := exists_of_leavesNote h
  unfold after outcome
  rw [hplanned]
  rfl

/-- **The note** is what the effect leaves; nothing behind the effect touches it. -/
theorem notes_after {p : Plan} (h : e.planned = .ok p) : e.after.notes = (e.before.apply p.effect).notes := by
  rw [e.after_eq, worked_of_plan h]
  dsimp only
  split
  · rw [Cpu.notes_skipIdle, Cpu.notes_retire, Cpu.notes_follow]
  · rw [Cpu.notes_retire, Cpu.notes_follow]

theorem noted_after (h : e.leavesNote = true) : e.after.Noted := by
  obtain ⟨p, hplanned, heffect⟩ := exists_of_leavesNote h
  have hnotes := notes_after hplanned
  obtain ⟨hcode, hdirty⟩ := Prod.mk.inj hnotes
  unfold Cpu.Noted
  rw [hcode, hdirty]
  cases heq : p.effect with
  | tlbEntry i entry => exact .inr rfl
  | invalidateCode address => exact .inl (by simp [Cpu.apply, Cpu.invalidateCode])
  | _ =>
    rw [heq] at heffect
    cases heffect

end Execution

namespace Fragment

variable {usesFloat : Bool} {op : FragmentOp} {t : Tandem}

/-- An instruction that leaves a note is not deferred: a deferred one writes registers only. -/
theorem deferredPlan?_of_leavesNote (h : (execution op t.cpu).leavesNote = true) :
    deferredPlan? ⟨0, t.cpu.pc⟩ t.cpu op = none := by
  cases hp : deferredPlan? ⟨0, t.cpu.pc⟩ t.cpu op with
  | none => rfl
  | some p =>
    obtain ⟨q, hplanned, heffect⟩ := Execution.exists_of_leavesNote h
    obtain ⟨hkind, -, -, -, -, -⟩ := Deferred.admits_of_plan hp
    obtain ⟨e, hplan, hcases⟩ := plan_of_trivial hkind t.cpu
    obtain rfl : ({ effect := e } : Plan) = q := Except.ok.inj (hplan.symm.trans hplanned)
    rcases hcases with rfl | ⟨rd, v, rfl⟩ | ⟨v, rfl⟩ <;> cases heffect

/-- The machine looks behind it. -/
theorem looksAfter_of_leavesNote (h : (execution op t.cpu).leavesNote = true) {after : Cpu} (hn : after.Noted) :
    looksAfter usesFloat op t.cpu after = true := by
  unfold looksAfter
  rw [deferredPlan?_of_leavesNote h]
  show mustLeave usesFloat after = true
  unfold mustLeave
  rcases hn with hcode | hdirty
  · simp [hcode]
  · simp [hdirty]

/-- **A fragment is left behind an instruction that leaves a note**, with the note. -/
theorem runEach_leavesNote {e : Execution} (hw : e.leavesNote = true) (ops : List FragmentOp) :
    ∀ (index : Nat) (t : Tandem), e ∈ executions usesFloat ops t →
      ∃ exit t', runEach usesFloat ops index t = (.ok exit, t') ∧ t'.cpu.notes = e.after.notes := by
  induction ops with
  | nil => intro index t he; cases he
  | cons op rest ih =>
    intro index t he
    have hstep := opStep usesFloat op rest index t
    generalize executions usesFloat (op :: rest) t = es at hstep he
    generalize runEach usesFloat (op :: rest) index t = out at hstep ⊢
    have hsettled {cpu : Cpu} {r : Except FatalError Retired} (hhere : e = execution op t.cpu)
        (h : (execution op t.cpu).outcome = (r, cpu)) : (settled cpu t.vector).cpu.notes = e.after.notes := by
      rw [settled_same Cpu.notes (fun _ _ _ => rfl), hhere]
      exact congrArg Cpu.notes (congrArg Prod.snd h).symm
    have hout {cpu : Cpu} {r : Except FatalError Retired} (hhere : e = execution op t.cpu)
        (h : (execution op t.cpu).outcome = (r, cpu)) :
        ∃ retired : Retired, r = .ok retired ∧ retired.trapped = false := by
      have hok := Execution.outcome_of_leavesNote (hhere ▸ hw)
      exact ⟨_, (Prod.mk.inj (h.symm.trans hok)).1, rfl⟩
    cases hstep with
    | away _ => cases he
    | fatal _ _ h =>
      obtain ⟨_, hr, -⟩ := hout (List.mem_singleton.mp he) h
      cases hr
    | trapped _ _ h ht =>
      obtain ⟨_, hr, hfalse⟩ := hout (List.mem_singleton.mp he) h
      obtain rfl := Except.ok.inj hr
      cases ht.symm.trans hfalse
    | look _ _ h _ _ => exact ⟨_, _, rfl, hsettled (List.mem_singleton.mp he) h⟩
    | @next _ _ _ cpu h _ hl =>
      rcases List.mem_cons.mp he with hhere | he
      · obtain ⟨hcode, hdirty⟩ := Prod.mk.inj (hsettled hhere h)
        have hnoted : (settled cpu t.vector).cpu.Noted := by
          unfold Cpu.Noted
          rw [hcode, hdirty]
          exact Execution.noted_after hw
        cases hl.symm.trans (looksAfter_of_leavesNote (hhere ▸ hw) hnoted)
      · exact ih _ _ he

end Fragment

namespace Machine

variable {m : Machine} {limit : Nat}

theorem notes_observe (m : Machine) (retired : Retired) : (m.observe retired).cpu.notes = m.cpu.notes := by
  unfold observe
  dsimp only
  split <;> rfl

theorem notes_interpreted (cpu : Cpu) (v : VectorUnit) : (interpreted cpu v).cpu.notes = cpu.notes := by
  unfold interpreted Tandem.count Tandem.onCpu Tandem.stepVector
  dsimp only
  cases v.drive (v.steps + 1) <;> rfl

/-- **A turn with an instruction that leaves a note** goes on. It ends by looking at what the instruction has
left, in a machine with a consistent cache. -/
theorem Turn.noted {resumeAt : Option UInt64} {es : List Execution}
    {out : Option (Except FatalError Exit) × Machine} (ht : Turn m resumeAt es out) (hT : m.cpu.Timed)
    (h : m.cache.Consistent limit) {e : Execution} (he : e ∈ es) (hw : e.leavesNote = true) :
    out.1 = none ∧ ∃ k : Machine, out.2 = k.drain ∧ k.cpu.notes = e.after.notes ∧ k.cache.Consistent limit := by
  have hlookup : m.takeInterrupt.lookup.2.cache.Consistent limit :=
    consistent_lookup (m := m.takeInterrupt) h
  cases ht with
  | stop _ => cases he
  | breakpoint _ _ => cases he
  | fatal _ _ _ hx =>
    obtain rfl := List.mem_singleton.mp he
    cases (Prod.mk.inj (hx.symm.trans (Execution.outcome_of_leavesNote hw))).1
  | @interpret _ _ _ retired cpu hx =>
    obtain rfl := List.mem_singleton.mp he
    let k := m.takeInterrupt.lookup.2.withTandem (interpreted cpu m.tandem.vector)
    have hnotes : (k.observe retired).cpu.notes = cpu.notes :=
      (notes_observe k retired).trans (notes_interpreted cpu m.tandem.vector)
    refine ⟨rfl, k.observe retired, rfl, ?_, consistent_observe (m := k) hlookup retired⟩
    rw [hnotes]
    exact congrArg Cpu.notes (congrArg Prod.snd hx).symm
  | fragmentFatal _ _ _ _ hx =>
    obtain ⟨exit, t', hrun, -⟩ := Fragment.runEach_leavesNote hw _ 0 _ he
    rw [runOps_entered hT, hrun] at hx
    cases hx
  | @fragment _ _ id hl f hf exit t hx =>
    obtain ⟨exit', t', hrun, hnotes⟩ := Fragment.runEach_leavesNote hw _ 0 _ he
    have hleft := consistent_left (m := m.takeInterrupt) hlookup hl hf hx
    rw [runOps_entered hT, hrun] at hx
    obtain ⟨-, rfl⟩ := Prod.mk.inj hx
    exact ⟨rfl, _, rfl, hnotes, hleft⟩

end Machine

end Vr4300
