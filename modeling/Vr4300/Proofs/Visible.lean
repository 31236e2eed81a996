import Vr4300.Proofs.Deadline
import Vr4300.Proofs.FloatGate
import Vr4300.Proofs.Margin

/-!
# `Proofs.Visible` — what is seen of a machine

How a machine executes its instructions shows in the fragment cache, in counters of the recompiler, and in
the places where it samples the line. `Machine.visible` is all the rest: the machine with the line sampled
once more. Nothing that the machine does to its cache is visible, and what the host does, and a turn that
does not enter a fragment, depends on the visible part only.

The second part is about the interpreter, a machine that is not allowed to record. Each of its turns executes
one instruction, and it gets to the end of its runs (`interpreter_ends`).

## Contents

* `Cpu.shown`, `Machine.visible`;
* `visible_drain`, `visible_observe`, …: what is not visible;
* `Cpu.Orderly`: nothing is due, and the floating-point gate is up to date;
* `Machine.Shows`, `interpreter_fatal`, `interpreter_turn`;
* `Suffices`, `interpreter_ends`: the interpreter gets to the end of a run.
-/

namespace Vr4300

namespace Cpu

/-- What is seen of a processor: the line is sampled, and what only the recompiler knows is masked. -/
def shown (c : Cpu) : Cpu := c.updateInterrupts.masked

variable {c c' : Cpu}

theorem Like.shown (h : Like c c') : c.shown = c'.shown := h.updateInterrupts

theorem shown_updateInterrupts (c : Cpu) : c.updateInterrupts.shown = c.shown := by
  unfold shown
  rw [updateInterrupts_updateInterrupts]

/-- What sampling leaves alone is seen. -/
theorem same_of_shown {α : Type} (h : c.shown = c'.shown) (f : Cpu → α)
    (hf : ∀ c, f c.updateInterrupts.masked = f c) : f c' = f c := by
  rw [← hf c, ← hf c', show c.updateInterrupts.masked = c'.updateInterrupts.masked from h]

/-- Interrupts are delivered alike. -/
theorem like_takePending (h : c.shown = c'.shown) : Like c.takePending c'.takePending := by
  have hlike : Like c.updateInterrupts c'.updateInterrupts := h
  have hpending := hlike.same Cpu.interruptsPending fun _ => rfl
  have hslot : c'.inDelaySlot = c.inDelaySlot := same_of_shown h Cpu.inDelaySlot fun _ => rfl
  rcases c.takePending_cases with ⟨hp, htake⟩ | ⟨hp, htake⟩
  · rcases c'.takePending_cases with ⟨-, htake'⟩ | ⟨hp', -⟩
    · rw [htake, htake']
      exact hlike
    · rw [hpending, hp] at hp'
      cases hp'
  · rcases c'.takePending_cases with ⟨hp', -⟩ | ⟨-, htake'⟩
    · rw [hpending, hp] at hp'
      cases hp'
    · rw [htake, htake', hslot]
      exact hlike.takeException .interrupt c.inDelaySlot

/-- Nothing is due, and the floating-point gate is up to date. -/
structure Orderly (c : Cpu) : Prop where
  /-- Nothing is due. -/
  timed : c.Timed
  /-- The derived field is what Status says. -/
  gated : c.Gated

namespace Orderly

theorem of_shown (h : c.Orderly) (hs : c.shown = c'.shown) : c'.Orderly := by
  refine ⟨h.timed.of_events (same_of_shown hs Cpu.events fun _ => rfl), ?_⟩
  refine h.gated.of_eq (same_of_shown hs Cpu.floatUsable fun _ => rfl) ?_
  exact same_of_shown hs Cpu.statusFloatUsable fun c =>
    ControlRegisters.hasStatus_sample c.cp0 c.line Control.statusCU1

theorem chain (h : c.Orderly) {es : List Execution} (hc : Chain c es c') : c'.Orderly :=
  ⟨hc.timed h.timed, hc.gated h.gated⟩

theorem takePending (h : c.Orderly) : c.takePending.Orderly := h.chain c.chain_takePending

theorem execute {e : Execution} (h : e.before.Orderly) : e.after.Orderly :=
  ⟨Execution.timed_after h.timed, Execution.gated_after h.gated⟩

end Orderly

end Cpu

namespace Machine

/-- **What is seen of a machine.** -/
def visible (m : Machine) : Machine :=
  { m with tandem := ⟨m.cpu.shown, m.tandem.vector⟩, cache := .create { enabled := false } }

variable {a b m : Machine}

theorem visible_withTandem {t t' : Tandem} (h : t.cpu.shown = t'.cpu.shown) (hv : t.vector = t'.vector) :
    (m.withTandem t).visible = (m.withTandem t').visible := by
  show ({ m with tandem := ⟨t.cpu.shown, t.vector⟩, cache := _ } : Machine) =
    { m with tandem := ⟨t'.cpu.shown, t'.vector⟩, cache := _ }
  rw [h, hv]

theorem shown_of_visible (h : a.visible = b.visible) : a.cpu.shown = b.cpu.shown :=
  congrArg (fun m => m.tandem.cpu) h

theorem breakpoints_of_visible (h : a.visible = b.visible) : a.breakpoints = b.breakpoints :=
  congrArg (fun m => m.breakpoints) h

theorem vector_of_visible (h : a.visible = b.visible) : a.tandem.vector = b.tandem.vector :=
  congrArg (fun m => m.tandem.vector) h

/-- Other processors in machines that look alike. -/
theorem visible_withTandem_of_visible (h : a.visible = b.visible) (t t' : Tandem)
    (ht : t.cpu.shown = t'.cpu.shown) (hv : t.vector = t'.vector) :
    (a.withTandem t).visible = (b.withTandem t').visible := by
  show ({ a.visible with tandem := ⟨t.cpu.shown, t.vector⟩ } : Machine) =
    { b.visible with tandem := ⟨t'.cpu.shown, t'.vector⟩ }
  rw [h, ht, hv]

/-! ## What is not visible -/

theorem visible_observe (m : Machine) (retired : Retired) : (m.observe retired).visible = m.visible := by
  unfold observe
  dsimp only
  split
  · rfl
  · rfl

theorem inDelaySlot_observe (m : Machine) (retired : Retired) :
    (m.observe retired).cpu.inDelaySlot = m.cpu.inDelaySlot := by
  unfold observe
  dsimp only
  split
  · rfl
  · rfl

theorem visible_drain (m : Machine) : m.drain.visible = m.visible := by
  obtain ⟨n, cache, h, -⟩ := drain_eq (P := fun _ => True) (fun _ _ _ => trivial) (m := m) trivial
  rw [h]
  rfl

/-! ## The interpreter -/

theorem enabled_forget (x : FragmentCache) (entry : UInt64) : (x.forget entry).enabled = x.enabled := by
  have hdrop (id : FragmentId) : (x.dropCompiled entry id).enabled = x.enabled := by
    unfold FragmentCache.dropCompiled
    cases x.store.get? id <;> rfl
  unfold FragmentCache.forget
  dsimp only
  cases x.compiled? entry with
  | none => rfl
  | some id => exact hdrop id

theorem enabled_drain (m : Machine) : m.drain.cache.enabled = m.cache.enabled := by
  obtain ⟨n, cache, h, henabled⟩ := drain_eq (P := fun x => x.enabled = m.cache.enabled)
    (fun x entry hx => (enabled_forget x entry).trans hx) (m := m) rfl
  rw [h]
  exact henabled

/-- A cache that is switched off stays as it is. -/
theorem observe_of_disabled (h : m.cache.enabled = false) (retired : Retired) :
    m.observe retired = m := by
  have hobserve : m.cache.observe m.tandem.cpu retired = (false, m.cache) := by
    unfold FragmentCache.observe
    rw [h]
    rfl
  unfold observe
  dsimp only
  rw [hobserve]
  rfl

theorem lookup_of_disabled (h : m.cache.enabled = false) :
    m.lookup.1 = none ∧ m.lookup.2 = { m with cache := { m.cache with lastExit := none } } := by
  have hlookup : m.cache.lookup m.cpu m.breakpoints = (none, { m.cache with lastExit := none }) := by
    unfold FragmentCache.lookup
    dsimp only
    rw [h]
    rfl
  rw [lookup_fst, lookup_snd, hlookup]
  exact ⟨rfl, rfl⟩

/-- The interpreter's machine has come to the state of a tandem. -/
structure Shows (a : Machine) (t : Tandem) (a' : Machine) : Prop where
  /-- It looks the same. -/
  visible : a'.visible = (a.withTandem t).visible
  /-- It still interprets. -/
  interprets : a'.cache.enabled = false
  /-- It is in order. -/
  orderly : a'.cpu.Orderly

section

variable {resumeAt : Option UInt64}

theorem interpreter_executions (hoff : a.cache.enabled = false) (hb : a.cpu.breakout = none)
    (h : a.takeInterrupt.atBreakpoint resumeAt = false) :
    a.turnExecutions resumeAt = [a.takeInterrupt.cpu.nextExecution] :=
  (turnExecutions_eq hb h).1 (lookup_of_disabled (m := a.takeInterrupt) hoff).1

/-- The interpreter is in order before the instruction. -/
theorem orderly_nextExecution (h : a.cpu.Orderly) : a.takeInterrupt.cpu.nextExecution.before.Orderly :=
  h.takePending.chain (.single (Cpu.quiet_nextExecution a.takeInterrupt.cpu))

/-- An instruction that stops the interpreter. -/
theorem interpreter_fatal (hoff : a.cache.enabled = false) (ho : a.cpu.Orderly) (hb : a.cpu.breakout = none)
    (h : a.takeInterrupt.atBreakpoint resumeAt = false) {x : FatalError} {cpu : Cpu}
    (he : a.takeInterrupt.cpu.nextExecution.outcome = (.error x, cpu)) :
    ∃ a', a.turn resumeAt = (some (.error x), a') ∧ Shows a ⟨cpu, a.tandem.vector⟩ a' := by
  obtain ⟨hl, hsnd⟩ := lookup_of_disabled (m := a.takeInterrupt) hoff
  refine ⟨_, (turn_proceed hb h).1 _ _ (proceed_fatal hl he), ?_, ?_, ?_⟩
  · rw [hsnd]
    rfl
  · rw [hsnd]
    exact hoff
  · rw [show cpu = _ from Execution.eq_before_of_error he]
    exact orderly_nextExecution ho

/-- **An instruction of the interpreter.** -/
theorem interpreter_turn (hoff : a.cache.enabled = false) (ho : a.cpu.Orderly) (hb : a.cpu.breakout = none)
    (h : a.takeInterrupt.atBreakpoint resumeAt = false) {retired : Retired} {cpu : Cpu}
    (he : a.takeInterrupt.cpu.nextExecution.outcome = (.ok retired, cpu)) :
    ∃ a', a.turn resumeAt = (none, a') ∧ Shows a (interpreted cpu a.tandem.vector) a' := by
  obtain ⟨hl, hsnd⟩ := lookup_of_disabled (m := a.takeInterrupt) hoff
  let k := a.takeInterrupt.lookup.2.withTandem (interpreted cpu a.tandem.vector)
  have hk : k.cache.enabled = false := by
    show a.takeInterrupt.lookup.2.cache.enabled = false
    rw [hsnd]
    exact hoff
  have hvisible : (k.observe retired).drain.visible =
      (a.withTandem (interpreted cpu a.tandem.vector)).visible := by
    rw [visible_drain, visible_observe]
    show (a.takeInterrupt.lookup.2.withTandem (interpreted cpu a.tandem.vector)).visible = _
    rw [hsnd]
    rfl
  have hafter : a.takeInterrupt.cpu.nextExecution.after = cpu := congrArg Prod.snd he
  have hdone : (interpreted cpu a.tandem.vector).cpu.Orderly :=
    (hafter ▸ (orderly_nextExecution ho).execute).chain (.single (quiet_interpreted cpu a.tandem.vector))
  refine ⟨_, (turn_proceed hb h).2 _ (proceed_interpret hl he), hvisible, ?_, ?_⟩
  · rw [enabled_drain]
    exact (congrArg (fun m => m.cache.enabled) (observe_of_disabled hk retired)).trans hk
  · exact hdone.of_shown (shown_of_visible hvisible).symm

/-- So many turns are enough for a run to end. -/
def Suffices (n : Nat) (c : Cpu) : Prop :=
  c.breakout ≠ none ∧ 1 ≤ n ∨ ∃ left : Int, c.deadline? = some left ∧ left.toNat + 2 ≤ n

/-- A run cannot end without a turn. -/
theorem not_suffices_zero (c : Cpu) : ¬ Suffices 0 c := by
  rintro (⟨-, h⟩ | ⟨left, -, h⟩) <;> omega

/-- The turns of a run. -/
theorem suffices_prepare {m : Machine} {budget : UInt64} (h0 : budget ≠ 0) (hT : m.cpu.Timed)
    (hfree : m.cpu.deadline? = none) : Suffices (m.prepare budget).turnsToEnd (m.prepare budget).cpu := by
  refine .inr ⟨_, deadline?_prepare h0 hT hfree, ?_⟩
  rw [turnsToEnd_prepare h0 hT hfree]
  exact Nat.le_refl _

/-- Behind an instruction one turn less is enough. -/
theorem suffices_after {n : Nat} {e : Execution} {w : Cpu} (h : Suffices (n + 1) e.before)
    (hw : e.worked = some w) (hT : e.before.Timed) (hb : e.before.breakout = none) : Suffices n e.after := by
  obtain ⟨left, hleft, hn⟩ := h.resolve_left fun h => h.1 hb
  rcases Execution.deadline?_after hw hT with ⟨hd, -⟩ | ⟨hd, -, hstop⟩
  · have hpos : 1 ≤ left := (hT.agenda.ahead (.runForCycles, left)
      ((Schedule.until?_eq_some_iff hT.agenda.distinct).mp hleft)).1
    rw [hleft] at hd
    exact .inr ⟨left - 1 - e.idleCycles, hd, by omega⟩
  -- the deadline was reached, and the next turn sees it
  · obtain rfl := Option.some.inj (hleft.symm.trans hd)
    refine .inl ⟨?_, by omega⟩
    rw [hstop]
    exact Option.some_ne_none _

/-- What is seen decides. -/
theorem Suffices.of_shown {n : Nat} {c c' : Cpu} (h : Suffices n c) (hs : c.shown = c'.shown) :
    Suffices n c' := by
  unfold Suffices
  rw [Cpu.same_of_shown hs Cpu.breakout fun _ => rfl, Cpu.same_of_shown hs Cpu.deadline? fun _ => rfl]
  exact h

theorem Suffices.quiet {n : Nat} {c c' : Cpu} (h : Suffices n c) (hq : Quiet c c') : Suffices n c' := by
  unfold Suffices
  rw [hq.breakout, hq.deadline?]
  exact h

/-- An interrupt and the fetch of the next instruction take no turn. -/
theorem Suffices.nextExecution {n : Nat} (h : Suffices n a.cpu) (hb : a.cpu.breakout = none) :
    Suffices n a.takeInterrupt.cpu.nextExecution.before := by
  have htake : Chain a.cpu [] a.takeInterrupt.cpu := a.cpu.chain_takePending
  refine Suffices.quiet ?_ (Cpu.quiet_nextExecution a.takeInterrupt.cpu)
  obtain ⟨left, hleft, hn⟩ := h.resolve_left fun h => h.1 hb
  exact .inr ⟨left, (htake.deadline?_nil rfl).trans hleft, hn⟩

/-- **The interpreter gets to the end of a run**: the deadline comes closer with each instruction. -/
theorem interpreter_ends (n : Nat) :
    ∀ (resumeAt : Option UInt64) (a : Machine), a.cache.enabled = false → a.cpu.Orderly →
      Suffices n a.cpu → (loop n resumeAt a).1 ≠ none := by
  induction n with
  | zero => exact fun _ a _ _ hn => absurd hn (not_suffices_zero a.cpu)
  | succ n ih =>
    intro resumeAt a hoff ho hleft
    unfold loop
    cases hb : a.cpu.breakout with
    | some exit =>
      rw [(turn_stop hb resumeAt).2]
      exact Option.some_ne_none _
    | none =>
      cases hbp : a.takeInterrupt.atBreakpoint resumeAt with
      | true =>
        rw [(turn_breakpoint hb hbp).2]
        exact Option.some_ne_none _
      | false =>
        -- an instruction is executed: it ends the run, or brings the deadline closer
        rcases he : a.takeInterrupt.cpu.nextExecution.outcome with ⟨r, cpu⟩
        cases r with
        | error x =>
          obtain ⟨a', hturn, -⟩ := interpreter_fatal hoff ho hb hbp he
          rw [hturn]
          exact Option.some_ne_none _
        | ok retired =>
          obtain ⟨a', hturn, hshows⟩ := interpreter_turn hoff ho hb hbp he
          obtain ⟨w, hw⟩ := Execution.exists_worked he
          have hafter : a.takeInterrupt.cpu.nextExecution.after = cpu := congrArg Prod.snd he
          have hless := suffices_after (hleft.nextExecution hb) hw (orderly_nextExecution ho).timed
            ((Cpu.quiet_nextExecution _).breakout.trans ((Cpu.breakout_takePending a.cpu).trans hb))
          rw [hafter] at hless
          rw [hturn]
          exact ih none a' hshows.interprets hshows.orderly
            ((hless.quiet (quiet_interpreted cpu a.tandem.vector)).of_shown
              (shown_of_visible hshows.visible).symm)

end

end Machine

end Vr4300
