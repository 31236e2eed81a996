import Vr4300.Proofs.Follows
import Vr4300.Proofs.Host

/-!
# `Proofs.Equivalence` — the recompiler is not noticed

Two machines start in the same state with an empty fragment cache. One interprets; the other may record and
run fragments, as eagerly as its settings say. As long as the code is stable, every call gives the same result
on both, and afterwards they look the same (`recompiler_unnoticed`): registers, memory, devices, events,
clocks, the counters of the program. What differs is which instructions came from a fragment.

A run is followed turn by turn (`Follows.loop`). What is left is what a run does around its turns: it sets a
deadline, and takes it away.

## Contents

* `Call`, `Machine.serve`, `Machine.served`: calls of the host, their results and their instructions;
* `Follows.prepare`, `Follows.run`, `Follows.serve`;
* `recompiler_unnoticed`, and a loop that gets hot.
-/

namespace Vr4300

/-! ## Calls -/

/-- A call of the host while a machine is in use. -/
inductive Call where
  /-- It runs the machine. -/
  | run (budget : UInt64)
  /-- It asks for a halt. -/
  | requestHalt
deriving DecidableEq, Repr, Inhabited

namespace Machine

/-- Serves calls in order, with the result of each run. -/
def serve : List Call → Machine → List (Option (Except FatalError Exit)) × Machine
  | [], m => ([], m)
  | .run budget :: rest, m =>
    ((m.run budget).1 :: (serve rest (m.run budget).2).1, (serve rest (m.run budget).2).2)
  | .requestHalt :: rest, m => serve rest m.requestHalt

/-- The instructions that are executed in calls. -/
def served : List Call → Machine → List Execution
  | [], _ => []
  | .run budget :: rest, m => m.executions budget ++ served rest (m.run budget).2
  | .requestHalt :: rest, m => served rest m.requestHalt

/-- The machine with other settings of the recompiler, and nothing learned yet. -/
def withRecompiler (m : Machine) (s : RecompilerSettings) : Machine := { m with cache := .create s }

namespace Follows

variable {a b : Machine} {fs later : List Execution}

/-- Both get a deadline. -/
theorem prepare (h : Follows a b fs) {budget : UInt64} (h0 : budget ≠ 0) (hfree : a.cpu.deadline? = none) :
    Follows (a.prepare budget) (b.prepare budget) fs := by
  have hschedule (c : Cpu) (n : Int) :
      (c.schedule .runForCycles n .budgetSpent).shown = c.shown.schedule .runForCycles n .budgetSpent := by
    unfold Cpu.schedule
    rw [show c.shown.events = c.events from rfl]
    cases c.events.add .runForCycles n .budgetSpent <;> rfl
  have hkeep {α : Type} (f : Cpu → α) (hf : ∀ c events, f { c with events := events } = f c) (n : Int) :
      f (b.cpu.schedule .runForCycles n .budgetSpent) = f b.cpu := by
    unfold Cpu.schedule
    split
    · exact hf _ _
    · rfl
  -- the place to resume at is forgotten first, on both sides
  let forget (m : Machine) : Machine := { m with resumeAt := none }
  have hforget : Follows (forget a) (forget b) fs := { h with visible := congrArg forget h.visible }
  refine hforget.onCpu
    (f := fun c => c.schedule .runForCycles (min budget.toNat longestRun : Nat) .budgetSpent) ?_ ?_ ?_ ?_ ?_
  · rw [hschedule, hschedule, shown_of_visible hforget.visible]
  · exact ⟨timed_prepare h0 h.orderly.timed hfree, gated_prepare h.orderly.gated budget⟩
  · exact hkeep Cpu.codeInvalidations (fun _ _ => rfl) _
  · exact hkeep Cpu.tlbDirty (fun _ _ => rfl) _
  · exact fun hslot => (hkeep Cpu.inDelaySlot (fun _ _ => rfl) _).trans hslot

/-- Both lose it. -/
theorem finish (h : Follows a b fs) : Follows (a.onCpu Machine.finish) (b.onCpu Machine.finish) fs := by
  refine h.onCpu (f := Machine.finish) ?_ ⟨(timed_finish h.orderly.timed).1, h.orderly.gated⟩ rfl rfl id
  exact congrArg (fun c : Cpu => { c with events := c.events.erase .runForCycles }) (shown_of_visible h.visible)

theorem requestHalt (h : Follows a b fs) : Follows a.requestHalt b.requestHalt fs := by
  refine h.onCpu (f := fun c => { c with breakout := some .halted }) ?_
    ⟨h.orderly.timed.of_events rfl, h.orderly.gated⟩ rfl rfl id
  exact congrArg (fun c : Cpu => { c with breakout := some Exit.halted }) (shown_of_visible h.visible)

/-- **A run** ends on both sides, and with the same result. -/
theorem run {budget : UInt64} (h : Follows a b (a.executions budget ++ later))
    (hstable : CodeStable (a.executions budget ++ later)) (hfree : a.cpu.deadline? = none) :
    (a.run budget).1 ≠ none ∧ (b.run budget).1 = (a.run budget).1 ∧
      Follows (a.run budget).2 (b.run budget).2 later ∧ (a.run budget).2.cpu.deadline? = none := by
  rcases eq_or_ne budget 0 with rfl | h0
  · rw [run_zero, run_zero]
    exact ⟨Option.some_ne_none _, rfl, h.mono (List.subset_append_right _ _), hfree⟩
  · have hexec := a.executions_eq h0
    have hprepare := h.prepare h0 hfree
    have hresume : b.resumeAt = a.resumeAt := congrArg (fun m => m.resumeAt) h.visible.symm
    have hturns : (b.prepare budget).turnsToEnd = (a.prepare budget).turnsToEnd := by
      unfold turnsToEnd
      rw [Cpu.same_of_shown (shown_of_visible hprepare.visible) Cpu.events fun _ => rfl]
    -- the interpreter has turns enough, and the recompiler takes no more
    have hends : (Machine.loop (a.prepare budget).turnsToEnd a.resumeAt (a.prepare budget)).1 ≠ none :=
      interpreter_ends _ _ _ hprepare.interprets hprepare.orderly (suffices_prepare h0 h.orderly.timed hfree)
    rw [hexec] at hprepare hstable
    obtain ⟨hresult, hfollows⟩ := Follows.loop _ _ _ _ _ _ (Nat.le_refl _) hprepare hstable hends
    rw [run_eq a h0, run_eq b h0, hturns, hresume]
    exact ⟨hends, hresult, hfollows.finish, (timed_finish hfollows.orderly.timed).2⟩

/-- **Calls in order**, likewise. -/
theorem serve (calls : List Call) :
    ∀ {a b : Machine}, Follows a b (a.served calls) → CodeStable (a.served calls) →
      a.cpu.deadline? = none →
      (∀ r ∈ (a.serve calls).1, r ≠ none) ∧ (b.serve calls).1 = (a.serve calls).1 ∧
        (b.serve calls).2.visible = (a.serve calls).2.visible := by
  induction calls with
  | nil => intro a b h _ _; exact ⟨by simp [Machine.serve], rfl, h.visible.symm⟩
  | cons call rest ih =>
    intro a b h hstable hfree
    cases call with
    | run budget =>
      obtain ⟨hends, hresult, hfollows, hfree'⟩ := h.run hstable hfree
      obtain ⟨hall, hresults, hvisible⟩ := ih hfollows (hstable.suffix (List.suffix_append _ _)) hfree'
      refine ⟨?_, congrArg₂ List.cons hresult hresults, hvisible⟩
      intro r hr
      rcases List.mem_cons.mp hr with rfl | hr
      · exact hends
      · exact hall r hr
    | requestHalt => exact ih h.requestHalt hstable hfree

end Follows

/-- **The recompiler is not noticed.** From any state that a host can reach, with any settings of the
recompiler and nothing learned yet, every call returns what it returns on a machine that only interprets, and
afterwards the two look the same; provided that the instructions of these calls are fetched from main memory
through an unmapped window, and that they are not overwritten. -/
theorem recompiler_unnoticed (config : Configuration) (bus : Bus) (vector : VectorUnit)
    (past : List HostAction) (s s' : RecompilerSettings) (calls : List Call)
    (hstable : CodeStable
      ((((create config bus vector).performAll past).withRecompiler
        { s with enabled := false }).served calls)) :
    let m := (create config bus vector).performAll past
    let interpreter := (m.withRecompiler { s with enabled := false }).serve calls
    let recompiler := (m.withRecompiler s').serve calls
    (∀ r ∈ interpreter.1, r ≠ none) ∧ recompiler.1 = interpreter.1 ∧
      recompiler.2.visible = interpreter.2.visible := by
  intro m interpreter recompiler
  have hrest := (atRest_of_actions config bus vector past).1
  refine Follows.serve calls (a := m.withRecompiler { s with enabled := false }) (b := m.withRecompiler s') ?_
    hstable hrest.free
  exact ⟨rfl, rfl, ⟨hrest.ticking.timed, hrest.gated⟩, FragmentCache.faithful_create s' _,
    FragmentCache.poised_create s' _, .inl fun id => FragmentCache.get?_create s' id⟩

/-- A machine in front of a loop that counts in a register. -/
def counting : Machine :=
  (create { general := { startPc := 0xFFFFFFFF80000000 }, memory := { ramSize := 16 } } {} {}).performAll
    [.edit (.loadProgram 0 [0x24210001, 0x1000FFFE, 0])]

/-- The loop gets hot in the first call, and runs as a fragment in the others. -/
theorem recompiler_unnoticed_counting :
    let eager : RecompilerSettings := { hotThreshold := 0 }
    let calls : List Call := [.run 14, .requestHalt, .run 7, .run 7]
    let interpreter := (counting.withRecompiler { eager with enabled := false }).serve calls
    let recompiler := (counting.withRecompiler eager).serve calls
    recompiler.2.cpu.statistics.fragmentRuns ≠ 0 ∧
      (∀ r ∈ interpreter.1, r ≠ none) ∧ recompiler.1 = interpreter.1 ∧
      recompiler.2.visible = interpreter.2.visible :=
  ⟨by decide +kernel, recompiler_unnoticed _ _ _ _ { hotThreshold := 0 } { hotThreshold := 0 }
    [.run 14, .requestHalt, .run 7, .run 7] (by decide +kernel)⟩

end Machine

end Vr4300
