import Vr4300.Proofs.SideBySide

/-!
# `Proofs.FastForward` — forwarding time only saves time

Two interpreters start from the same state, and one of them forwards time through idle loops. The same events
fall due in both runs, at the same cycles, and each time the two processors agree; and both runs end with the
same result (`idle_skip_saves_time`).

It takes two conditions. An instruction behind which time is forwarded has to go round (`Execution.GoesRound`):
the test that finds an idle loop looks at the branch, its target and the word behind it, and not at whether the
branch would be executed again and lead to itself again. And time is forwarded to the cycle before an event,
whichever instruction of the loop the other machine executes in that cycle. An interrupt may therefore be taken in
front of the branch in one run and in front of its delay slot in the other. That shows only in the mark of the
delay slot in Cause, but a program may read it. Where one of the conditions fails, the runs may differ
(`forwarding_conditions_needed`).

## Contents

* `Pair.loop`: turns side by side;
* `idle_skip_saves_time`, and a loop that the timer interrupts;
* `Parted`, `forwarding_conditions_needed`: runs that forwarding parts.
-/

namespace Vr4300

namespace Machine

/-- **Turns side by side**: where an event falls due in one run it falls due in the other, and both end with
the same result. The induction is on the turns of the machine that does not forward time, since the other one
stands still while it catches up. -/
theorem Pair.loop (n : Nat) :
    ∀ (limit : Nat) (ra rb : Option UInt64) (traps : List Trap) (doubt : Bool) (a b : Machine), Pair a b →
      Related doubt a.cpu b.cpu → Suffices limit a.cpu → Suffices n b.cpu →
      (∀ e ∈ a.loopExecutions limit ra, e.idleCycles ≠ 0 → e.after.breakout = none → e.GoesRound) →
      a.loopDiscreet limit ra doubt = true →
      List.Forall₂ Firing.Agrees (a.loopFirings limit ra traps) (b.loopFirings n rb traps) ∧
        (Machine.loop n rb b).1 = (Machine.loop limit ra a).1 := by
  induction n with
  | zero =>
    intro limit ra rb traps doubt a b _ _ _ hn
    exact absurd hn (not_suffices_zero b.cpu)
  | succ n ih =>
    intro limit ra rb traps doubt a b h hrelated hlimit hn hround hdiscreet
    cases limit with
    | zero => exact absurd hlimit (not_suffices_zero a.cpu)
    | succ limit =>
      cases ha : a.cpu.breakout with
      | some exit =>
        -- both runs end
        obtain ⟨hnone, hturn⟩ := turn_stop ha ra
        obtain ⟨hnone', hturn'⟩ := turn_stop (hrelated.breakout.trans ha) rb
        rw [loop_of_some hturn, loop_of_some hturn']
        unfold loopFirings
        rw [hnone, hnone', hturn, hturn']
        exact ⟨.nil, rfl⟩
      | none =>
        have hexecutions := h.first.turnExecutions ha ra
        have hrounds := hround
        unfold loopExecutions at hrounds
        rw [hexecutions] at hrounds
        have hreads := hdiscreet
        unfold loopDiscreet at hreads
        rw [hexecutions] at hreads
        simp only [List.all_cons, List.all_nil, Bool.and_true, Bool.and_eq_true, List.foldl_cons, List.foldl_nil,
          Bool.not_eq_true', Bool.and_eq_false_iff] at hreads
        obtain ⟨hread, hreads⟩ := hreads
        rcases h.step ha hrelated ra rb (fun htaken => hread.resolve_left (by rw [htaken]; simp))
          (hrounds _ (List.mem_append_left _ (List.mem_singleton_self _))) with hjoint | halone
        · rcases hjoint.next with ⟨x, k, l, hturn, hturn'⟩ | ⟨k, l, hturn, hturn', hpair, hnext, hless⟩
          -- the instruction stops both
          · rw [loop_of_some hturn, loop_of_some hturn']
            unfold loopFirings
            rw [hturn, hturn', ← hjoint.traps]
            exact ⟨List.rel_append (hjoint.firings _) .nil, rfl⟩
          · rw [hturn] at hrounds hreads
            obtain ⟨hfirings, hresult⟩ := ih limit none none (traps ++ a.turnTraps ra) _ k l hpair hnext
              ((hless limit).1 hlimit) ((hless n).2 hn) (fun e he => hrounds e (List.mem_append_right _ he)) hreads
            rw [loop_of_none hturn, loop_of_none hturn']
            unfold loopFirings
            rw [hturn, hturn', ← hjoint.traps]
            exact ⟨List.rel_append (hjoint.firings _) hfirings, hresult⟩
        · obtain ⟨l, hturn, hpair, hnext, hless⟩ := halone.next
          have hsilent : b.loopFirings (n + 1) rb traps = l.loopFirings n none traps := by
            rw [loopFirings, halone.traps, List.append_nil, halone.firings, hturn]
            rfl
          rw [loop_of_none hturn, hsilent]
          exact ih (limit + 1) ra none traps doubt a l hpair hnext hlimit (hless n hn) hround hdiscreet

/-! ## Runs -/

theorem Plain.withIdleSkip {m : Machine} (h : m.Plain) (on : Bool) : (m.withIdleSkip on).Plain :=
  ⟨h.interprets, h.free, h.steady, h.orderly.timed.of_events rfl, h.orderly.gated.of_eq rfl rfl⟩

theorem Plain.prepare {m : Machine} (h : m.Plain) {budget : UInt64} (h0 : budget ≠ 0)
    (hfree : m.cpu.deadline? = none) : (m.prepare budget).Plain := by
  refine ⟨h.interprets, h.free, ?_, timed_prepare h0 h.orderly.timed hfree, gated_prepare h.orderly.gated budget⟩
  rw [cpu_prepare h0 hfree]
  exact h.steady

/-- Two machines in the same state, of which one forwards time. -/
theorem Plain.saves_time {m : Machine} (h : m.Plain) (hfree : m.cpu.deadline? = none) (budget : UInt64)
    (hround : ∀ e ∈ (m.withIdleSkip true).executions budget,
      e.idleCycles ≠ 0 → e.after.breakout = none → e.GoesRound)
    (hdiscreet : (m.withIdleSkip true).discreet budget = true) :
    List.Forall₂ Firing.Agrees ((m.withIdleSkip true).firings budget) ((m.withIdleSkip false).firings budget) ∧
      ((m.withIdleSkip false).run budget).1 = ((m.withIdleSkip true).run budget).1 ∧
      ((m.withIdleSkip true).run budget).1 ≠ none := by
  rcases eq_or_ne budget 0 with rfl | h0
  · have hnone (k : Machine) : k.firings 0 = [] := if_pos rfl
    rw [hnone, hnone, run_zero, run_zero]
    exact ⟨.nil, rfl, Option.some_ne_none _⟩
  · have hplain (on : Bool) : ((m.withIdleSkip on).prepare budget).Plain := (h.withIdleSkip on).prepare h0 hfree
    have hcpu (on : Bool) := cpu_prepare (m := m.withIdleSkip on) h0 hfree
    have hturns (on : Bool) : Suffices ((m.withIdleSkip on).prepare budget).turnsToEnd
        ((m.withIdleSkip on).prepare budget).cpu :=
      suffices_prepare h0 (h.withIdleSkip on).orderly.timed hfree
    have hpair : Pair ((m.withIdleSkip true).prepare budget) ((m.withIdleSkip false).prepare budget) := by
      refine ⟨hplain true, hplain false, ?_, ?_⟩ <;> rw [hcpu] <;> rfl
    have hrelated : Related false ((m.withIdleSkip true).prepare budget).cpu
        ((m.withIdleSkip false).prepare budget).cpu := by
      rw [hcpu, hcpu]
      exact .abreast rfl
    unfold discreet at hdiscreet
    rw [show (budget == 0) = false from beq_false_of_ne h0, Bool.false_or] at hdiscreet
    rw [executions_eq _ h0] at hround
    obtain ⟨hfirings, hresult⟩ := Pair.loop _ _ (m.withIdleSkip true).resumeAt (m.withIdleSkip false).resumeAt []
      false _ _ hpair hrelated (hturns true) (hturns false) hround hdiscreet
    rw [run_eq _ h0, run_eq _ h0]
    refine ⟨?_, hresult, interpreter_ends _ _ _ (hplain true).interprets (hplain true).orderly (hturns true)⟩
    unfold firings
    rw [if_neg h0, if_neg h0]
    exact hfirings

/-- **Forwarding time through idle loops only saves time.** From any state that a host can reach, and as long as
there are no fragments and no breakpoints and the interrupt line stays at its level, the run that forwards time
and the one that does not get to the same events at the same cycles, agree at each of them, and end with the
same result; provided that an instruction behind which time is forwarded goes round, and that no instruction
reads the mark of the delay slot in Cause while an interrupt in an idle loop has left it in doubt. -/
theorem idle_skip_saves_time (config : Configuration) (bus : Bus) (vector : VectorUnit) (past : List HostAction)
    (budget : UInt64)
    (hoff : ((create config bus vector).performAll past).cache.enabled = false)
    (hfree : ((create config bus vector).performAll past).breakpoints = [])
    (hline : ∀ n level, ((create config bus vector).performAll past).tandem.vector.drive n = some level →
      level = ((create config bus vector).performAll past).cpu.line)
    (hround : ∀ e ∈ (((create config bus vector).performAll past).withIdleSkip true).executions budget,
      e.idleCycles ≠ 0 → e.after.breakout = none → e.GoesRound)
    (hdiscreet : (((create config bus vector).performAll past).withIdleSkip true).discreet budget = true) :
    let m := (create config bus vector).performAll past
    let a := m.withIdleSkip true
    let b := m.withIdleSkip false
    List.Forall₂ Firing.Agrees (a.firings budget) (b.firings budget) ∧
      (b.run budget).1 = (a.run budget).1 ∧ (a.run budget).1 ≠ none := by
  intro m a b
  have hrest := (atRest_of_actions config bus vector past).1
  have hplain : m.Plain := ⟨hoff, hfree, hline, hrest.ticking.timed, hrest.gated⟩
  exact hplain.saves_time hrest.free budget hround hdiscreet

/-- A machine with a program in main memory, a device, and a match of the timer. -/
def idling (start : UInt64) (code : List UInt32) (deadline : UInt64) (device : Device) : Machine :=
  (create
    { general := { startPc := start }
      memory := { ramSize := 32 }
      cpu := { initialStatus := 0x34008001 }
      recompiler := { enabled := false } }
    (Bus.add {} device) {}).performAll
    [.edit (.loadProgram 0 code), .writeControl 11 deadline]

/-- The code that answers interrupts is in a device. -/
def answering (handler : ByteArray) : Device := .memory "rom" 0x180 20 handler

/-- The code counts the interrupts, and moves the match of the timer to 20 cycles later. -/
def countsInterrupts : ByteArray :=
  ⟨#[0x40, 0x1A, 0x48, 0, 0x27, 0x5A, 0, 0x14, 0x40, 0x9A, 0x58, 0, 0x27, 0x7B, 0, 1, 0x42, 0, 0, 0x18]⟩

/-- A branch to itself, which the timer interrupts. -/
def dozing : Machine := idling 0xFFFFFFFF80000000 [0x1000FFFF, 0] 11 (answering countsInterrupts)

/-- Two interrupts are taken, and time is forwarded to each of them. -/
theorem idle_skip_saves_time_dozing :
    let m := dozing
    let a := m.withIdleSkip true
    let b := m.withIdleSkip false
    m.cache.enabled = false ∧ m.breakpoints = [] ∧
      (∀ e ∈ a.executions 40, e.idleCycles ≠ 0 → e.after.breakout = none → e.GoesRound) ∧
      a.discreet 40 = true ∧ (a.firings 40).map (fun x => (x.cpu.cycles, x.cpu.regs.get 27)) =
        [(11, 0), (31, 1), (40, 2)] ∧
      (a.run 40).2.cpu.statistics.idleCyclesSkipped = 24 ∧
      List.Forall₂ Firing.Agrees (a.firings 40) (b.firings 40) ∧
      (b.run 40).1 = (a.run 40).1 ∧ (a.run 40).1 ≠ none :=
  have hround : ∀ e ∈ (dozing.withIdleSkip true).executions 40,
      e.idleCycles ≠ 0 → e.after.breakout = none → e.GoesRound := by decide +kernel
  have hdiscreet : (dozing.withIdleSkip true).discreet 40 = true := by decide +kernel
  have hline : ∀ n level, dozing.tandem.vector.drive n = some level →
      level = dozing.cpu.line := fun _ _ h => by cases h
  ⟨by decide +kernel, by decide +kernel, hround, hdiscreet, by decide +kernel, by decide +kernel,
    idle_skip_saves_time _ _ _ _ 40 (by decide +kernel) (by decide +kernel) hline hround hdiscreet⟩

/-! ## What happens otherwise -/

/-- What a run shows at its events: which they are, the cycle, and the general register k0. -/
def shownFirings (m : Machine) (forwards : Bool) (budget : UInt64) : List (List EventKind × UInt64 × UInt64) :=
  ((m.withIdleSkip forwards).firings budget).map fun x => (x.kinds, x.cpu.cycles, x.cpu.regs.get 26)

/-- Firings that agree show the same. -/
theorem shownFirings_of_agrees {m : Machine} {budget : UInt64}
    (h : List.Forall₂ Firing.Agrees ((m.withIdleSkip true).firings budget) ((m.withIdleSkip false).firings budget)) :
    m.shownFirings true budget = m.shownFirings false budget := by
  unfold shownFirings
  generalize (m.withIdleSkip true).firings budget = xs at h ⊢
  generalize (m.withIdleSkip false).firings budget = ys at h ⊢
  induction h with
  | nil => rfl
  | cons hagrees _ ih => rw [List.map_cons, List.map_cons, ih, hagrees.kinds, hagrees.cycles, hagrees.regs]

/-- Forwarding parts the runs: there are no fragments and no breakpoints and the line stays at its level, and yet
the two machines do not agree at each event. -/
structure Parted (m : Machine) (budget : UInt64) : Prop where
  interprets : m.cache.enabled = false
  free : m.breakpoints = []
  steady : ∀ n level, m.tandem.vector.drive n = some level → level = m.cpu.line
  parted : ¬ List.Forall₂ Firing.Agrees ((m.withIdleSkip true).firings budget) ((m.withIdleSkip false).firings budget)

/-- The four conditions of `Execution.GoesRound`, for each instruction behind which time is forwarded and the run
goes on. -/
def rounds (m : Machine) (budget : UInt64) : List (Bool × Bool × Bool × Bool) :=
  let forwards (e : Execution) : Bool := e.idleCycles != 0 && e.after.breakout.isNone
  (((m.withIdleSkip true).executions budget).filter forwards).map fun e =>
    let again : Bool :=
      match e.planned with
      | .ok p => (e.before.apply p.effect).planGuarded (.decode e.word) = .ok p
      | .error _ => true
    (e.before.successor == e.before.pc + 4, e.Refetched, again, !e.after.updateInterrupts.interruptsPending)

/-- The code that answers the timer reads Cause. The timer matches an odd number of cycles behind the branch: the
run that does not forward time is in the delay slot then, and the other one is in front of the branch. -/
def reading : Machine :=
  idling 0xFFFFFFFF80000000 [0x1000FFFF, 0] 11
    (answering ⟨#[0x40, 0x1A, 0x68, 0, 0x10, 0, 0xFF, 0xFF, 0, 0, 0, 0]⟩)

/-- The timer matches in the cycle of the branch itself. -/
def matching : Machine := idling 0xFFFFFFFF80000000 [0x1000FFFF, 0] 1 (answering countsInterrupts)

/-- The branch is in the delay slot of another one, which leads to a reading of Count. -/
def delayed : Machine :=
  idling 0xFFFFFFFF80000000 [0x10000003, 0x1000FFFF, 0, 0, 0x401A4800] 0 (answering countsInterrupts)

/-- The branch is taken while ra is not negative, and the return address that it leaves there is negative. -/
def linking : Machine :=
  idling 0xFFFFFFFF80000000 [0x07F1FFFF, 0, 0x241A0001, 0x1000FFFF, 0] 0 (answering countsInterrupts)

/-- The branch is read from a device that holds another instruction after the second time. -/
def changing : Machine :=
  idling 0xFFFFFFFF9FFFFFFC [0, 0] 0
    { name := "ring"
      base := 0x1FFFFFFC
      size := 4
      state := ⟨#[0]⟩
      respond := fun reads _ _ =>
        if reads.get! 0 < 2 then (0x1000FFFF, ⟨#[reads.get! 0 + 1]⟩) else (0x241A0001, reads)
      accept := fun reads _ _ _ => reads }

/-- **Each condition is needed.** Where one of them fails, and only that one, the two runs are parted: the mark of
the delay slot in Cause is read while it is in doubt; an interrupt becomes pending in the branch's own cycle; the
branch is in a delay slot; it would not be taken again; it would not be fetched again. -/
theorem forwarding_conditions_needed :
    (reading.Parted 40 ∧ reading.rounds 40 = [(true, true, true, true)] ∧
      (reading.withIdleSkip true).discreet 40 = false ∧
      reading.shownFirings true 40 = [([.compare], 11, 0), ([.runForCycles], 40, 0x8000)] ∧
      reading.shownFirings false 40 = [([.compare], 11, 0), ([.runForCycles], 40, 0xFFFFFFFF80008000)]) ∧
    (matching.Parted 40 ∧ matching.rounds 40 = [(true, true, true, false)] ∧
      (matching.withIdleSkip true).discreet 40 = true ∧
      matching.shownFirings true 40 = [([.compare], 1, 0), ([.runForCycles], 40, 39)] ∧
      matching.shownFirings false 40 =
        [([.compare], 1, 0), ([.compare], 21, 21), ([.runForCycles], 40, 41)]) ∧
    (delayed.Parted 40 ∧ delayed.rounds 40 = [(false, true, true, true)] ∧
      (delayed.withIdleSkip true).discreet 40 = true ∧
      delayed.shownFirings true 40 = [([.runForCycles], 40, 39)] ∧
      delayed.shownFirings false 40 = [([.runForCycles], 40, 2)]) ∧
    (linking.Parted 40 ∧ linking.rounds 40 = [(true, true, false, true)] ∧
      (linking.withIdleSkip true).discreet 40 = true ∧
      linking.shownFirings true 40 = [([.runForCycles], 40, 0)] ∧
      linking.shownFirings false 40 = [([.runForCycles], 40, 1)]) ∧
    (changing.Parted 40 ∧ changing.rounds 40 = [(true, false, true, true)] ∧
      (changing.withIdleSkip true).discreet 40 = true ∧
      changing.shownFirings true 40 = [([.runForCycles], 40, 0)] ∧
      changing.shownFirings false 40 = [([.runForCycles], 40, 1)]) := by
  -- each machine has a line that nothing drives
  have hparted {start : UInt64} {code : List UInt32} {deadline : UInt64} {device : Device}
      (hoff : (idling start code deadline device).cache.enabled = false)
      (hfree : (idling start code deadline device).breakpoints = [])
      (hshown : (idling start code deadline device).shownFirings true 40 ≠
        (idling start code deadline device).shownFirings false 40) : (idling start code deadline device).Parted 40 :=
    ⟨hoff, hfree, fun _ _ h => (by cases h), fun h => hshown (shownFirings_of_agrees h)⟩
  refine ⟨⟨hparted ?_ ?_ ?_, ?_⟩, ⟨hparted ?_ ?_ ?_, ?_⟩, ⟨hparted ?_ ?_ ?_, ?_⟩, ⟨hparted ?_ ?_ ?_, ?_⟩,
    hparted ?_ ?_ ?_, ?_⟩ <;> decide +kernel

end Machine

end Vr4300
