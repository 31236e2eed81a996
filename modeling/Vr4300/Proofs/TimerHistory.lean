import Vr4300.Proofs.Host

/-!
# `Proofs.TimerHistory` — no match is missed, delayed or invented

Count is advanced by instructions, by fragments that account for many at once, by idle skips, and the queue
of events is refolded whenever a run sets or removes its deadline. Software sees none of it. At every
instruction boundary that a host can bring about, the timer's event is queued once, at the distance that
counting needs to reach Compare, and the interrupt is pending exactly when a cycle reached it.

## Contents

* `Cpu.InTime`: the invariant of the timer, with the past that it speaks of;
* `Ticking.inTime`;
* `timer_in_time`: every state and every boundary of every history;
* `timer_in_time_matched`: a history with a match.
-/

namespace Vr4300

open Control

namespace Cpu

/-- **The timer is in time.** -/
structure InTime (c : Cpu) (past : List TimerEvent) : Prop where
  /-- One event of the timer is queued, and counting reaches Compare when it is due. -/
  due : ∃ left : Int, c.events.dueTimes.filter (fun p => p.1 == .compare) = [(.compare, left)] ∧
    1 ≤ left ∧ left ≤ 0x100000000 ∧
      left ≡ ((c.cp0.get compare).toNat : Int) - (c.cp0.get count).toNat [ZMOD 0x100000000]
  /-- Count has 32 bits, and it is what writes and cycles made it. -/
  count : (c.cp0.get count).toNat < 2 ^ 32 ∧ (c.cp0.get count).toUInt32 = (Timer.history past).count
  /-- Compare has 32 bits, and it is what was written last. -/
  compare : (c.cp0.get compare).toNat < 2 ^ 32 ∧ (c.cp0.get compare).toUInt32 = (Timer.history past).compare
  /-- The interrupt is pending exactly when a cycle made Count equal to Compare and nothing has acknowledged
  it since. -/
  pending : c.cp0.get cause &&& causeIP7 ≠ 0 ↔
    ∃ earlier later, past = earlier ++ .cycle :: later ∧
      (∀ x ∈ later, x.acknowledges = false) ∧
      (Timer.history earlier).count + 1 = (Timer.history earlier).compare

theorem Ticking.inTime {c : Cpu} {past : List TimerEvent} (h : c.Ticking past) : c.InTime past := by
  have hcount : (c.cp0.get Control.count).toUInt32 = (Timer.history past).count :=
    congrArg Timer.count h.timer
  have hcompare : (c.cp0.get Control.compare).toUInt32 = (Timer.history past).compare :=
    congrArg Timer.compare h.timer
  have hmatched : (c.cp0.get cause &&& causeIP7 != 0) = (Timer.history past).matched :=
    congrArg Timer.matched h.timer
  have hword {v : UInt64} (hv : v.toNat < 2 ^ 32) : v.toUInt32.toNat = v.toNat := by
    rw [UInt64.toNat_toUInt32]
    exact Nat.mod_eq_of_lt hv
  refine ⟨⟨c.timer.countdown, ?_, c.timer.one_le_countdown, c.timer.countdown_le, ?_⟩,
    ⟨h.armed.count_lt, hcount⟩, ⟨h.armed.compare_lt, hcompare⟩, ?_⟩
  · have hdistinct := h.timed.agenda.distinct
    exact Schedule.filter_dueTimes hdistinct ((Schedule.until?_eq_some_iff hdistinct).mp h.armed.due)
  · rw [← hword h.armed.count_lt, ← hword h.armed.compare_lt]
    exact c.timer.countdown_modEq
  · rw [← Timer.matched_history, ← hmatched]
    exact bne_iff_ne.symm

end Cpu

/-- **No match is missed, delayed or invented.** Whatever a host does to a new machine, the timer is in time
before and after each instruction that the machine executes, and in the state behind it all. -/
theorem timer_in_time (config : Configuration) (bus : Bus) (vector : VectorUnit)
    (actions : List HostAction) :
    (∀ earlier e later, (Machine.create config bus vector).journal actions =
        earlier ++ .executed e :: later →
      e.before.InTime (timerPast earlier) ∧ e.after.InTime (timerPast (earlier ++ [.executed e]))) ∧
    ((Machine.create config bus vector).performAll actions).cpu.InTime
      (timerPast ((Machine.create config bus vector).journal actions)) := by
  obtain ⟨hrest, hagrees⟩ := Machine.atRest_of_actions config bus vector actions
  refine ⟨?_, hrest.ticking.inTime⟩
  intro earlier e later hjournal
  have hbefore : e.before.Ticking (timerPast earlier) := by
    simpa using hagrees earlier e later hjournal
  have hafter := hbefore.execute
  refine ⟨hbefore.inTime, ?_⟩
  rw [timerPast_append]
  simpa [timerPast, Happening.timerEvents] using hafter.inTime

/-- A machine without memory executes no-ops, and the second one makes Count equal to Compare. -/
theorem timer_in_time_matched :
    let m := Machine.create { memory := { ramSize := 0 } } {} {}
    let actions : List HostAction := [.writeControl Control.count 5, .writeControl Control.compare 7, .run 2]
    (m.performAll actions).cpu.cp0.get cause &&& causeIP7 ≠ 0 ∧
      (m.performAll actions).cpu.InTime (timerPast (m.journal actions)) :=
  ⟨by decide +kernel, (timer_in_time _ _ _ _).2⟩

end Vr4300
