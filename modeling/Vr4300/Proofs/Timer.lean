import Mathlib.Data.Int.ModEq
import Mathlib.Data.List.Induction
import Mathlib.Logic.Function.Iterate

/-!
# `Proofs.Timer` — a timer that counts

What the timer does is said without a schedule: Count goes up by one each cycle, and a match is a cycle
that makes it equal to Compare (`Timer.tick`). Writing Count matches nothing, and neither does writing
Compare, which acknowledges a match instead.

## Contents

* `Timer`, `TimerEvent`, `Timer.apply`: the reference;
* `matched_history`: what a pending interrupt says about the past;
* `Timer.countdown`: the cycles until the next match, as a distance (`countdown_modEq`);
* `tick_of_countdown`, `ticks_of_lt`: counting in terms of the countdown.
-/

namespace Vr4300

/-- The timer as software sees it. -/
structure Timer where
  /-- The counter. -/
  count : UInt32 := 0
  /-- The value at which it interrupts. -/
  compare : UInt32 := 0
  /-- The interrupt is pending. -/
  matched : Bool := false
deriving DecidableEq, Repr

/-- What happens to a timer. -/
inductive TimerEvent where
  /-- A cycle passes. -/
  | cycle
  /-- The counter is written. -/
  | writeCount (v : UInt32)
  /-- The value to wait for is written, which acknowledges the interrupt. -/
  | writeCompare (v : UInt32)
  /-- The processor is reset. -/
  | reset
deriving DecidableEq, Repr

/-- What acknowledges a match: a write of the value to wait for, or a reset. -/
def TimerEvent.acknowledges : TimerEvent → Bool
  | .cycle | .writeCount _ => false
  | .writeCompare _ | .reset => true

namespace Timer

/-- A cycle passes: a match is a cycle that makes the counter equal to the value. -/
def tick (t : Timer) : Timer :=
  { t with count := t.count + 1, matched := t.matched || t.count + 1 == t.compare }

/-- Something happens. -/
def apply (t : Timer) : TimerEvent → Timer
  | .cycle => t.tick
  | .writeCount v => { t with count := v }
  | .writeCompare v => { t with compare := v, matched := false }
  | .reset => {}

/-- The timer after all that happened to it since its first reset. -/
def history (past : List TimerEvent) : Timer := past.foldl apply {}

/-- Cycles that pass one after the other are ticks. -/
theorem foldl_cycles (t : Timer) (n : Nat) :
    (List.replicate n TimerEvent.cycle).foldl apply t = tick^[n] t := by
  induction n generalizing t with
  | zero => rfl
  | succ n ih => exact ih t.tick

/-- A match that nothing has acknowledged is the last thing that happened, or it happened before and
stands. -/
theorem exists_match_concat (past : List TimerEvent) (x : TimerEvent) :
    (∃ earlier later, past ++ [x] = earlier ++ .cycle :: later ∧ (∀ y ∈ later, y.acknowledges = false) ∧
        (history earlier).count + 1 = (history earlier).compare) ↔
      (x = .cycle ∧ (history past).count + 1 = (history past).compare) ∨
        (x.acknowledges = false ∧
          ∃ earlier later, past = earlier ++ .cycle :: later ∧ (∀ y ∈ later, y.acknowledges = false) ∧
            (history earlier).count + 1 = (history earlier).compare) := by
  constructor
  · rintro ⟨earlier, later, heq, hlater, hmatch⟩
    rcases List.eq_nil_or_concat later with rfl | ⟨init, y, rfl⟩
    · obtain ⟨rfl, hx⟩ := List.append_inj' heq rfl
      exact .inl ⟨List.singleton_inj.mp hx, hmatch⟩
    · rw [List.concat_eq_append] at heq hlater
      rw [← List.cons_append, ← List.append_assoc] at heq
      obtain ⟨rfl, hx⟩ := List.append_inj' heq rfl
      obtain rfl := List.singleton_inj.mp hx
      exact .inr ⟨hlater x (by simp), earlier, init, rfl, fun y hy => hlater y (by simp [hy]), hmatch⟩
  · rintro (⟨rfl, hmatch⟩ | ⟨hx, earlier, later, rfl, hlater, hmatch⟩)
    · exact ⟨past, [], rfl, by simp, hmatch⟩
    · refine ⟨earlier, later ++ [x], by simp, ?_, hmatch⟩
      intro y hy
      rcases List.mem_append.mp hy with hy | hy
      · exact hlater y hy
      · rw [List.mem_singleton.mp hy]
        exact hx

/-- **The interrupt is pending** exactly when a cycle made the counter equal to the value and nothing has
acknowledged it since. -/
theorem matched_history (past : List TimerEvent) :
    (history past).matched = true ↔
      ∃ earlier later, past = earlier ++ .cycle :: later ∧ (∀ x ∈ later, x.acknowledges = false) ∧
        (history earlier).count + 1 = (history earlier).compare := by
  -- what happened last decides, so the induction is on the past from its end
  induction past using List.reverseRecOn with
  | nil => simp [history]
  | append_singleton past x ih =>
    have hlast : history (past ++ [x]) = (history past).apply x := by
      unfold history
      rw [List.foldl_append]
      rfl
    rw [hlast, exists_match_concat, ← ih]
    cases x with
    | cycle => simp [apply, tick, TimerEvent.acknowledges, or_comm]
    | writeCount v => simp [apply, TimerEvent.acknowledges]
    | writeCompare v => simp [apply, TimerEvent.acknowledges]
    | reset => simp [apply, TimerEvent.acknowledges]

/-- The cycles until the next match. -/
def countdown (t : Timer) : Int :=
  if t.compare = t.count then 0x100000000 else (t.compare - t.count).toNat

theorem one_le_countdown (t : Timer) : 1 ≤ t.countdown := by
  unfold countdown
  split
  · decide
  · rename_i h
    have hc := t.compare.toNat_lt
    have ht := t.count.toNat_lt
    have hne : t.compare.toNat ≠ t.count.toNat := fun e => h (UInt32.toNat_inj.mp e)
    rw [UInt32.toNat_sub]
    omega

theorem countdown_le (t : Timer) : t.countdown ≤ 0x100000000 := by
  unfold countdown
  split
  · exact Int.le_refl _
  · have := (t.compare - t.count).toNat_lt
    omega

/-- The countdown is the distance from the counter to the value, around the end of the range. -/
theorem countdown_modEq (t : Timer) :
    t.countdown ≡ (t.compare.toNat : Int) - t.count.toNat [ZMOD 0x100000000] := by
  have hc := t.compare.toNat_lt
  have ht := t.count.toNat_lt
  unfold countdown Int.ModEq
  split
  · rename_i h
    rw [h]
    omega
  · rw [UInt32.toNat_sub]
    omega

/-- **A cycle** matches exactly when the countdown is one; else it takes one off. -/
theorem tick_of_countdown (t : Timer) :
    (t.countdown = 1 ∧ t.tick.matched = true ∧ t.tick.countdown = 0x100000000) ∨
      1 < t.countdown ∧ t.tick.matched = t.matched ∧ t.tick.countdown = t.countdown - 1 := by
  have hone := t.one_le_countdown
  have hcongr := t.countdown_modEq
  have hle := t.countdown_le
  have hc := t.compare.toNat_lt
  have ht := t.count.toNat_lt
  have hnext : (t.count + 1).toNat = (t.count.toNat + 1) % 2 ^ 32 := by
    rw [UInt32.toNat_add]
    rfl
  by_cases heq : t.count + 1 = t.compare
  · have hnat : t.compare.toNat = (t.count.toNat + 1) % 2 ^ 32 := by rw [← hnext, heq]
    refine .inl ⟨?_, ?_, ?_⟩
    · unfold Int.ModEq at hcongr
      omega
    · unfold tick
      simp [heq]
    · unfold countdown tick
      rw [if_pos heq.symm]
  · have hne : t.compare.toNat ≠ (t.count.toNat + 1) % 2 ^ 32 := by
      rw [← hnext]
      exact fun h => heq (UInt32.toNat_inj.mp h.symm)
    have htick : t.tick.countdown = (t.compare - (t.count + 1)).toNat := by
      unfold countdown tick
      rw [if_neg (fun h => heq h.symm)]
    refine .inr ⟨?_, ?_, ?_⟩
    · unfold Int.ModEq at hcongr
      omega
    · unfold tick
      simp [heq]
    · rw [htick, UInt32.toNat_sub, hnext]
      unfold Int.ModEq at hcongr
      omega

/-- Cycles that do not reach the next match only count. -/
theorem ticks_of_lt {n : Nat} : ∀ {t : Timer}, (n : Int) < t.countdown →
    (tick^[n] t) = { t with count := t.count + UInt32.ofNat n } ∧
      (tick^[n] t).countdown = t.countdown - n := by
  induction n with
  | zero =>
    intro t _
    refine ⟨?_, by simp⟩
    show t = { t with count := t.count + 0 }
    rw [UInt32.add_zero]
  | succ n ih =>
    intro t h
    rcases t.tick_of_countdown with ⟨h1, -, -⟩ | ⟨-, hm, hc⟩
    · omega
    · obtain ⟨heq, hcount⟩ := ih (t := t.tick) (by rw [hc]; omega)
      have htick : t.tick = { t with count := t.count + 1 } := by
        unfold tick at hm ⊢
        dsimp only at hm
        rw [hm]
      have hsum : t.count + 1 + UInt32.ofNat n = t.count + UInt32.ofNat (n + 1) := by
        rw [UInt32.ofNat_add, UInt32.add_assoc, UInt32.add_comm 1]
        rfl
      rw [Function.iterate_succ_apply]
      refine ⟨?_, by rw [hcount, hc]; omega⟩
      rw [heq, htick]
      dsimp only
      rw [hsum]

end Timer

end Vr4300
