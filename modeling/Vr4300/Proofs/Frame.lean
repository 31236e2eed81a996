import Vr4300.Proofs.Passage

/-!
# `Proofs.Frame` — what an instruction leaves alone

An effect, an exception and the choice of the next address change the architectural state, but not the
clock, not the reasons to stop, not the settings. Those change only where cycles pass. The schedule is in
between: of all effects only a write of a control register touches it, to rearm the timer.

## Contents

* `Surround`, `Cpu.surround`: what no effect changes, with one lemma per operation;
* `events` per operation, and `Timed` along them;
* `skipIdle_eq`: an idle skip is a quiet passage of time.
-/

namespace Vr4300

/-- What no effect of an instruction changes. -/
structure Surround where
  /-- The cycles since reset. -/
  cycles : UInt64
  /-- Why the current run should end. -/
  breakout : Option Exit
  /-- The instructions executed. -/
  opsExecuted : Nat
  /-- The level of the interrupt line. -/
  line : Bool
  /-- The size of main memory. -/
  ramSize : Nat
  /-- Settings. -/
  settings : GeneralSettings
  /-- The values of control registers after a reset. -/
  resetValues : ProcessorSettings

namespace Cpu

/-- The surroundings of the instructions. -/
def surround (c : Cpu) : Surround :=
  ⟨c.cycles, c.breakout, c.opsExecuted, c.line, c.ram.size, c.settings, c.resetValues⟩

/-! ## Memory -/

theorem surround_readAt (c : Cpu) (w : Width) (l : Location) :
    (c.readAt w l).2.surround = c.surround := by
  cases l <;> rfl

theorem surround_writeAt (c : Cpu) (w : Width) (l : Location) (v : UInt64) :
    (c.writeAt w l v).surround = c.surround := by
  cases l with
  | ram offset =>
    show Surround.mk _ _ _ _ (c.ram.write w offset v).size _ _ = _
    rw [Ram.size_write]
    rfl
  | bus address => rfl

theorem surround_writeMaskedAt (c : Cpu) (w : Width) (l : Location) (v mask : UInt64) :
    (c.writeMaskedAt w l v mask).surround = c.surround := by
  show ((c.readAt w l).2.writeAt w l _).surround = c.surround
  rw [surround_writeAt, surround_readAt]

theorem events_readAt (c : Cpu) (w : Width) (l : Location) : (c.readAt w l).2.events = c.events := by
  cases l <;> rfl

theorem events_writeAt (c : Cpu) (w : Width) (l : Location) (v : UInt64) :
    (c.writeAt w l v).events = c.events := by
  cases l <;> rfl

theorem events_writeMaskedAt (c : Cpu) (w : Width) (l : Location) (v mask : UInt64) :
    (c.writeMaskedAt w l v mask).events = c.events := by
  show ((c.readAt w l).2.writeAt w l _).events = c.events
  rw [events_writeAt, events_readAt]

/-- A fetch may at most reach a device. -/
theorem fetch_snd (c : Cpu) (address : UInt64) : ∃ bus, (c.fetch address).2 = { c with bus := bus } := by
  unfold fetch
  cases c.resolve .word .fetch address with
  | error t => exact ⟨c.bus, rfl⟩
  | ok l =>
    cases l with
    | ram offset => exact ⟨c.bus, rfl⟩
    | bus a => exact ⟨(c.bus.read .word a).2, rfl⟩

theorem pc_fetch (c : Cpu) (address : UInt64) : (c.fetch address).2.pc = c.pc := by
  obtain ⟨bus, h⟩ := c.fetch_snd address
  rw [h]

/-- A word in main memory is fetched without a trace. -/
theorem fetch_of_peek? {c : Cpu} {address : UInt64} {word : UInt32} (h : c.peek? address = some word) :
    c.fetch address = (.ok word, c) := by
  unfold peek? at h
  unfold fetch
  cases hr : c.resolve .word .fetch address with
  | error t => rw [hr] at h; cases h
  | ok l =>
    rw [hr] at h
    cases l with
    | ram offset =>
      obtain rfl := Option.some.inj h
      rfl
    | bus address => cases h

theorem surround_deliver (c : Cpu) (w : Width) (v : UInt64) (d : Destination) :
    (c.deliver w v d).surround = c.surround := by
  cases d with
  | float p ft => cases p <;> rfl
  | _ => rfl

theorem events_deliver (c : Cpu) (w : Width) (v : UInt64) (d : Destination) :
    (c.deliver w v d).events = c.events := by
  cases d with
  | float p ft => cases p <;> rfl
  | _ => rfl

/-! ## Control registers -/

theorem surround_schedule (c : Cpu) (kind : EventKind) (n : Int) (action : TimerAction) :
    (c.schedule kind n action).surround = c.surround := by
  unfold schedule
  split <;> rfl

theorem surround_writeControl (c : Cpu) (r : Reg) (v : UInt64) :
    (c.writeControl r v).surround = c.surround := by
  unfold writeControl
  cases c.cp0.write? r v with
  | none => rfl
  | some cp0 =>
    dsimp only
    split
    · exact surround_schedule _ _ _ _
    split
    · exact surround_schedule _ _ _ _
    split
    · rfl
    split
    · rfl
    split <;> rfl

theorem one_le_compareCountdown (c : Cpu) : 1 ≤ c.compareCountdown := by
  unfold compareCountdown
  dsimp only
  split
  · decide
  · rename_i h
    have : ((c.cp0.get Control.compare - c.cp0.get Control.count) &&& countMask).toNat ≠ 0 := by
      intro hz
      exact h (UInt64.toNat_inj.mp hz)
    omega

theorem compareCountdown_le (c : Cpu) : c.compareCountdown ≤ comparePeriod := by
  unfold compareCountdown
  dsimp only
  split
  · exact Int.le_refl _
  · have : ((c.cp0.get Control.compare - c.cp0.get Control.count) &&& countMask).toNat ≤ countMask.toNat := by
      rw [UInt64.toNat_and]
      exact Nat.and_le_right
    have hmask : countMask.toNat = 4294967295 := rfl
    unfold comparePeriod
    omega

/-- Rearming the timer leaves one timer event, at the distance from Count to Compare. -/
theorem scheduleCompare_eq {c : Cpu} (hc : c.events.Distinct) :
    c.scheduleCompare =
      { c with
        events := ⟨Schedule.insertAt .compare .compareMatch c.compareCountdown
          (c.events.erase .compare).events⟩ } := by
  have hfree : (c.events.erase .compare).until? .compare = none := by
    rw [Schedule.until?_erase hc, if_pos rfl]
  exact schedule_of_free { c with events := c.events.erase .compare } .compareMatch
    (n := c.compareCountdown) (by have := one_le_compareCountdown c; omega) hfree

/-- Rearming the timer arms it, whatever was pending. -/
theorem timed_scheduleCompare {c : Cpu} (hc : Agenda c.events 1) : c.scheduleCompare.Timed := by
  have hfree : (c.events.erase .compare).until? .compare = none := by
    rw [Schedule.until?_erase hc.distinct, if_pos rfl]
  have hle := compareCountdown_le c
  rw [scheduleCompare_eq hc.distinct]
  constructor
  · refine (hc.erase .compare).insert hfree ⟨one_le_compareCountdown c, ?_⟩ (Or.inl rfl)
    unfold comparePeriod at hle
    unfold horizon
    omega
  · show (⟨Schedule.insertAt _ _ _ (c.events.erase .compare).events⟩ : Schedule TimerAction).until? _ ≠ none
    rw [Schedule.until?_insert (hc.erase .compare).distinct _ _ hfree, if_pos rfl]
    exact Option.some_ne_none _

theorem Timed.writeControl {c : Cpu} (hc : c.Timed) (r : Reg) (v : UInt64) :
    (c.writeControl r v).Timed := by
  unfold Cpu.writeControl
  cases c.cp0.write? r v with
  | none => exact hc
  | some cp0 =>
    dsimp only
    split
    · exact timed_scheduleCompare (c := { c with cp0 := cp0 }) hc.agenda
    split
    · exact (timed_scheduleCompare (c := { c with cp0 := cp0.clearBits Control.cause Control.causeIP7 })
        hc.agenda).of_events rfl
    split
    · exact hc.of_events rfl
    split
    · exact hc.of_events rfl
    split <;> exact hc.of_events rfl

/-! ## Effects -/

theorem surround_apply (c : Cpu) (e : Effect) : (c.apply e).surround = c.surround := by
  cases e with
  | load w source into =>
    show ((c.readAt w source).2.deliver w _ into).surround = c.surround
    rw [surround_deliver, surround_readAt]
  | store w target v => exact surround_writeAt c w target v
  | storeMasked w target v mask => exact surround_writeMaskedAt c w target v mask
  | storeLinked w target v rt => exact surround_writeAt c w target v
  | control rd v => exact surround_writeControl c rd v
  | float p fd bits fcr31 => cases p <;> rfl
  | _ => rfl

/-- Of all effects only a write of a control register touches the schedule. -/
theorem events_apply (c : Cpu) {e : Effect} (he : ∀ rd v, e ≠ .control rd v) :
    (c.apply e).events = c.events := by
  cases e with
  | load w source into =>
    show ((c.readAt w source).2.deliver w _ into).events = c.events
    rw [events_deliver, events_readAt]
  | store w target v => exact events_writeAt c w target v
  | storeMasked w target v mask => exact events_writeMaskedAt c w target v mask
  | storeLinked w target v rt => exact events_writeAt c w target v
  | control rd v => exact absurd rfl (he rd v)
  | float p fd bits fcr31 => cases p <;> rfl
  | _ => rfl

theorem Timed.apply {c : Cpu} (hc : c.Timed) (e : Effect) : (c.apply e).Timed := by
  by_cases he : ∃ rd v, e = .control rd v
  · obtain ⟨rd, v, rfl⟩ := he
    exact hc.writeControl rd v
  · exact hc.of_events (events_apply c fun rd v h => he ⟨rd, v, h⟩)

theorem surround_follow (c : Cpu) (base : UInt64) (f : Flow) : (c.follow base f).surround = c.surround := by
  cases f <;> rfl

theorem events_follow (c : Cpu) (base : UInt64) (f : Flow) : (c.follow base f).events = c.events := by
  cases f <;> rfl

/-! ## Exceptions -/

/-- The state of an exception before its address is saved. -/
def enterException (c : Cpu) (t : Trap) (inDelay : Bool) : Cpu :=
  let c := if c.cp0.hasStatus Control.statusEXL then c else c.saveReturn inDelay
  { c with cp0 := c.cp0.put Control.cause (causeOf t (c.cp0.get Control.cause)) }

theorem takeException_eq (c : Cpu) (t : Trap) (inDelay : Bool) :
    ∃ vector statistics, c.takeException t inDelay = statusChanged
      { (c.enterException t inDelay).saveBadAddress t with
        cp0 := ((c.enterException t inDelay).saveBadAddress t).cp0.setBits Control.status Control.statusEXL
        pc := vector
        delaySlot := none
        statistics := statistics } :=
  ⟨_, _, rfl⟩

/-- Before the handler starts, control registers are written. -/
theorem enterException_eq (c : Cpu) (t : Trap) (inDelay : Bool) :
    ∃ cp0, (c.enterException t inDelay).saveBadAddress t = { c with cp0 := cp0 } := by
  have hentered : ∃ cp0, c.enterException t inDelay = { c with cp0 := cp0 } := by
    unfold enterException saveReturn
    cases c.cp0.hasStatus Control.statusEXL <;> cases inDelay <;> exact ⟨_, rfl⟩
  obtain ⟨cp0, h⟩ := hentered
  rw [h]
  unfold saveBadAddress
  split
  · exact ⟨_, rfl⟩
  · dsimp only
    split <;> exact ⟨_, rfl⟩

/-- **An exception** writes control registers and what is derived from them, and continues at its vector. -/
theorem takeException_frame (c : Cpu) (t : Trap) (inDelay : Bool) :
    ∃ cp0 pc fpr usable pending statistics, c.takeException t inDelay =
      { c with
        cp0 := cp0
        pc := pc
        delaySlot := none
        fpr := fpr
        floatUsable := usable
        interruptsPending := pending
        statistics := statistics } := by
  obtain ⟨vector, statistics, h⟩ := takeException_eq c t inDelay
  obtain ⟨cp0, hentered⟩ := enterException_eq c t inDelay
  rw [h, hentered]
  exact ⟨_, _, _, _, _, _, rfl⟩

theorem surround_takeException (c : Cpu) (t : Trap) (inDelay : Bool) :
    (c.takeException t inDelay).surround = c.surround := by
  obtain ⟨cp0, pc, fpr, usable, pending, statistics, h⟩ := takeException_frame c t inDelay
  rw [h]
  rfl

theorem events_takeException (c : Cpu) (t : Trap) (inDelay : Bool) :
    (c.takeException t inDelay).events = c.events := by
  obtain ⟨cp0, pc, fpr, usable, pending, statistics, h⟩ := takeException_frame c t inDelay
  rw [h]

/-! ## The retirement of an instruction -/

/-- A change of the state that no event sees commutes with the dispatch of events. -/
theorem fireDue_map {g : Cpu → Cpu} (hevents : ∀ c, (g c).events = c.events)
    (hwith : ∀ (c : Cpu) s, { g c with events := s } = g { c with events := s })
    (hcompare : ∀ c, (g c).compareMatched = g c.compareMatched)
    (hbudget : ∀ c, (g c).budgetSpent = g c.budgetSpent) (limit : Nat) :
    ∀ c, fireDue limit (g c) = g (fireDue limit c) := by
  induction limit with
  | zero => exact fun c => rfl
  | succ limit ih =>
    intro c
    unfold fireDue
    rw [show Scheduled.schedule (g c) = c.events from hevents c, show Scheduled.schedule c = c.events from rfl]
    cases c.events.popDue? with
    | none => rfl
    | some due =>
      obtain ⟨action, rest⟩ := due
      have hperform : Scheduled.perform action (Scheduled.withSchedule rest (g c)) =
          g (Scheduled.perform action (Scheduled.withSchedule rest c)) := by
        rw [show (Scheduled.withSchedule rest (g c) : Cpu) = g { c with events := rest } from hwith c rest]
        cases action with
        | compareMatch => exact hcompare _
        | budgetSpent => exact hbudget _
      dsimp only
      rw [hperform]
      exact ih _

/-- The cycles that an idle loop is forwarded by. -/
def idleCycles (c : Cpu) : Nat := (c.events.slack 1).toNat

/-- **An idle skip is a quiet passage.** -/
theorem skipIdle_eq (c : Cpu) :
    c.skipIdle =
      if 0 < c.idleCycles then
        { c.passCycles (UInt64.ofNat c.idleCycles) with
          events := c.events.advance c.idleCycles
          statistics :=
            { c.statistics with idleCyclesSkipped := c.statistics.idleCyclesSkipped + c.idleCycles } }
      else c := by
  have h0 : 0 ≤ c.events.slack 1 := by unfold Schedule.slack; omega
  have hk : c.events.slack 1 = (c.idleCycles : Int) := (Int.toNat_of_nonneg h0).symm
  unfold skipIdle
  rw [Schedule.skipToNext_eq _ (by decide : (0 : Int) ≤ 1)]
  dsimp only
  rw [ofInt_eq_ofNat h0, hk, Int.toNat_natCast]
  by_cases hpos : 0 < c.idleCycles
  · rw [if_pos hpos, if_pos (by omega)]
    rfl
  · rw [if_neg hpos, if_neg (by omega)]

theorem Timed.skipIdle {c : Cpu} (hc : c.Timed) : c.skipIdle.Timed := by
  have h0 : 0 ≤ c.events.slack 1 := by unfold Schedule.slack; omega
  have hk : c.events.slack 1 = (c.idleCycles : Int) := (Int.toNat_of_nonneg h0).symm
  rw [skipIdle_eq]
  split
  · have hs := hc.agenda.skip
    rw [hk] at hs
    refine ⟨hs, ?_⟩
    show (c.events.advance c.idleCycles).until? .compare ≠ none
    rw [Schedule.until?_advance, ne_eq, Option.map_eq_none_iff]
    exact hc.armed
  · exact hc

theorem Timed.retire {c : Cpu} (hc : c.Timed) : c.retire.Timed :=
  Timed.advance_one (c := { c with opsExecuted := c.opsExecuted + 1 }) (hc.of_events rfl)

theorem Timed.cycles_retire {c : Cpu} (hc : c.Timed) : c.retire.cycles = c.cycles + 1 :=
  Timed.advance_one_rule (P := fun s => s.cycles = c.cycles + 1)
    (c := { c with opsExecuted := c.opsExecuted + 1 }) (hc.of_events rfl) rfl
    (fun s rest hs hdue => by rw [compareMatched_eq _ hdue.free]; exact hs) (fun _ _ hs _ => hs)

theorem Timed.settings_retire {c : Cpu} (hc : c.Timed) : c.retire.settings = c.settings :=
  Timed.advance_one_rule (P := fun s => s.settings = c.settings)
    (c := { c with opsExecuted := c.opsExecuted + 1 }) (hc.of_events rfl) rfl
    (fun s rest hs hdue => by rw [compareMatched_eq _ hdue.free]; exact hs) (fun _ _ hs _ => hs)

theorem Timed.opsExecuted_retire {c : Cpu} (hc : c.Timed) : c.retire.opsExecuted = c.opsExecuted + 1 :=
  Timed.advance_one_rule (P := fun s => s.opsExecuted = c.opsExecuted + 1)
    (c := { c with opsExecuted := c.opsExecuted + 1 }) (hc.of_events rfl) rfl
    (fun s rest hs hdue => by rw [compareMatched_eq _ hdue.free]; exact hs) (fun _ _ hs _ => hs)

theorem Timed.idleCycles_le {c : Cpu} (hc : c.Timed) : (c.idleCycles : Int) ≤ horizon := by
  obtain ⟨left, hleft, hone, hle⟩ := hc.untilNext?
  have hslack : c.events.slack 1 = left - 1 := by
    unfold Schedule.slack
    rw [hleft]
    show max 0 (left - 1) = left - 1
    omega
  unfold Cpu.idleCycles
  rw [hslack, Int.toNat_of_nonneg (by omega)]
  omega

end Cpu

end Vr4300
