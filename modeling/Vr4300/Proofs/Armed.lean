import Vr4300.Proofs.History
import Vr4300.Proofs.Timer

/-!
# `Proofs.Armed` — one event stands for the timer

The processor does not count cycle by cycle. It keeps one event at the distance from Count to Compare,
moves it along with Count, and rearms it from its own handler. The invariant is `Cpu.Armed`: both
registers have 32 bits, and the event is exactly `Timer.countdown` ahead. A cycle, an idle skip and the
writes of Count and Compare each keep it, and each does to the timer what the reference says.

## Contents

* `ControlRegisters.timing`: the timer in the register bank, with its frame lemmas;
* `Cpu.timer`, `Cpu.Armed`;
* `Armed.retire`, `Armed.skipIdle`, `Armed.writeControl`;
* `Execution.timerEvents`, `Armed.after`: an instruction does to the timer what its write and its cycles
  do.
-/

namespace Vr4300

/-! ## The timer in the register bank -/

namespace ControlRegisters

open Control

/-- Count, Compare and the bit of Cause that the timer sets. -/
def timing (b : ControlRegisters) : UInt64 × UInt64 × UInt64 :=
  (b.get count, b.get compare, b.get cause &&& causeIP7)

theorem timing_put (b : ControlRegisters) {r : Reg} (v : UInt64) (hcount : r ≠ count)
    (hcompare : r ≠ compare) (hcause : r ≠ cause) : (b.put r v).timing = b.timing := by
  unfold timing
  rw [get_put_of_ne b v hcount, get_put_of_ne b v hcompare, get_put_of_ne b v hcause]

/-- A change of Cause that spares the timer's bit. -/
theorem timing_put_cause (b : ControlRegisters) {v : UInt64}
    (h : v &&& causeIP7 = b.values.read cause &&& causeIP7) : (b.put cause v).timing = b.timing := by
  have hget : (b.put cause v).get cause = v := RegisterFile.read_write_self _ _ _
  unfold timing
  rw [get_put_of_ne b v (by decide), get_put_of_ne b v (by decide), hget, h]
  rfl

/-- After a reset the timer is at zero. -/
theorem timing_atReset (initialStatus initialConfig : UInt64) :
    (atReset initialStatus initialConfig).timing = (0, 0, 0) := by
  let b : ControlRegisters := ⟨RegisterFile.filled 0, 0⟩
  show ((((b.put status initialStatus).put config initialConfig).put prId revision).put random 31).timing = _
  rw [timing_put _ _ (by decide) (by decide) (by decide), timing_put _ _ (by decide) (by decide) (by decide),
    timing_put _ _ (by decide) (by decide) (by decide), timing_put _ _ (by decide) (by decide) (by decide)]
  have hzero (r : Reg) : b.values.read r = 0 := RegisterFile.read_filled 0 r
  show (b.values.read count, b.values.read compare, b.values.read cause &&& causeIP7) = _
  rw [hzero, hzero, hzero, UInt64.zero_and]

theorem timing_sample (b : ControlRegisters) (level : Bool) : (b.sample level).timing = b.timing := by
  obtain ⟨v, hv, hmask⟩ := sample_eq_put b level
  rw [hv]
  exact timing_put_cause b (hmask causeIP7 (by decide))

end ControlRegisters

namespace Cpu

open Control

/-- The timer of a processor. -/
def timer (c : Cpu) : Timer :=
  ⟨(c.cp0.get count).toUInt32, (c.cp0.get compare).toUInt32, c.cp0.get cause &&& causeIP7 != 0⟩

theorem timer_eq_of_timing {c c' : Cpu} (h : c'.cp0.timing = c.cp0.timing) : c'.timer = c.timer := by
  obtain ⟨h1, h2, h3⟩ : _ ∧ _ ∧ _ := by simpa [ControlRegisters.timing] using h
  unfold timer
  rw [h1, h2, h3]

/-! ## What leaves the timer alone -/

theorem timing_updateInterrupts (c : Cpu) : c.updateInterrupts.cp0.timing = c.cp0.timing :=
  ControlRegisters.timing_sample _ _

theorem timing_statusChanged (c : Cpu) : c.statusChanged.cp0.timing = c.cp0.timing :=
  ControlRegisters.timing_sample _ _

theorem timing_readAt (c : Cpu) (w : Width) (l : Location) :
    (c.readAt w l).2.cp0.timing = c.cp0.timing := by
  cases l <;> rfl

theorem timing_writeAt (c : Cpu) (w : Width) (l : Location) (v : UInt64) :
    (c.writeAt w l v).cp0.timing = c.cp0.timing := by
  cases l <;> rfl

theorem timing_deliver (c : Cpu) (w : Width) (v : UInt64) (d : Destination) :
    (c.deliver w v d).cp0.timing = c.cp0.timing := by
  cases d with
  | linked rt physical => exact ControlRegisters.timing_put _ _ (by decide) (by decide) (by decide)
  | float p ft => cases p <;> rfl
  | _ => rfl

theorem timing_leaveException (c : Cpu) : c.leaveException.cp0.timing = c.cp0.timing := by
  unfold leaveException
  dsimp only
  rw [timing_statusChanged]
  exact ControlRegisters.timing_put _ _ (by decide) (by decide) (by decide)

theorem timing_showEntry (c : Cpu) (e : TlbEntry) : (c.showEntry e).cp0.timing = c.cp0.timing := by
  unfold showEntry
  dsimp only
  rw [ControlRegisters.timing_put _ _ (by decide) (by decide) (by decide),
    ControlRegisters.timing_put _ _ (by decide) (by decide) (by decide),
    ControlRegisters.timing_put _ _ (by decide) (by decide) (by decide),
    ControlRegisters.timing_put _ _ (by decide) (by decide) (by decide)]

/-- Of all effects only a write of a control register touches the timer. -/
theorem timing_apply (c : Cpu) {e : Effect} (he : ∀ rd v, e ≠ .control rd v) :
    (c.apply e).cp0.timing = c.cp0.timing := by
  cases e with
  | load w source into =>
    show ((c.readAt w source).2.deliver w _ into).cp0.timing = c.cp0.timing
    rw [timing_deliver, timing_readAt]
  | store w target v => exact timing_writeAt c w target v
  | storeMasked w target v mask =>
    show ((c.readAt w target).2.writeAt w target _).cp0.timing = c.cp0.timing
    rw [timing_writeAt, timing_readAt]
  | storeLinked w target v rt => exact timing_writeAt c w target v
  | control rd v => exact absurd rfl (he rd v)
  | entryRegisters e => exact timing_showEntry c e
  | index v => exact ControlRegisters.timing_put _ _ (by decide) (by decide) (by decide)
  | leaveException => exact timing_leaveException c
  | float p fd bits fcr31 => cases p <;> rfl
  | _ => rfl

/-- The exception code leaves the timer's bit alone. -/
theorem causeOf_and (t : Trap) (old : UInt64) : causeOf t old &&& causeIP7 = old &&& causeIP7 := by
  have hcode : (t.code <<< 2) &&& causeIP7 = 0 := by
    cases t <;> (simp only [Trap.code]; decide)
  unfold causeOf
  dsimp only
  rw [or_and_of_disjoint ?_, or_and_of_disjoint hcode, clear_and_of_disjoint (by decide)]
  split
  · rw [UInt64.and_assoc, show causeCE &&& causeIP7 = 0 by decide, UInt64.and_zero]
  · decide

theorem timing_enterException (c : Cpu) (t : Trap) (inDelay : Bool) :
    (c.enterException t inDelay).cp0.timing = c.cp0.timing := by
  have hsave : (c.saveReturn inDelay).cp0.timing = c.cp0.timing := by
    have hepc (v : UInt64) : (c.cp0.put epc v).timing = c.cp0.timing :=
      ControlRegisters.timing_put _ _ (by decide) (by decide) (by decide)
    unfold saveReturn
    split
    · exact (ControlRegisters.timing_put_cause _ (or_and_of_disjoint (by decide) _)).trans (hepc _)
    · exact (ControlRegisters.timing_put_cause _ (clear_and_of_disjoint (by decide) _)).trans (hepc _)
  unfold enterException
  dsimp only
  refine (ControlRegisters.timing_put_cause _ (causeOf_and t _)).trans ?_
  split
  · rfl
  · exact hsave

theorem timing_saveBadAddress (c : Cpu) (t : Trap) : (c.saveBadAddress t).cp0.timing = c.cp0.timing := by
  unfold saveBadAddress
  split
  · rfl
  · dsimp only
    split
    · unfold saveTlbContext
      dsimp only
      rw [ControlRegisters.timing_put _ _ (by decide) (by decide) (by decide),
        ControlRegisters.timing_put _ _ (by decide) (by decide) (by decide),
        ControlRegisters.timing_put _ _ (by decide) (by decide) (by decide),
        ControlRegisters.timing_put _ _ (by decide) (by decide) (by decide)]
    · exact ControlRegisters.timing_put _ _ (by decide) (by decide) (by decide)

theorem timing_takeException (c : Cpu) (t : Trap) (inDelay : Bool) :
    (c.takeException t inDelay).cp0.timing = c.cp0.timing := by
  obtain ⟨vector, statistics, h⟩ := takeException_eq c t inDelay
  rw [h, timing_statusChanged]
  exact (ControlRegisters.timing_put _ _ (by decide) (by decide) (by decide)).trans
    ((timing_saveBadAddress _ _).trans (timing_enterException _ _ _))

theorem timing_follow (c : Cpu) (base : UInt64) (f : Flow) :
    (c.follow base f).cp0.timing = c.cp0.timing := by
  cases f <;> rfl

end Cpu

theorem Quiet.timing {a b : Cpu} (h : Quiet a b) : b.cp0.timing = a.cp0.timing := by
  cases h with
  | sample => exact Cpu.timing_updateInterrupts a
  | interrupt => exact Cpu.timing_takeException _ _ _
  | outside => rfl

namespace Cpu

open Control

/-! ## The armed timer -/

/-- **The event stands for the timer**: it is as far ahead as the next match. -/
structure Armed (c : Cpu) : Prop where
  /-- Count has 32 bits. -/
  count_lt : (c.cp0.get count).toNat < 2 ^ 32
  /-- Compare has 32 bits. -/
  compare_lt : (c.cp0.get compare).toNat < 2 ^ 32
  /-- The event is due when the counter gets there. -/
  due : c.events.until? .compare = some c.timer.countdown

theorem Armed.of_timing {c c' : Cpu} (h : c.Armed) (ht : c'.cp0.timing = c.cp0.timing)
    (he : c'.events = c.events) : c'.Armed := by
  obtain ⟨h1, h2, h3⟩ : _ ∧ _ ∧ _ := by simpa [ControlRegisters.timing] using ht
  exact ⟨h1 ▸ h.count_lt, h2 ▸ h.compare_lt, by rw [he, timer_eq_of_timing ht]; exact h.due⟩

theorem toNat_and_countMask (x : UInt64) : (x &&& countMask).toNat = x.toNat % 2 ^ 32 := by
  rw [UInt64.toNat_and]
  exact Nat.and_two_pow_sub_one_eq_mod x.toNat 32

theorem toUInt32_and_countMask (x : UInt64) : (x &&& countMask).toUInt32 = x.toUInt32 := by
  apply UInt32.toNat_inj.mp
  rw [UInt64.toNat_toUInt32, UInt64.toNat_toUInt32, toNat_and_countMask, Nat.mod_mod]

/-- The distance that the processor computes is the timer's countdown. -/
theorem compareCountdown_eq (c : Cpu) : c.compareCountdown = c.timer.countdown := by
  have hdist : ((c.cp0.get compare - c.cp0.get count) &&& countMask).toNat =
      ((c.cp0.get compare).toUInt32 - (c.cp0.get count).toUInt32).toNat := by
    rw [← UInt64.toUInt32_sub, UInt64.toNat_toUInt32, toNat_and_countMask]
  unfold compareCountdown Timer.countdown timer
  dsimp only
  by_cases hz : (c.cp0.get compare).toUInt32 = (c.cp0.get count).toUInt32
  · rw [if_pos hz, if_pos]
    · rfl
    · rw [hz, UInt32.sub_self] at hdist
      exact UInt64.toNat_inj.mp hdist
  · rw [if_neg hz, if_neg]
    · rw [hdist]
    · intro h0
      rw [h0] at hdist
      have h1 := (c.cp0.get compare).toUInt32.toNat_lt
      have h2 := (c.cp0.get count).toUInt32.toNat_lt
      have hne : (c.cp0.get compare).toUInt32.toNat ≠ (c.cp0.get count).toUInt32.toNat :=
        fun e => hz (UInt32.toNat_inj.mp e)
      rw [UInt32.toNat_sub] at hdist
      have h0' : (0 : UInt64).toNat = 0 := rfl
      omega

/-! ## Cycles -/

theorem get_passCycles (c : Cpu) (n : UInt64) :
    (c.passCycles n).cp0.get count = (c.cp0.get count + n) &&& countMask ∧
      (c.passCycles n).cp0.get compare = c.cp0.get compare ∧
      (c.passCycles n).cp0.get cause = c.cp0.get cause :=
  ⟨RegisterFile.read_write_self _ _ _, ControlRegisters.get_put_of_ne _ _ (by decide),
    ControlRegisters.get_put_of_ne _ _ (by decide)⟩

/-- Count moves with the clock. -/
theorem timer_passCycles (c : Cpu) (n : Nat) :
    (c.passCycles (UInt64.ofNat n)).timer =
      { c.timer with count := c.timer.count + UInt32.ofNat n } := by
  obtain ⟨h1, h2, h3⟩ := c.get_passCycles (UInt64.ofNat n)
  unfold timer
  rw [h1, h2, h3, toUInt32_and_countMask, UInt64.toUInt32_add, UInt64.toUInt32_ofNat']

theorem count_passCycles_lt (c : Cpu) (n : UInt64) :
    ((c.passCycles n).cp0.get count).toNat < 2 ^ 32 := by
  rw [(c.get_passCycles n).1, toNat_and_countMask]
  exact Nat.mod_lt _ (by decide)

/-- **An idle skip is counting**: it stops short of the next match. -/
theorem Armed.skipIdle {c : Cpu} (h : c.Armed) (hT : c.Timed) :
    c.skipIdle.Armed ∧ c.skipIdle.timer = Timer.tick^[c.idleCycles] c.timer := by
  rw [skipIdle_eq]
  by_cases hk : 0 < c.idleCycles
  · rw [if_pos hk]
    obtain ⟨left, hleft, -, -⟩ := hT.untilNext?
    have hle := hT.agenda.ordered.head_le hleft ((Schedule.until?_eq_some_iff hT.agenda.distinct).mp h.due)
    have hslack : (c.idleCycles : Int) = max 0 (left - 1) := by
      unfold Cpu.idleCycles Schedule.slack
      rw [hleft, Int.toNat_of_nonneg (by omega)]
      rfl
    have hle : left ≤ c.timer.countdown := hle
    obtain ⟨hticks, hcount⟩ := Timer.ticks_of_lt (t := c.timer) (n := c.idleCycles) (by omega)
    have htimer := (c.timer_passCycles c.idleCycles).trans hticks.symm
    refine ⟨⟨c.count_passCycles_lt _, ?_, ?_⟩, htimer⟩
    · exact (congrArg UInt64.toNat (c.get_passCycles _).2.1).trans_lt h.compare_lt
    · show (c.events.advance c.idleCycles).until? .compare =
        some (c.passCycles (UInt64.ofNat c.idleCycles)).timer.countdown
      rw [htimer, hcount, Schedule.until?_advance, h.due]
      rfl
  · rw [if_neg hk, Nat.eq_zero_of_not_pos hk]
    exact ⟨h, rfl⟩

/-- The timer's part of the state inside the dispatch of a cycle: the match is ahead, or it has been
performed. -/
def Counting (c s : Cpu) : Prop :=
  s.cp0.get count = (c.cp0.get count + 1) &&& countMask ∧ s.cp0.get compare = c.cp0.get compare ∧
    ((s.events.until? .compare = some (c.timer.countdown - 1) ∧
        s.cp0.get cause &&& causeIP7 = c.cp0.get cause &&& causeIP7) ∨
      (c.timer.countdown = 1 ∧ s.events.until? .compare = some 0x100000000 ∧
        s.cp0.get cause &&& causeIP7 ≠ 0))

theorem counting_compareMatched {c s : Cpu} {rest : Schedule TimerAction} (h : Counting c s)
    (hdue : Due s.events .compare rest) : Counting c (compareMatched { s with events := rest }) := by
  obtain ⟨hcount, hcompare, hcase⟩ := h
  have hone : c.timer.countdown = 1 := by
    rcases hcase with ⟨hu, -⟩ | ⟨h1, -, -⟩
    · have := Option.some.inj (hu.symm.trans hdue.until?_self)
      omega
    · exact h1
  let b : ControlRegisters := s.cp0.setBits cause causeIP7
  have htiming : (compareMatched { s with events := rest }).cp0.timing = b.timing := by
    rw [compareMatched_eq _ hdue.free]
    exact ControlRegisters.timing_sample _ _
  obtain ⟨h1, h2, h3⟩ : _ ∧ _ ∧ _ := by simpa [ControlRegisters.timing] using htiming
  have hb : b.get cause = s.cp0.values.read cause ||| causeIP7 := RegisterFile.read_write_self _ _ _
  refine ⟨?_, ?_, .inr ⟨hone, ?_, ?_⟩⟩
  · rw [h1, ← hcount]
    exact ControlRegisters.get_put_of_ne _ _ (by decide)
  · rw [h2, ← hcompare]
    exact ControlRegisters.get_put_of_ne _ _ (by decide)
  · rw [compareMatched_eq _ hdue.free]
    show (⟨Schedule.insertAt .compare .compareMatch comparePeriod rest.events⟩ :
      Schedule TimerAction).until? .compare = _
    rw [hdue.until?_rearmed, if_pos rfl]
    rfl
  · rw [h3, hb]
    exact or_and_self_ne_zero (by decide) (by decide) _

/-- Behind a cycle, its dispatch has seen to the match. -/
theorem counting_advance_one {c : Cpu} (h : c.Armed) (hT : c.Timed) : Counting c (c.advance 1) := by
  refine hT.advance_one_rule (P := Counting c) ?_ ?_ ?_
  -- before the dispatch, nothing has been performed
  · obtain ⟨h1, h2, h3⟩ := c.get_passCycles 1
    refine ⟨h1, h2, .inl ⟨?_, ?_⟩⟩
    · show (c.events.advance 1).until? .compare = _
      rw [Schedule.until?_advance, h.due]
      rfl
    · show (c.passCycles 1).cp0.get cause &&& causeIP7 = _
      rw [h3]
  · intro s rest hs hdue
    exact counting_compareMatched hs hdue
  -- the end of a run does not touch the timer
  · intro s rest hs hdue
    obtain ⟨hcount, hcompare, hcase⟩ := hs
    have hrest : rest.until? .compare = s.events.until? .compare := hdue.until?_of_ne (by decide)
    refine ⟨hcount, hcompare, ?_⟩
    show (rest.until? .compare = _ ∧ _) ∨ (_ ∧ rest.until? .compare = _ ∧ _)
    rw [hrest]
    exact hcase

/-- **A cycle is a tick.** -/
theorem Armed.advance_one {c : Cpu} (h : c.Armed) (hT : c.Timed) :
    (c.advance 1).Armed ∧ (c.advance 1).timer = c.timer.tick := by
  obtain ⟨hcount, hcompare, hcase⟩ := counting_advance_one h hT
  have hcount32 : ((c.advance 1).cp0.get count).toUInt32 = c.timer.count + 1 := by
    rw [hcount, toUInt32_and_countMask, UInt64.toUInt32_add]
    rfl
  have hlt : ((c.advance 1).cp0.get count).toNat < 2 ^ 32 := by
    rw [hcount, toNat_and_countMask]
    exact Nat.mod_lt _ (by decide)
  have hcompare_lt : ((c.advance 1).cp0.get compare).toNat < 2 ^ 32 := by
    rw [hcompare]
    exact h.compare_lt
  have htick (hm : ((c.advance 1).cp0.get cause &&& causeIP7 != 0) = c.timer.tick.matched) :
      (c.advance 1).timer = c.timer.tick := by
    unfold timer at hm ⊢
    rw [hcount32, hcompare, hm]
    rfl
  rcases hcase with ⟨hu, hip⟩ | ⟨hone, hu, hip⟩
  -- the event is still ahead, so the cycle was not the match
  · have hahead := (hT.advance_one.agenda.ahead _
      ((Schedule.until?_eq_some_iff hT.advance_one.agenda.distinct).mp hu)).1
    have hahead : 1 ≤ c.timer.countdown - 1 := hahead
    rcases c.timer.tick_of_countdown with ⟨h1, -, -⟩ | ⟨-, hm, hc⟩
    · omega
    · have heq := htick (by rw [hip, hm]; rfl)
      refine ⟨⟨hlt, hcompare_lt, ?_⟩, heq⟩
      rw [hu, heq, hc]
  -- it was performed in this cycle
  · rcases c.timer.tick_of_countdown with ⟨-, hm, hc⟩ | ⟨h1, -, -⟩
    · have heq := htick (by rw [hm]; exact bne_iff_ne.mpr hip)
      refine ⟨⟨hlt, hcompare_lt, ?_⟩, heq⟩
      rw [hu, heq, hc]
    · omega

theorem Armed.retire {c : Cpu} (h : c.Armed) (hT : c.Timed) :
    c.retire.Armed ∧ c.retire.timer = c.timer.tick :=
  Armed.advance_one (c := { c with opsExecuted := c.opsExecuted + 1 }) (h.of_timing rfl rfl)
    (hT.of_events rfl)

/-! ## Writes -/

/-- A word written over a word replaces it. -/
theorem blend_word {old : UInt64} (h : old.toNat < 2 ^ 32) (v : UInt64) :
    blend old v countMask = v &&& countMask := by
  have hold : old = old &&& countMask := by
    apply UInt64.toNat_inj.mp
    rw [toNat_and_countMask, Nat.mod_eq_of_lt h]
  have hzero : old &&& ~~~countMask = 0 := by
    rw [hold, UInt64.and_assoc, UInt64.and_not_self, UInt64.and_zero]
  unfold blend
  rw [hzero, UInt64.zero_or]

theorem timing_write? {b b' : ControlRegisters} {r : Reg} {v : UInt64} (h : b.write? r v = some b')
    (hcount : r ≠ count) (hcompare : r ≠ compare) : b'.timing = b.timing := by
  by_cases hcause : r = cause
  · subst hcause
    obtain rfl := Option.some.inj h
    apply ControlRegisters.timing_put_cause
    unfold blend
    rw [or_and_of_disjoint, clear_and_of_disjoint (by decide)]
    rw [UInt64.and_assoc, show (0x300 : UInt64) &&& causeIP7 = 0 by decide, UInt64.and_zero]
  · unfold ControlRegisters.write? at h
    split at h
    · obtain rfl := Option.some.inj h
      exact ControlRegisters.timing_put b _ hcount hcompare hcause
    · cases h
    · obtain rfl := Option.some.inj h
      exact ControlRegisters.timing_put b _ hcount hcompare hcause

/-- Rearming arms the timer. -/
theorem armed_scheduleCompare {c : Cpu} (hA : Agenda c.events 1)
    (hcount : (c.cp0.get count).toNat < 2 ^ 32) (hcompare : (c.cp0.get compare).toNat < 2 ^ 32) :
    c.scheduleCompare.Armed ∧ c.scheduleCompare.timer = c.timer := by
  have hfree : (c.events.erase .compare).until? .compare = none := by
    rw [Schedule.until?_erase hA.distinct, if_pos rfl]
  rw [scheduleCompare_eq hA.distinct]
  refine ⟨⟨hcount, hcompare, ?_⟩, rfl⟩
  show (⟨Schedule.insertAt .compare .compareMatch c.compareCountdown (c.events.erase .compare).events⟩ :
    Schedule TimerAction).until? .compare = some c.timer.countdown
  rw [Schedule.until?_insert (hA.erase .compare).distinct _ _ hfree, if_pos rfl, compareCountdown_eq]

end Cpu

/-- What a write of a control register does to the timer. -/
def Effect.timerEvents : Effect → List TimerEvent
  | .control r v =>
    if r = Control.count then [.writeCount v.toUInt32]
    else if r = Control.compare then [.writeCompare v.toUInt32]
    else []
  | _ => []

namespace Cpu

open Control

/-- A write of Count. -/
theorem armed_writeCount {c : Cpu} (h : c.Armed) (hT : c.Timed) (v : UInt64) :
    (c.writeControl count v).Armed ∧
      (c.writeControl count v).timer = c.timer.apply (.writeCount v.toUInt32) := by
  let b : ControlRegisters := c.cp0.put count (v &&& countMask)
  have hwrite : c.cp0.write? count v = some b := by
    show some (c.cp0.put count (blend (c.cp0.get count) v countMask)) = some b
    rw [blend_word h.count_lt]
  have heq : c.writeControl count v = scheduleCompare { c with cp0 := b } := by
    unfold Cpu.writeControl
    rw [hwrite]
    rfl
  have hb : b.get count = v &&& countMask := RegisterFile.read_write_self _ _ _
  have hbc : b.get compare = c.cp0.get compare := ControlRegisters.get_put_of_ne _ _ (by decide)
  have hbi : b.get cause = c.cp0.get cause := ControlRegisters.get_put_of_ne _ _ (by decide)
  have hcount : (b.get count).toNat < 2 ^ 32 := by
    rw [hb, toNat_and_countMask]
    exact Nat.mod_lt _ (by decide)
  obtain ⟨harmed, htimer⟩ :=
    armed_scheduleCompare (c := { c with cp0 := b }) hT.agenda hcount (hbc ▸ h.compare_lt)
  rw [heq]
  refine ⟨harmed, htimer.trans ?_⟩
  show Timer.mk (b.get count).toUInt32 (b.get compare).toUInt32 (b.get cause &&& causeIP7 != 0) = _
  rw [hb, hbc, hbi, toUInt32_and_countMask]
  rfl

/-- A write of Compare acknowledges a match. -/
theorem armed_writeCompare {c : Cpu} (h : c.Armed) (hT : c.Timed) (v : UInt64) :
    (c.writeControl compare v).Armed ∧
      (c.writeControl compare v).timer = c.timer.apply (.writeCompare v.toUInt32) := by
  let b : ControlRegisters := (c.cp0.put compare (v &&& countMask)).clearBits cause causeIP7
  have hwrite : c.cp0.write? compare v = some (c.cp0.put compare (v &&& countMask)) := by
    show some (c.cp0.put compare (blend (c.cp0.get compare) v countMask)) = some _
    rw [blend_word h.compare_lt]
  have heq : c.writeControl compare v = (scheduleCompare { c with cp0 := b }).updateInterrupts := by
    unfold Cpu.writeControl
    rw [hwrite]
    rfl
  have hb : b.get compare = v &&& countMask :=
    (ControlRegisters.get_put_of_ne _ _ (by decide)).trans (RegisterFile.read_write_self _ _ _)
  have hbc : b.get count = c.cp0.get count :=
    (ControlRegisters.get_put_of_ne _ _ (by decide)).trans (ControlRegisters.get_put_of_ne _ _ (by decide))
  have hbi : b.get cause &&& causeIP7 = 0 := by
    have hget : b.get cause = (c.cp0.put compare (v &&& countMask)).values.read cause &&& ~~~causeIP7 :=
      RegisterFile.read_write_self _ _ _
    rw [hget, UInt64.and_assoc, UInt64.and_comm _ causeIP7, UInt64.and_not_self, UInt64.and_zero]
  have hcompare : (b.get compare).toNat < 2 ^ 32 := by
    rw [hb, toNat_and_countMask]
    exact Nat.mod_lt _ (by decide)
  obtain ⟨harmed, htimer⟩ :=
    armed_scheduleCompare (c := { c with cp0 := b }) hT.agenda (hbc ▸ h.count_lt) hcompare
  have htiming := timing_updateInterrupts (scheduleCompare { c with cp0 := b })
  rw [heq]
  refine ⟨harmed.of_timing htiming rfl, (timer_eq_of_timing htiming).trans (htimer.trans ?_)⟩
  show Timer.mk (b.get count).toUInt32 (b.get compare).toUInt32 (b.get cause &&& causeIP7 != 0) = _
  rw [hb, hbc, hbi, toUInt32_and_countMask]
  rfl

/-- Other writes leave the timer and the queue alone. -/
theorem timing_writeControl {c : Cpu} {r : Reg} (hcount : r ≠ count) (hcompare : r ≠ compare) (v : UInt64) :
    (c.writeControl r v).cp0.timing = c.cp0.timing ∧ (c.writeControl r v).events = c.events := by
  unfold Cpu.writeControl
  cases hw : c.cp0.write? r v with
  | none => exact ⟨rfl, rfl⟩
  | some b =>
    have hb := timing_write? hw hcount hcompare
    dsimp only
    rw [if_neg hcount, if_neg hcompare]
    split
    · exact ⟨(timing_statusChanged _).trans hb, rfl⟩
    split
    · exact ⟨(timing_updateInterrupts _).trans hb, rfl⟩
    split <;> exact ⟨hb, rfl⟩

/-- **Writes of Count and Compare** do what the reference says, and other writes do nothing. -/
theorem Armed.writeControl {c : Cpu} (h : c.Armed) (hT : c.Timed) (r : Reg) (v : UInt64) :
    (c.writeControl r v).Armed ∧
      (c.writeControl r v).timer = (Effect.control r v).timerEvents.foldl Timer.apply c.timer := by
  by_cases hcount : r = count
  · subst hcount
    exact armed_writeCount h hT v
  · by_cases hcompare : r = Control.compare
    · subst hcompare
      exact armed_writeCompare h hT v
    · have hevents : (Effect.control r v).timerEvents = [] := by
        show (if r = count then _ else if r = Control.compare then _ else []) = _
        rw [if_neg hcount, if_neg hcompare]
      obtain ⟨htiming, hsame⟩ := timing_writeControl (c := c) hcount hcompare v
      rw [hevents]
      exact ⟨h.of_timing htiming hsame, timer_eq_of_timing htiming⟩

end Cpu

/-! ## Executions -/

namespace Execution

/-- What an execution does to the timer: a write, if it is one, and its cycles. -/
def timerEvents (e : Execution) : List TimerEvent :=
  (match e.planned with
    | .ok p => p.effect.timerEvents
    | .error _ => []) ++ List.replicate (e.after.cycles - e.before.cycles).toNat .cycle

/-- Before its cycle passes, an instruction has done its write. -/
theorem armed_worked {e : Execution} {b : Cpu} (hw : e.worked = some b) (h : e.before.Armed)
    (hT : e.before.Timed) :
    b.Armed ∧ b.timer =
      (match e.planned with
        | .ok p => p.effect.timerEvents
        | .error _ => []).foldl Timer.apply e.before.timer := by
  rcases worked_cases hw with ⟨p, hplanned, rfl⟩ | ⟨⟨f, hplanned⟩, fcr31, t, rfl⟩
  · rw [hplanned]
    have hfollow := Cpu.timing_follow (e.before.apply p.effect) e.before.successor p.flow
    -- only a write of a control register is an event for the timer
    by_cases hcontrol : ∃ rd v, p.effect = .control rd v
    · obtain ⟨rd, v, heff⟩ := hcontrol
      have hwrite := h.writeControl hT rd v
      have happly : e.before.apply p.effect = e.before.writeControl rd v := by rw [heff]; rfl
      refine ⟨?_, ?_⟩
      · exact Cpu.Armed.of_timing (happly ▸ hwrite.1) hfollow (Cpu.events_follow _ _ _)
      · exact (Cpu.timer_eq_of_timing hfollow).trans (by rw [happly, hwrite.2, ← heff])
    · have hne : ∀ rd v, p.effect ≠ .control rd v := fun rd v he => hcontrol ⟨rd, v, he⟩
      have hnone : p.effect.timerEvents = [] := by
        cases heff : p.effect with
        | control rd v => exact absurd heff (hne rd v)
        | _ => rfl
      have htiming := hfollow.trans (Cpu.timing_apply e.before hne)
      refine ⟨h.of_timing htiming ((Cpu.events_follow _ _ _).trans (Cpu.events_apply e.before hne)), ?_⟩
      show _ = p.effect.timerEvents.foldl Timer.apply e.before.timer
      rw [hnone]
      exact Cpu.timer_eq_of_timing htiming
  · rw [hplanned]
    have htiming := Cpu.timing_takeException { e.before with fcr31 := fcr31 } t e.before.inDelaySlot
    exact ⟨h.of_timing htiming (Cpu.events_takeException _ _ _), Cpu.timer_eq_of_timing htiming⟩

/-- **An instruction does to the timer** what its write and its cycles do. -/
theorem armed_after {e : Execution} (h : e.before.Armed) (hT : e.before.Timed) :
    e.after.Armed ∧ e.after.timer = e.timerEvents.foldl Timer.apply e.before.timer := by
  cases hw : e.worked with
  | none =>
    have hafter : e.after = e.before := by rw [e.after_eq, hw]
    have hplanned : (match e.planned with
        | .ok p => p.effect.timerEvents
        | .error _ => []) = [] := by
      cases hp : e.planned with
      | ok p => unfold worked at hw; rw [hp] at hw; cases hw
      | error f => rfl
    unfold timerEvents
    rw [hplanned, hafter, UInt64.sub_self]
    exact ⟨h, rfl⟩
  | some b =>
    obtain ⟨hb, htimer⟩ := armed_worked hw h hT
    have hbT := timed_worked hw hT
    obtain ⟨hretire, hretiret⟩ := hb.retire hbT
    obtain ⟨hskip, hskipt⟩ := hretire.skipIdle hbT.retire
    have hcycles := toNat_cycles_after hw hT
    unfold timerEvents
    rw [List.foldl_append, ← htimer, Timer.foldl_cycles, hcycles, e.after_eq, idleCycles, hw]
    dsimp only
    cases e.idle with
    | false =>
      rw [if_neg Bool.false_ne_true, if_neg Bool.false_ne_true]
      exact ⟨hretire, hretiret⟩
    | true =>
      rw [if_pos rfl, if_pos rfl]
      refine ⟨hskip, ?_⟩
      rw [hskipt, hretiret, Nat.add_comm, Function.iterate_succ_apply]

end Execution

end Vr4300
