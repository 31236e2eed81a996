import Vr4300.Machine.Run
import Vr4300.Proofs.DueTimes
import Vr4300.Proofs.Interrupts

/-!
# `Proofs.Passage` — the passing of time

Time passes in three ways: a cycle for an instruction, a batch of cycles for deferred instructions, and
an idle skip. All three move the clock, Count and the schedule together. This file describes them by one
invariant of the schedule, `Agenda`, and two laws: while nothing falls due a passage is a plain update
(`advance_of_quiet`), and otherwise what holds of one dispatch holds of all of them (`advance_rule`).

## Contents

* `Agenda`: the schedules of a processor, with a bound on what is still ahead;
* `advance_of_quiet`, `advance_rule`;
* `Cpu.Timed`: nothing is due and the timer is armed, before a cycle and after it (`Timed.advance_one`).
-/

namespace Vr4300

/-! ## The schedules of a processor -/

/-- The farthest that an event can be ahead. -/
def horizon : Int := 0x7FFFFFFFFFFFFFFF

/-- The schedules of a processor: a table of the timer and the end of the run, with at least `least`
cycles until each. -/
structure Agenda (s : Schedule TimerAction) (least : Int) : Prop where
  /-- The events are in the order in which they fall due. -/
  ordered : s.Ordered
  /-- Each is pending once. -/
  distinct : s.Distinct
  /-- They are the timer and the end of the run. -/
  labelled : ∀ p ∈ s.labels, p = (.compare, .compareMatch) ∨ p = (.runForCycles, .budgetSpent)
  /-- They are ahead, within the horizon. -/
  ahead : ∀ p ∈ s.dueTimes, least ≤ p.2 ∧ p.2 ≤ horizon

namespace Agenda

variable {s : Schedule TimerAction} {least : Int}

/-- Nothing else is pending. -/
theorem kinds (h : Agenda s least) {kind : EventKind} {left : Int} (hmem : (kind, left) ∈ s.dueTimes) :
    kind = .compare ∨ kind = .runForCycles := by
  obtain ⟨action, haction⟩ := Schedule.exists_label hmem
  rcases h.labelled _ haction with heq | heq
  · exact .inl (Prod.mk.inj heq).1
  · exact .inr (Prod.mk.inj heq).1

theorem empty : Agenda {} least where
  ordered := List.Pairwise.nil
  distinct := List.nodup_nil
  labelled := by intro p hp; cases hp
  ahead := by intro p hp; cases hp

theorem weaken (h : Agenda s least) {l : Int} (hl : l ≤ least) : Agenda s l :=
  { h with ahead := fun p hp => ⟨Int.le_trans hl (h.ahead p hp).1, (h.ahead p hp).2⟩ }

theorem advance (h : Agenda s least) {n : Int} (hn : 0 ≤ n) : Agenda (s.advance n) (least - n) where
  ordered := h.ordered.advance n
  distinct := h.distinct.advance n
  labelled := by rw [Schedule.labels_advance]; exact h.labelled
  ahead := by
    rw [Schedule.dueTimes_advance]
    intro p hp
    obtain ⟨q, hq, rfl⟩ := List.mem_map.mp hp
    have := h.ahead q hq
    show least - n ≤ q.2 - n ∧ q.2 - n ≤ horizon
    omega

theorem insert (h : Agenda s least) {kind : EventKind} {n : Int} {action : TimerAction}
    (hfree : s.until? kind = none) (hn : least ≤ n ∧ n ≤ horizon)
    (hlabel : (kind, action) = (.compare, .compareMatch) ∨ (kind, action) = (.runForCycles, .budgetSpent)) :
    Agenda ⟨Schedule.insertAt kind action n s.events⟩ least where
  ordered := h.ordered.insert kind n action
  distinct := h.distinct.insert n action hfree
  labelled := by
    intro p hp
    rcases Schedule.mem_labels_insert hp with rfl | hp
    · exact hlabel
    · exact h.labelled p hp
  ahead := by
    rw [Schedule.dueTimes_insert]
    intro p hp
    rcases (List.mem_orderedInsert Schedule.NoLater).mp hp with rfl | hp
    · exact hn
    · exact h.ahead p hp

theorem erase (h : Agenda s least) (kind : EventKind) : Agenda (s.erase kind) least where
  ordered := h.ordered.erase kind
  distinct := h.distinct.erase kind
  labelled := fun p hp => h.labelled p (Schedule.mem_labels_erase hp)
  ahead := by
    rw [Schedule.dueTimes_erase]
    exact fun p hp => h.ahead p (List.mem_of_mem_eraseP hp)

/-- Taking out what is due leaves an agenda. -/
theorem popDue (h : Agenda s least) {rest : Schedule TimerAction} {action : TimerAction}
    (hp : s.popDue? = some (action, rest)) :
    ∃ kind left, left ≤ 0 ∧ s.dueTimes = (kind, left) :: rest.dueTimes ∧ Agenda rest least ∧
      ((kind, action) = (.compare, .compareMatch) ∨ (kind, action) = (.runForCycles, .budgetSpent)) := by
  obtain ⟨kind, left, hl, hd, hlab⟩ := Schedule.dueTimes_of_popDue? hp
  refine ⟨kind, left, hl, hd, ?_, h.labelled _ (by rw [hlab]; exact List.mem_cons_self)⟩
  constructor
  · have ho := h.ordered
    unfold Schedule.Ordered at ho ⊢
    rw [hd] at ho
    exact (List.pairwise_cons.mp ho).2
  · have hn := h.distinct
    unfold Schedule.Distinct at hn ⊢
    rw [hd] at hn
    exact (List.nodup_cons.mp hn).2
  · exact fun p hp => h.labelled p (by rw [hlab]; exact List.mem_cons_of_mem _ hp)
  · exact fun p hp => h.ahead p (by rw [hd]; exact List.mem_cons_of_mem _ hp)

/-- If the first event is ahead, all are. -/
theorem of_popDue?_eq_none (h : Agenda s least) (hp : s.popDue? = none) : Agenda s 1 := by
  refine { h with ahead := ?_ }
  intro p hm
  have hhead := Schedule.head_pos_of_popDue?_eq_none hp
  cases hu : s.untilNext? with
  | none =>
    rw [Schedule.untilNext?_eq_head?, Option.map_eq_none_iff, List.head?_eq_none_iff] at hu
    rw [hu] at hm
    cases hm
  | some left =>
    have hle := h.ordered.head_le hu hm
    rw [Schedule.untilNext?_eq_head?, Option.map_eq_some_iff] at hu
    obtain ⟨q, hq, rfl⟩ := hu
    have := hhead q hq
    exact ⟨by omega, (h.ahead p hm).2⟩

theorem untilNext? (h : Agenda s least) {left : Int} (hu : s.untilNext? = some left) :
    least ≤ left ∧ left ≤ horizon := by
  rw [Schedule.untilNext?_eq_head?, Option.map_eq_some_iff] at hu
  obtain ⟨q, hq, rfl⟩ := hu
  exact h.ahead q (List.mem_of_mem_head? hq)

/-- Skipping to a cycle before the next event leaves that cycle. -/
theorem skip (h : Agenda s 1) : Agenda (s.advance (s.slack 1)) 1 := by
  have h0 : 0 ≤ s.slack 1 := by unfold Schedule.slack; omega
  refine { h.advance h0 with ahead := ?_ }
  rw [Schedule.dueTimes_advance]
  intro p hp
  obtain ⟨q, hq, rfl⟩ := List.mem_map.mp hp
  have hq1 := h.ahead q hq
  show 1 ≤ q.2 - s.slack 1 ∧ q.2 - s.slack 1 ≤ horizon
  refine ⟨?_, by omega⟩
  cases hu : s.untilNext? with
  | none =>
    rw [Schedule.untilNext?_eq_head?, Option.map_eq_none_iff, List.head?_eq_none_iff] at hu
    rw [hu] at hq
    cases hq
  | some left =>
    have hle := h.ordered.head_le hu hq
    have hslack : s.slack 1 = max 0 (left - 1) := by unfold Schedule.slack; rw [hu]; rfl
    omega

end Agenda

namespace Cpu

/-! ## Words as distances -/

theorem toInt_ofNat {n : Nat} (h : (n : Int) ≤ horizon) : (UInt64.ofNat n).toInt64.toInt = n := by
  unfold horizon at h
  show (UInt64.ofNat n).toInt64.toBitVec.toInt = n
  show (BitVec.ofNat 64 n).toInt = n
  rw [BitVec.toInt_eq_toNat_of_lt]
  · rw [BitVec.toNat_ofNat, Nat.mod_eq_of_lt (by omega)]
  · rw [BitVec.toNat_ofNat, Nat.mod_eq_of_lt (by omega)]
    omega

theorem ofInt_eq_ofNat {k : Int} (h : 0 ≤ k) : UInt64.ofInt k = UInt64.ofNat k.toNat := by
  obtain ⟨n, rfl⟩ := Int.eq_ofNat_of_zero_le h
  apply UInt64.toNat_inj.mp
  show (UInt64.ofNat ((n : Int) % 2 ^ 64).toNat).toNat = (UInt64.ofNat n).toNat
  rw [UInt64.toNat_ofNat', UInt64.toNat_ofNat']
  omega

/-! ## Passing cycles -/

theorem countMask_and (a b : UInt64) : ((a &&& countMask) + b) &&& countMask = (a + b) &&& countMask := by
  apply UInt64.toNat_inj.mp
  have hmask (x : UInt64) : (x &&& countMask).toNat = x.toNat % 2 ^ 32 := by
    rw [UInt64.toNat_and]
    exact Nat.and_two_pow_sub_one_eq_mod x.toNat 32
  rw [hmask, hmask, UInt64.toNat_add, UInt64.toNat_add, hmask]
  omega

/-- Cycles add up. -/
theorem passCycles_passCycles (c : Cpu) (m n : UInt64) :
    (c.passCycles m).passCycles n = c.passCycles (m + n) := by
  have hget : (c.passCycles m).cp0.get Control.count = (c.cp0.get Control.count + m) &&& countMask := by
    show (c.cp0.put Control.count _).values.read Control.count = _
    rw [ControlRegisters.values_put, RegisterFile.read_write_self]
  have hcount : ((c.passCycles m).cp0.get Control.count + n) &&& countMask =
      (c.cp0.get Control.count + (m + n)) &&& countMask := by
    rw [hget, countMask_and, UInt64.add_assoc]
  unfold passCycles at hcount ⊢
  simp only [hcount, ControlRegisters.put_put, UInt64.add_assoc]

/-- Sampling the line does not care when cycles pass. -/
theorem updateInterrupts_passCycles (c : Cpu) (n : UInt64) :
    (c.passCycles n).updateInterrupts = c.updateInterrupts.passCycles n := by
  have hcount : Control.count ≠ Control.cause := by decide
  rw [updateInterrupts_eq, updateInterrupts_eq]
  unfold passCycles
  simp only [ControlRegisters.sample_put _ _ _ hcount, ControlRegisters.get_sample _ _ hcount,
    ControlRegisters.interruptPending_put _ _ hcount (show Control.count ≠ Control.status by decide)]

/-- **A quiet passage**: while nothing falls due, the clock, Count and the schedule move and nothing
else happens. -/
theorem advance_of_quiet (c : Cpu) {n : Nat} (hn : (n : Int) ≤ horizon)
    (hquiet : ∀ left ∈ c.events.untilNext?, (n : Int) < left) :
    c.advance (UInt64.ofNat n) =
      { c.passCycles (UInt64.ofNat n) with events := c.events.advance n } := by
  unfold advance elapse
  rw [toInt_ofNat hn]
  apply fireDue_of_none
  apply Schedule.popDue?_eq_none_of_head_pos
  show ∀ left ∈ (c.events.advance n).untilNext?, 0 < left
  rw [Schedule.untilNext?_advance]
  intro left hl
  obtain ⟨l, hl', rfl⟩ := Option.mem_map.mp hl
  have := hquiet l hl'
  omega

theorem schedule_of_free (c : Cpu) {kind : EventKind} {n : Int} (action : TimerAction) (hn : 0 < n)
    (hfree : c.events.until? kind = none) :
    c.schedule kind n action =
      { c with events := ⟨Schedule.insertAt kind action n c.events.events⟩ } := by
  unfold schedule
  rw [Schedule.add_eq_ok _ _ hn hfree]

/-- The state in which the timer has matched. -/
theorem compareMatched_eq (c : Cpu) (hfree : c.events.until? .compare = none) :
    c.compareMatched = updateInterrupts
      { c with
        cp0 := c.cp0.setBits Control.cause Control.causeIP7
        events := ⟨Schedule.insertAt .compare .compareMatch comparePeriod c.events.events⟩ } := by
  exact congrArg updateInterrupts
    (schedule_of_free { c with cp0 := c.cp0.setBits Control.cause Control.causeIP7 } .compareMatch
      (n := comparePeriod) (by decide) hfree)

/-- How many events of a processor are due. -/
def overdue (c : Cpu) : Nat := c.events.dueTimes.countP (·.2 ≤ 0)

/-- The first event of an agenda is due, and `rest` is what remains behind it. -/
structure Due (s : Schedule TimerAction) (kind : EventKind) (rest : Schedule TimerAction) : Prop where
  /-- Nothing is late. -/
  agenda : Agenda s 0
  /-- The event is the first one. -/
  head : s.dueTimes = (kind, 0) :: rest.dueTimes

namespace Due

variable {s rest : Schedule TimerAction} {kind : EventKind}

theorem distinct (h : Due s kind rest) : rest.Distinct := by
  have hn := h.agenda.distinct
  unfold Schedule.Distinct at hn ⊢
  rw [h.head] at hn
  exact (List.nodup_cons.mp hn).2

theorem until?_self (h : Due s kind rest) : s.until? kind = some 0 :=
  (Schedule.until?_eq_some_iff h.agenda.distinct).mpr (by rw [h.head]; exact List.mem_cons_self)

theorem free (h : Due s kind rest) : rest.until? kind = none := by
  rw [Schedule.until?_of_dueTimes_cons h.agenda.distinct h.head kind, if_pos rfl]

theorem until?_of_ne (h : Due s kind rest) {k : EventKind} (hk : k ≠ kind) : rest.until? k = s.until? k := by
  rw [Schedule.until?_of_dueTimes_cons h.agenda.distinct h.head k, if_neg hk]

/-- The timer waits for the next match, and nothing else has changed. -/
theorem until?_rearmed (h : Due s .compare rest) (k : EventKind) :
    (⟨Schedule.insertAt .compare .compareMatch comparePeriod rest.events⟩ : Schedule TimerAction).until? k =
      if k = .compare then some comparePeriod else s.until? k := by
  rw [Schedule.until?_insert h.distinct _ _ h.free]
  split
  · rfl
  · rename_i hk
    exact h.until?_of_ne hk

end Due

/-- The first of the events that are due is due now. -/
theorem due_of_popDue {s : Schedule TimerAction} (h : Agenda s 0) {action : TimerAction}
    {rest : Schedule TimerAction} (hpop : s.popDue? = some (action, rest)) :
    Agenda rest 0 ∧ ((action = .compareMatch ∧ Due s .compare rest) ∨
      (action = .budgetSpent ∧ Due s .runForCycles rest)) := by
  obtain ⟨kind, left, hle, hd, hrest, hlabel⟩ := h.popDue hpop
  have hahead : 0 ≤ left := (h.ahead (kind, left) (by rw [hd]; exact List.mem_cons_self)).1
  obtain rfl : left = 0 := Int.le_antisymm hle hahead
  rcases hlabel with hk | hk
  · obtain ⟨rfl, rfl⟩ := Prod.mk.inj hk
    exact ⟨hrest, .inl ⟨rfl, h, hd⟩⟩
  · obtain ⟨rfl, rfl⟩ := Prod.mk.inj hk
    exact ⟨hrest, .inr ⟨rfl, h, hd⟩⟩

/-- Without the first event, one less is due. -/
theorem Due.overdue {s : Cpu} {kind : EventKind} {rest : Schedule TimerAction} (h : Due s.events kind rest) :
    s.overdue = rest.dueTimes.countP (·.2 ≤ 0) + 1 := by
  unfold Cpu.overdue
  rw [h.head, List.countP_cons_of_pos (by simp)]

/-- **A dispatch** leaves nothing late, and less that is due. -/
theorem agenda_perform {s : Cpu} (h : Agenda s.events 0) {action : TimerAction}
    {rest : Schedule TimerAction} (hpop : s.events.popDue? = some (action, rest)) :
    Agenda (Scheduled.perform action { s with events := rest } : Cpu).events 0 ∧
      overdue (Scheduled.perform action { s with events := rest }) < s.overdue := by
  obtain ⟨hrest, ⟨rfl, hdue⟩ | ⟨rfl, hdue⟩⟩ := due_of_popDue h hpop
  -- the timer waits for the next match, a long way ahead
  · have hevents : (compareMatched { s with events := rest }).events =
        ⟨Schedule.insertAt .compare .compareMatch comparePeriod rest.events⟩ := by
      rw [compareMatched_eq _ hdue.free]
      rfl
    constructor
    · show Agenda (compareMatched { s with events := rest }).events 0
      rw [hevents]
      exact hrest.insert hdue.free (by decide) (Or.inl rfl)
    · show overdue (compareMatched { s with events := rest }) < s.overdue
      rw [hdue.overdue]
      unfold overdue
      rw [hevents, Schedule.dueTimes_insert, (List.perm_orderedInsert _ _ _).countP_eq,
        List.countP_cons_of_neg (by decide)]
      exact Nat.lt_succ_self _
  · refine ⟨hrest, ?_⟩
    rw [hdue.overdue]
    exact Nat.lt_succ_self _

/-- **What one dispatch preserves, a passage of time preserves.** The first event is due exactly now
when it is dispatched, and afterwards nothing is. -/
theorem advance_rule {P : Cpu → Prop} (c : Cpu) {n : Nat} (hc : Agenda c.events n)
    (hn : (n : Int) ≤ horizon)
    (hstart : P { c.passCycles (UInt64.ofNat n) with events := c.events.advance n })
    (hcompare : ∀ s rest, P s → Due s.events .compare rest →
      P (compareMatched { s with events := rest }))
    (hbudget : ∀ s rest, P s → Due s.events .runForCycles rest →
      P (budgetSpent { s with events := rest })) :
    P (c.advance (UInt64.ofNat n)) ∧ Agenda (c.advance (UInt64.ofNat n)).events 1 := by
  unfold advance elapse
  rw [toInt_ofNat hn]
  let start : Cpu := { c.passCycles (UInt64.ofNat n) with events := c.events.advance n }
  have hagenda : Agenda start.events 0 := by
    have := hc.advance (n := n) (by omega)
    rwa [Int.sub_self] at this
  have hlimit : start.overdue ≤ (c.events.advance n).size := by
    rw [← Schedule.length_dueTimes]
    exact List.countP_le_length
  -- the invariant of the dispatch: `P`, and an agenda on which nothing is late
  have hstep (s : Cpu) (action : TimerAction) (rest : Schedule TimerAction)
      (hs : P s ∧ Agenda s.events 0) (hpop : s.events.popDue? = some (action, rest)) :
      (P (Scheduled.perform action { s with events := rest }) ∧
        Agenda (Scheduled.perform action { s with events := rest } : Cpu).events 0) ∧
        overdue (Scheduled.perform action { s with events := rest }) < s.overdue := by
    obtain ⟨hnext, hless⟩ := agenda_perform hs.2 hpop
    obtain ⟨-, ⟨rfl, hdue⟩ | ⟨rfl, hdue⟩⟩ := due_of_popDue hs.2 hpop
    · exact ⟨⟨hcompare s rest hs.1 hdue, hnext⟩, hless⟩
    · exact ⟨⟨hbudget s rest hs.1 hdue, hnext⟩, hless⟩
  obtain ⟨⟨hP, hA⟩, hdone⟩ :=
    fireDue_spec (P := fun s : Cpu => P s ∧ Agenda s.events 0) hstep ⟨hstart, hagenda⟩ hlimit
  exact ⟨hP, hA.of_popDue?_eq_none hdone⟩

/-- Nothing is due, and the timer is armed. -/
structure Timed (c : Cpu) : Prop where
  /-- Everything pending is at least a cycle ahead. -/
  agenda : Agenda c.events 1
  /-- The timer is pending. -/
  armed : c.events.until? .compare ≠ none

/-- Only the schedule decides. -/
theorem Timed.of_events {c c' : Cpu} (h : c.Timed) (he : c'.events = c.events) : c'.Timed :=
  ⟨he ▸ h.agenda, he ▸ h.armed⟩

theorem Timed.untilNext? {c : Cpu} (h : c.Timed) :
    ∃ left, c.events.untilNext? = some left ∧ 1 ≤ left ∧ left ≤ horizon := by
  cases hu : c.events.untilNext? with
  | some left => exact ⟨left, rfl, h.agenda.untilNext? hu⟩
  | none =>
    rw [Schedule.untilNext?_eq_head?, Option.map_eq_none_iff, List.head?_eq_none_iff] at hu
    exfalso
    apply h.armed
    rw [Schedule.until?_eq_none_iff, hu]
    intro p hp
    cases hp

/-- **What one dispatch preserves, an instruction's cycle preserves.** -/
theorem Timed.advance_one_rule {P : Cpu → Prop} {c : Cpu} (hc : c.Timed)
    (hstart : P { c.passCycles 1 with events := c.events.advance 1 })
    (hcompare : ∀ s rest, P s → Due s.events .compare rest →
      P (compareMatched { s with events := rest }))
    (hbudget : ∀ s rest, P s → Due s.events .runForCycles rest →
      P (budgetSpent { s with events := rest })) :
    P (c.advance 1) :=
  (advance_rule (n := 1) c hc.agenda (by decide) hstart hcompare hbudget).1

theorem Timed.advance_one {c : Cpu} (hc : c.Timed) : (c.advance 1).Timed := by
  have h := advance_rule (P := fun s => s.events.until? .compare ≠ none) (n := 1) c hc.agenda (by decide)
    ?_ ?_ ?_
  · exact ⟨h.2, h.1⟩
  · show (c.events.advance 1).until? .compare ≠ none
    rw [Schedule.until?_advance, ne_eq, Option.map_eq_none_iff]
    exact hc.armed
  · intro s rest _ hdue
    rw [compareMatched_eq _ hdue.free]
    show (⟨Schedule.insertAt .compare .compareMatch comparePeriod rest.events⟩ :
      Schedule TimerAction).until? .compare ≠ none
    rw [hdue.until?_rearmed, if_pos rfl]
    exact Option.some_ne_none _
  · intro s rest hs hdue
    show rest.until? .compare ≠ none
    rw [hdue.until?_of_ne (by decide)]
    exact hs

end Cpu

end Vr4300
