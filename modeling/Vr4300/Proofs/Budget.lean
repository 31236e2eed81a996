import Vr4300.Proofs.Host

/-!
# `Proofs.Budget` — how many cycles a run takes

The budget of a run is spent in the cycle of an instruction, and the run ends there, with one exception. A
branch to itself with an empty delay slot forwards time to the cycle before the next event, and it does so
behind its own cycle. If that cycle spends the budget, the deadline is gone by then and the next event is the
match of the timer, so the run overshoots its budget by the cycles to the match.

## Contents

* `Chain.spend`: the cycles of a chain against its deadline;
* `Execution.overshoot`, `idleCycles_of_spent`;
* `run_spends_budget`: what every run takes;
* `idling`, `run_overshoots`: a run that takes too much.
-/

namespace Vr4300

/-! ## Spending -/

/-- Behind the instruction that spends the budget nothing is executed. -/
theorem Chain.stopped {a b : Cpu} {es : List Execution} (h : Chain a es b) (ha : a.breakout ≠ none) :
    es = [] ∧ b.breakout = a.breakout ∧ b.cycles = a.cycles := by
  induction h with
  | nil => exact ⟨rfl, rfl, rfl⟩
  | quiet hq _ ih =>
    obtain ⟨hes, hbreak, hcycles⟩ := ih (hq.breakout ▸ ha)
    exact ⟨hes, hbreak.trans hq.breakout, hcycles.trans hq.cycles⟩
  | execute e hnone _ _ => exact absurd hnone ha

/-- A chain whose deadline is still ahead, by fewer cycles than at its start. -/
structure Running (a b : Cpu) (left : Int) : Prop where
  /-- Nothing asks the run to end. -/
  breakout : b.breakout = none
  /-- It has used some of the cycles. -/
  used : ∃ n : Nat, (n : Int) < left ∧ b.cycles = a.cycles + UInt64.ofNat n

/-- A chain whose last instruction reached the deadline. -/
structure Spent (a b : Cpu) (left : Int) (es : List Execution) : Prop where
  /-- The run is to end. -/
  breakout : b.breakout = some .budgetExhausted
  /-- The last instruction spent the last cycle, and forwarded time behind it. -/
  last : ∃ (earlier : List Execution) (e : Execution) (w : Cpu), es = earlier ++ [e] ∧ e.worked = some w ∧
    e.before.Timed ∧ e.before.deadline? = some 1 ∧
    b.cycles = a.cycles + UInt64.ofNat (left.toNat + e.idleCycles)

/-- Cycles counted behind an instruction, counted from before it. -/
theorem Execution.cycles_after_add {e : Execution} {w : Cpu} (hw : e.worked = some w) (hT : e.before.Timed)
    (n : Nat) :
    e.after.cycles + UInt64.ofNat n = e.before.cycles + UInt64.ofNat (1 + e.idleCycles + n) := by
  rw [Execution.cycles_after hw hT, UInt64.ofNat_add, UInt64.ofNat_add, UInt64.add_assoc, UInt64.add_assoc,
    UInt64.add_assoc]
  rfl

section Prepend

variable {e : Execution} {w b : Cpu} {left : Int} {es : List Execution}

/-- One more instruction at the start of a chain that is running. -/
theorem Running.prepend (h : Running e.after b (left - 1 - e.idleCycles)) (hw : e.worked = some w)
    (hT : e.before.Timed) : Running e.before b left := by
  obtain ⟨n, hn, hused⟩ := h.used
  exact ⟨h.breakout, 1 + e.idleCycles + n, by omega, hused.trans (Execution.cycles_after_add hw hT n)⟩

/-- One more instruction at the start of a chain that has spent its budget. -/
theorem Spent.prepend (h : Spent e.after b (left - 1 - e.idleCycles) es) (hw : e.worked = some w)
    (hT : e.before.Timed) (hleft : 1 ≤ left - 1 - (e.idleCycles : Int)) : Spent e.before b left (e :: es) := by
  obtain ⟨earlier, f, w', rfl, hf, hfT, hfone, hend⟩ := h.last
  refine ⟨h.breakout, e :: earlier, f, w', rfl, hf, hfT, hfone, ?_⟩
  rw [hend, Execution.cycles_after_add hw hT]
  congr 2
  omega

end Prepend

/-- **A chain with a deadline** is running, or its last instruction has reached the deadline. -/
theorem Chain.spend {a b : Cpu} {es : List Execution} (h : Chain a es b) :
    ∀ {left : Int}, a.Timed → a.breakout = none → a.deadline? = some left →
      Running a b left ∨ Spent a b left es := by
  induction h with
  | nil c =>
    intro left hT hb hleft
    have hone : 1 ≤ left := (hT.agenda.ahead _ ((Schedule.until?_eq_some_iff hT.agenda.distinct).mp hleft)).1
    exact .inl ⟨hb, 0, by omega, (UInt64.add_zero _).symm⟩
  | quiet hq _ ih =>
    intro left hT hb hleft
    have hrest := ih (hq.timed hT) (hq.breakout.trans hb) (hq.deadline?.trans hleft)
    refine hrest.imp (fun h => ⟨h.breakout, ?_⟩) (fun h => ⟨h.breakout, ?_⟩)
    · rw [← hq.cycles]
      exact h.used
    · rw [← hq.cycles]
      exact h.last
  | @execute c es e _ hchain ih =>
    intro left hT hb hleft
    cases hw : e.worked with
    | none =>
      -- a fatal instruction changes nothing
      have hafter : e.after = e.before := by rw [e.after_eq, hw]
      have hrest := ih (hafter ▸ hT) (hafter ▸ hb) (hafter ▸ hleft)
      rw [hafter] at hrest
      refine hrest.imp id fun h => ⟨h.breakout, ?_⟩
      obtain ⟨earlier, f, w, rfl, hlast⟩ := h.last
      exact ⟨e :: earlier, f, w, rfl, hlast⟩
    | some w =>
      rcases Execution.deadline?_after hw hT with ⟨hdead, hbreak⟩ | ⟨hone, -, hbreak⟩
      -- the deadline moves closer by the cycles of the instruction
      · rw [hleft] at hdead
        have hdead : e.after.deadline? = some (left - 1 - (e.idleCycles : Int)) := hdead
        have hT' := Execution.timed_after hT
        have hahead : 1 ≤ left - 1 - (e.idleCycles : Int) :=
          (hT'.agenda.ahead _ ((Schedule.until?_eq_some_iff hT'.agenda.distinct).mp hdead)).1
        exact (ih hT' (hbreak.trans hb) hdead).imp (·.prepend hw hT) (·.prepend hw hT hahead)
      -- the instruction reaches it, and nothing follows
      · obtain rfl : left = 1 := Option.some.inj (hleft.symm.trans hone)
        have hstop : e.after.breakout = some .budgetExhausted := by rw [hbreak, hb]; rfl
        obtain ⟨rfl, hbreak', hcycles'⟩ := hchain.stopped (by rw [hstop]; exact Option.some_ne_none _)
        refine .inr ⟨hbreak'.trans hstop, [], e, w, rfl, hw, hT, hone, ?_⟩
        rw [hcycles', Execution.cycles_after hw hT, UInt64.add_assoc]
        show e.before.cycles + (1 + UInt64.ofNat e.idleCycles) =
          e.before.cycles + UInt64.ofNat (1 + e.idleCycles)
        rw [UInt64.ofNat_add]
        rfl

/-! ## Overshooting -/

namespace Cpu

/-- Without a deadline, an idle skip goes to the cycle before the match of the timer. -/
theorem idleCycles_of_free {c : Cpu} (hT : c.Timed) (hA : c.Armed) (hfree : c.deadline? = none) :
    c.idleCycles = (c.timer.countdown - 1).toNat := by
  obtain ⟨left, hleft, hone, -⟩ := hT.untilNext?
  have hhead : ∃ kind, (kind, left) ∈ c.events.dueTimes := by
    rw [Schedule.untilNext?_eq_head?] at hleft
    obtain ⟨p, hp, rfl⟩ := Option.map_eq_some_iff.mp hleft
    exact ⟨p.1, List.mem_of_head? hp⟩
  obtain ⟨kind, hmem⟩ := hhead
  have hdue := (Schedule.until?_eq_some_iff hT.agenda.distinct).mpr hmem
  have hcompare : left = c.timer.countdown := by
    rcases hT.agenda.kinds hmem with rfl | rfl
    · exact Option.some.inj (hdue.symm.trans hA.due)
    · cases hdue.symm.trans hfree
  unfold idleCycles Schedule.slack
  rw [hleft, ← hcompare]
  show (max 0 (left - 1)).toNat = _
  congr 1
  omega

end Cpu

namespace Execution

/-- The cycles by which the instruction overshoots a budget that its own cycle spends: an instruction that
waits forwards time to the cycle before the next match of the timer. -/
def overshoot (e : Execution) : Nat :=
  match e.worked with
  | some w => if e.idle then (w.timer.tick.countdown - 1).toNat else 0
  | none => 0

theorem idleCycles_of_spent {e : Execution} {w : Cpu} (hw : e.worked = some w) (hT : e.before.Timed)
    (hA : e.before.Armed) (hone : e.before.deadline? = some 1) : e.idleCycles = e.overshoot := by
  have hwT := timed_worked hw hT
  obtain ⟨hwA, -⟩ := armed_worked hw hA hT
  obtain ⟨hretire, htimer⟩ := hwA.retire hwT
  have hfree : w.retire.deadline? = none := by
    rcases Cpu.deadline?_retire hwT with ⟨hdead, -⟩ | ⟨-, hdead, -⟩
    · rw [deadline?_worked hw hT, hone] at hdead
      have hdead : w.retire.deadline? = some (1 - 1) := hdead
      have hahead := (hwT.retire.agenda.ahead _
        ((Schedule.until?_eq_some_iff hwT.retire.agenda.distinct).mp hdead)).1
      exact absurd hahead (by decide)
    · exact hdead
  unfold idleCycles overshoot
  rw [hw]
  dsimp only
  rw [Cpu.idleCycles_of_free hwT.retire hretire hfree, htimer]

end Execution

/-! ## Runs -/

/-- Where idle loops are not skipped, no instruction waits. -/
theorem Chain.idle_eq_false {a b : Cpu} {es : List Execution} (h : Chain a es b) (hT : a.Timed)
    (ha : a.settings.idleLoopSkip = false) : ∀ e ∈ es, e.idle = false := by
  induction h with
  | nil => intro e he; cases he
  | quiet hq _ ih => exact ih (hq.timed hT) (by rw [hq.settings]; exact ha)
  | execute e _ _ ih =>
    have hsettings := Execution.settings_after hT
    intro f hf
    rcases List.mem_cons.mp hf with rfl | hf
    · unfold Execution.idle
      cases f.planned with
      | error _ => rfl
      | ok p =>
        show f.before.idles p.flow = false
        unfold Cpu.idles
        rw [ha]
        cases p.flow <;> rfl
    · exact ih (Execution.timed_after hT) (by rw [hsettings]; exact ha) f hf

namespace Machine

namespace Ends

variable {c c' : Cpu} {result : Option (Except FatalError Exit)}

/-- A run with the result of a spent budget was to end for that. -/
theorem of_exhausted (h : Ends c result c') (hr : result = some (.ok .budgetExhausted)) :
    c'.cycles = c.cycles ∧ c.breakout = some .budgetExhausted := by
  cases h with
  | stop hb => cases hr; exact ⟨rfl, hb⟩
  | unfinished | breakpoint | fatal => cases hr

/-- A run with another result was not. -/
theorem of_other {x : Except FatalError Exit} (h : Ends c result c') (hr : result = some x)
    (hne : x ≠ .ok .budgetExhausted) : c'.cycles = c.cycles ∧ c.breakout ≠ some .budgetExhausted := by
  cases h with
  | unfinished => cases hr
  | stop hb =>
    obtain rfl := Option.some.inj hr
    exact ⟨rfl, fun h => hne (by rw [Option.some.inj (hb.symm.trans h)])⟩
  | breakpoint hb | fatal hb => exact ⟨rfl, by rw [hb]; exact fun h => by cases h⟩

end Ends

/-- The cycles that a run takes. -/
def elapsed (m : Machine) (budget : UInt64) : Nat := ((m.run budget).2.cpu.cycles - m.cpu.cycles).toNat

/-- What a run takes of its budget. -/
structure Spends (m : Machine) (budget : UInt64) : Prop where
  /-- No deadline is left behind. -/
  free : (m.run budget).2.cpu.events.until? .runForCycles = none
  /-- A run that ends for another reason takes less than its budget. -/
  other : ∀ x, (m.run budget).1 = some x → x ≠ .ok .budgetExhausted → m.elapsed budget < budget.toNat
  /-- A run that spends its budget takes what its last instruction overshoots in addition. -/
  exhausted : (m.run budget).1 = some (.ok .budgetExhausted) →
    ∃ earlier e, m.executions budget = earlier ++ [e] ∧ m.elapsed budget = budget.toNat + e.overshoot
  /-- It takes exactly its budget where idle loops are not skipped. -/
  exact : (m.run budget).1 = some (.ok .budgetExhausted) → m.cpu.settings.idleLoopSkip = false →
    m.elapsed budget = budget.toNat

/-- **A run spends** what its chain of instructions does. -/
theorem spends {m : Machine} {past : List TimerEvent} (hm : m.AtRest past) (hbreak : m.cpu.breakout = none)
    {budget : UInt64} (hone : 1 ≤ budget.toNat) (hmax : budget.toNat ≤ 0x7FFFFFFFFFFFFFFF) :
    m.Spends budget := by
  have h0 : budget ≠ 0 := by rintro rfl; exact absurd hone (by decide)
  have hT := hm.ticking.timed
  have hcycles : cyclesOf budget = budget.toNat := Nat.min_eq_left hmax
  have hprepare := cpu_prepare h0 hm.free
  have hdead := deadline?_prepare h0 hT hm.free
  have hTp := timed_prepare h0 hT hm.free
  have hstart : (m.prepare budget).cpu.cycles = m.cpu.cycles := by rw [hprepare]
  have hsettings : (m.prepare budget).cpu.settings = m.cpu.settings := by rw [hprepare]
  have hbreakp : (m.prepare budget).cpu.breakout = none := by rw [hprepare]; exact hbreak
  obtain ⟨c, c', hchain, hends, hcpu⟩ := run_chain h0 hT hm.free
  have hway := (hchain.ticking (ticking_prepare h0 hm)).2
  have hspend := hchain.spend hTp hbreakp hdead
  have helapsed : c'.cycles = c.cycles → ∀ n : Nat, n < 2 ^ 64 →
      c.cycles = (m.prepare budget).cpu.cycles + UInt64.ofNat n → m.elapsed budget = n := by
    intro hc' n hn hc
    unfold elapsed
    rw [hcpu, show (finish c').cycles = c'.cycles from rfl, hc', hc, hstart, UInt64.add_comm,
      UInt64.add_sub_cancel, UInt64.toNat_ofNat']
    exact Nat.mod_eq_of_lt hn
  have hexhausted (h : (m.run budget).1 = some (.ok .budgetExhausted)) :
      ∃ earlier e, m.executions budget = earlier ++ [e] ∧ m.elapsed budget = budget.toNat + e.overshoot := by
    obtain ⟨hsame, hbudget⟩ := hends.of_exhausted h
    rcases hspend with hrunning | hspent
    · cases hrunning.breakout.symm.trans hbudget
    · obtain ⟨earlier, e, w, hes, hw, heT, heone, hend⟩ := hspent.last
      have hle := Execution.idleCycles_le heT
      unfold horizon at hle
      have hover := Execution.idleCycles_of_spent hw heT (hway earlier e [] hes).armed heone
      refine ⟨earlier, e, hes, ?_⟩
      rw [Int.toNat_natCast, hcycles, hover] at hend
      exact helapsed hsame _ (by omega) hend
  refine ⟨?_, ?_, hexhausted, ?_⟩
  -- the deadline is taken away
  · rw [hcpu]
    have hck : c'.Timed := hends.timed (hchain.timed hTp)
    exact (timed_finish hck).2
  -- with another result, it is still ahead
  · intro x hx hne
    obtain ⟨hsame, hother⟩ := hends.of_other hx hne
    rcases hspend with hrunning | hspent
    · obtain ⟨n, hn, hused⟩ := hrunning.used
      rw [hcycles] at hn
      rw [helapsed hsame n (by omega) hused]
      omega
    · exact absurd hspent.breakout hother
  -- without idle loops, no instruction overshoots
  · intro h hskip
    obtain ⟨earlier, e, hes, heq⟩ := hexhausted h
    have hidle : e.idle = false :=
      hchain.idle_eq_false hTp (by rw [hsettings]; exact hskip) e (by rw [hes]; simp)
    have hzero : e.overshoot = 0 := by
      unfold Execution.overshoot
      rw [hidle]
      cases e.worked <;> rfl
    rw [heq, hzero, Nat.add_zero]

end Machine

/-- **A run takes its budget, and what its last instruction overshoots.** In every state that a host can
reach, unless a stop is already asked for. -/
theorem run_spends_budget (config : Configuration) (bus : Bus) (vector : VectorUnit)
    (actions : List HostAction) (budget : UInt64) (hone : 1 ≤ budget.toNat)
    (hmax : budget.toNat ≤ 0x7FFFFFFFFFFFFFFF)
    (hbreak : ((Machine.create config bus vector).performAll actions).cpu.breakout = none) :
    ((Machine.create config bus vector).performAll actions).Spends budget :=
  Machine.spends (Machine.atRest_of_actions config bus vector actions).1 hbreak hone hmax

/-- A machine without memory executes no-ops, and three of them take three cycles. -/
theorem run_spends_budget_memoryless :
    let m := Machine.create { memory := { ramSize := 0 } } {} {}
    (m.run 3).1 = some (.ok .budgetExhausted) ∧ (m.performAll []).Spends 3 :=
  ⟨by decide +kernel, run_spends_budget _ _ _ [] 3 (by decide) (by decide) (by decide +kernel)⟩

/-- A machine in front of a branch to itself whose delay slot is empty. -/
def idling : Machine :=
  (Machine.create
    { general := { startPc := 0xFFFFFFFF80000000 }, memory := { ramSize := 16 } } {} {}).performAll
    [.edit (.loadProgram 0 [0x1000FFFF, 0])]

/-- **A run that overshoots.** With a budget of one cycle, the idle branch spends it and then forwards time to
the cycle before the match of the timer. -/
theorem run_overshoots :
    idling.cpu.breakout = none ∧ (idling.run 1).1 = some (.ok .budgetExhausted) ∧
      idling.elapsed 1 = 4294967295 := by
  decide +kernel

end Vr4300
