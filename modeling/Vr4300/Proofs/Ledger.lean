import Vr4300.Proofs.DerivedState

/-!
# `Proofs.Ledger` — what a history says about the processor

A ledger keeps some facts about the processor: an entry holds of a state or it does not, and each happening leads
from one entry to the next. What has to be shown of it is local: the entry is right behind an instruction, behind a
write of the host and behind a reset, and nothing that is done otherwise makes a difference. Then the entry that the
history of a machine leads to is right, at each instruction and at the end.

## Contents

* `Ledger`, `Ledger.after`;
* `Ledger.Follows`, `Ledger.Kept`: the entries are right along a journal (`Kept.idle`, `Kept.single`, `Kept.append`,
  `Kept.within`);
* `Ledger.kept_chain`, `kept_run`, `kept_step`, `kept_visit`, and **`kept_receive`**.
-/

namespace Vr4300

/-- **A ledger** of the processor. -/
structure Ledger (σ : Type) where
  /-- The entry is right for the state. -/
  Holds : Cpu → σ → Prop
  /-- The entry behind a happening. -/
  enter : σ → Happening → σ
  /-- What happens between two instructions makes no difference. -/
  quiet : ∀ {a b : Cpu} {s : σ}, Quiet a b → Holds a s → Holds b s
  /-- Nor do main memory, the events, and what ends a run. -/
  apart : ∀ {c : Cpu} {s : σ} (ram : Ram) (events : Schedule TimerAction) (breakout : Option Exit),
    Holds c s → Holds { c with ram, events, breakout } s
  /-- Behind an instruction the entry is right. -/
  executed : ∀ {e : Execution} {s : σ}, e.before.Timed → Holds e.before s → Holds e.after (enter s (.executed e))
  /-- And behind a write of a control register by the host. -/
  wrote : ∀ {c : Cpu} {s : σ} (r : Reg) (v : UInt64), Holds c s → Holds (c.writeControl r v) (enter s (.wrote r v))
  /-- And behind a reset. -/
  reset : ∀ {c : Cpu} {s : σ}, Holds c s → Holds c.reset (enter s .reset)

namespace Ledger

variable {σ : Type} {L : Ledger σ}

/-- The entry behind a journal. -/
def after (L : Ledger σ) (s : σ) (journal : List Happening) : σ := journal.foldl L.enter s

theorem after_append (s : σ) (js ks : List Happening) : L.after s (js ++ ks) = L.after (L.after s js) ks :=
  List.foldl_append ..

/-- **A journal follows an entry**: what is entered from there on is right at each instruction. -/
def Follows (L : Ledger σ) (s : σ) (journal : List Happening) : Prop :=
  ∀ earlier e later, journal = earlier ++ .executed e :: later → L.Holds e.before (L.after s earlier)

namespace Follows

variable {js : List Happening} {s : σ}

theorem head {e : Execution} (h : L.Follows s (.executed e :: js)) : L.Holds e.before s := h [] e js rfl

theorem tail {j : Happening} (h : L.Follows s (j :: js)) : L.Follows (L.enter s j) js :=
  fun earlier e later heq => h (j :: earlier) e later (congrArg (j :: ·) heq)

end Follows

/-- **The ledger is kept** along a journal that leads to a state: its entries are right at each instruction and at the
end. -/
structure Kept (L : Ledger σ) (journal : List Happening) (s : σ) (c : Cpu) : Prop where
  /-- At each instruction. -/
  instructions : L.Follows s journal
  /-- At the end. -/
  left : L.Holds c (L.after s journal)

namespace Kept

variable {js ks : List Happening} {s : σ} {c c' : Cpu}

/-- Where nothing is executed, only the end counts. -/
theorem idle (hidle : ∀ e, .executed e ∉ js) (h : L.Holds c (L.after s js)) : L.Kept js s c := by
  refine ⟨?_, h⟩
  rintro earlier e later rfl
  exact absurd (by simp) (hidle e)

theorem nil (h : L.Holds c s) : L.Kept [] s c := idle (by simp) h

theorem single {e : Execution} (h : L.Holds e.before s) (hafter : L.Holds c (L.enter s (.executed e))) :
    L.Kept [.executed e] s c := by
  refine ⟨fun earlier f later heq => ?_, hafter⟩
  cases earlier with
  | nil =>
    obtain rfl := Happening.executed.inj (List.cons.inj heq).1
    exact h
  | cons j earlier => cases List.append_eq_nil_iff.mp (List.cons.inj heq).2.symm |>.2

theorem append (h : L.Kept js s c) (h' : L.Kept ks (L.after s js) c') : L.Kept (js ++ ks) s c' := by
  refine ⟨fun earlier e later heq => ?_, ?_⟩
  · rcases Machine.split_append_cons heq with ⟨between, hfirst⟩ | ⟨between, rfl, hlater⟩
    · exact h.instructions earlier e between hfirst
    · rw [after_append]
      exact h'.instructions between e later hlater
  · rw [after_append]
    exact h'.left

/-- Within a journal, the ledger goes on from where it was. -/
theorem within (h : L.Kept js s c) {earlier window later : List Happening} (hjs : js = earlier ++ window ++ later) :
    L.Follows (L.after s earlier) window := by
  intro before e after hwindow
  rw [← after_append]
  exact h.instructions (earlier ++ before) e (after ++ later) (by rw [hjs, hwindow]; simp)

/-- A state for which the same entries are right may take the place of the last one. -/
theorem lead (h : L.Kept js s c) (hleft : ∀ {s'}, L.Holds c s' → L.Holds c' s') : L.Kept js s c' :=
  ⟨h.instructions, hleft h.left⟩

end Kept

/-! ## Chains -/

/-- **A chain** keeps the ledger. -/
theorem kept_chain {a b : Cpu} {es : List Execution} (h : Chain a es b) :
    ∀ {s : σ}, a.Timed → L.Holds a s → L.Kept (es.map .executed) s b := by
  induction h with
  | nil c => exact fun _ hs => .nil hs
  | quiet hq _ ih => exact fun hT hs => ih (hq.timed hT) (L.quiet hq hs)
  | execute e _ _ ih =>
    intro s hT hs
    have hafter := L.executed hT hs
    exact (Kept.single hs hafter).append (ih (Execution.timed_after hT) hafter)

/-- A chain without instructions leaves the entry. -/
theorem holds_of_chain_nil {a b : Cpu} {s : σ} (h : Chain a [] b) (hs : L.Holds a s) : L.Holds b s := by
  generalize hes : ([] : List Execution) = es at h
  induction h with
  | nil => exact hs
  | quiet hq _ ih => exact ih (L.quiet hq hs) hes
  | execute => cases hes

/-! ## Machines -/

variable {m : Machine} {past : List TimerEvent} {s : σ}

theorem holds_schedule {c : Cpu} (hs : L.Holds c s) (kind : EventKind) (n : Int) (action : TimerAction) :
    L.Holds (c.schedule kind n action) s := by
  unfold Cpu.schedule
  split
  · exact L.apart c.ram _ c.breakout hs
  · exact hs

/-- How a run ends makes no difference. -/
theorem holds_of_ends {c c' : Cpu} {r : Option (Except FatalError Exit)} (h : Machine.Ends c r c')
    (hs : L.Holds c s) : L.Holds c' s := by
  cases h with
  | stop _ => exact L.apart c.ram c.events none hs
  | _ => exact hs

/-- **A run** keeps the ledger. -/
theorem kept_run (hrest : m.AtRest past) (hs : L.Holds m.cpu s) (budget : UInt64) :
    L.Kept ((m.executions budget).map .executed) s (m.run budget).2.cpu := by
  by_cases h0 : budget = 0
  · rw [h0, Machine.run_zero, Machine.executions_zero]
    exact .nil hs
  · obtain ⟨c, c', hchain, hends, hcpu⟩ := Machine.run_chain h0 hrest.ticking.timed hrest.free
    have hkept := kept_chain hchain (Machine.timed_prepare h0 hrest.ticking.timed hrest.free)
      (holds_schedule hs .runForCycles _ .budgetSpent)
    rw [hcpu]
    exact hkept.lead fun hc => L.apart c'.ram _ c'.breakout (holds_of_ends hends hc)

/-- **A single step** keeps the ledger. -/
theorem kept_step (hrest : m.AtRest past) (hs : L.Holds m.cpu s) :
    L.Kept [.executed m.takeInterrupt.cpu.nextExecution] s m.step.2.cpu := by
  have htake : Chain m.cpu [] m.takeInterrupt.cpu := m.cpu.chain_takePending
  have hfetch := Cpu.quiet_nextExecution m.takeInterrupt.cpu
  have hbefore := L.quiet hfetch (holds_of_chain_nil htake hs)
  have htimed := hfetch.timed (htake.timed hrest.ticking.timed)
  exact .single hbefore (holds_of_chain_nil m.chain_step (L.executed htimed hbefore))

/-- **A visit** keeps the ledger. -/
theorem kept_visit (hrest : m.AtRest past) (hs : L.Holds m.cpu s) (visit : Visit) :
    L.Kept (visit.action.happenings m) s (visit.action.perform m).cpu := by
  have houtside (bus : Bus) (line : Bool) (ranges : List (UInt64 × UInt64)) :
      L.Holds { m.cpu with bus, line, codeInvalidations := ranges } s :=
    L.quiet (.outside m.cpu bus line ranges m.cpu.tlbDirty m.cpu.statistics) hs
  cases visit with
  | install x =>
    cases x with
    | devices bus => exact .nil (houtside bus m.cpu.line m.cpu.codeInvalidations)
    | vectorUnit vector => exact .nil hs
    | observer => exact .nil hs
    | lineLevel level => exact .nil (houtside m.cpu.bus level m.cpu.codeInvalidations)
  | request r =>
    cases r with
    | run budget => exact kept_run hrest hs budget
    | step => exact kept_step hrest hs
    | reset => exact .idle (by simp [Visit.action, HostRequest.action, HostAction.happenings]) (L.reset hs)
    | requestHalt => exact .nil (L.apart m.cpu.ram m.cpu.events (some .halted) hs)
    | writeControl r v =>
      exact .idle (by simp [Visit.action, HostRequest.action, HostAction.happenings]) (L.wrote r v hs)
    | loadProgram physical program =>
      -- the program is stored, and what is dropped for it is counted
      have hstored := L.apart (m.cpu.ram.load physical (Bytes.ofWords program)) m.cpu.events m.cpu.breakout hs
      exact .nil (L.quiet (.outside _ m.cpu.bus m.cpu.line m.cpu.codeInvalidations m.cpu.tlbDirty _) hstored)
    | setRecompiler enabled => exact .nil hs
    | setBreakpoints breakpoints => exact .nil hs
    | attachLine level => exact .nil (L.quiet (.sample _) (houtside m.cpu.bus level m.cpu.codeInvalidations))

/-- **Visits in order** keep the ledger: whatever is done to a machine, the history of each instruction says what the
instruction finds. -/
theorem kept_receive (visits : List Visit) :
    ∀ {m : Machine} {past : List TimerEvent} {s : σ}, m.AtRest past → L.Holds m.cpu s →
      L.Kept (m.journal (visits.map Visit.action)) s (m.receive visits).cpu := by
  induction visits with
  | nil => exact fun _ hs => .nil hs
  | cons visit rest ih =>
    intro m past s hrest hs
    have hvisit := kept_visit hrest hs visit
    exact hvisit.append (ih (Machine.atRest_perform hrest visit.action).1 hvisit.left)

end Ledger

end Vr4300
