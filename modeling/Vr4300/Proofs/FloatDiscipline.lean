import Vr4300.Proofs.Recording
import Vr4300.Proofs.Resumption

/-!
# `Proofs.FloatDiscipline` — the floating-point control register over any history

An instruction leaves in the floating-point control register what its plan leaves there, for neither an exception nor
the cycle that passes touch it. One that traps leaves the floating-point registers as they were, although the
exception selects their view anew, because Status asks for the view that they have.

Between two instructions nothing happens to the register, unless the machine is reset. So all that a program can
find there is what its own instructions left.

## Contents

* `Cpu.fcr31_apply`, `Cpu.fcr31_takeException`, `Cpu.fpr_takeException`;
* `Execution.Disciplined`, `Execution.disciplined`: one instruction;
* `Happening.fcr31`, `fcr31After`: the register according to a journal (`Chain.fcr31`, `Machine.Remembers`);
* `float_control_disciplined`.
-/

namespace Vr4300

open FloatingPoint Control

namespace Cpu

/-! ## What touches the register -/

/-- **An exception** leaves the register alone. -/
theorem fcr31_takeException (c : Cpu) (t : Trap) (inDelay : Bool) :
    (c.takeException t inDelay).fcr31 = c.fcr31 := by
  obtain ⟨cp0, pc, fpr, usable, pending, statistics, h⟩ := takeException_frame c t inDelay
  rw [h]

theorem hasStatus_enterException (c : Cpu) (t : Trap) (inDelay : Bool) (bit : UInt64) :
    (c.enterException t inDelay).cp0.hasStatus bit = c.cp0.hasStatus bit := by
  have hsaved : (c.saveReturn inDelay).cp0.hasStatus bit = c.cp0.hasStatus bit := by
    unfold saveReturn
    cases inDelay
    all_goals
      refine (ControlRegisters.hasStatus_put _ _ bit (by decide)).trans ?_
      exact ControlRegisters.hasStatus_put _ _ bit (by decide)
  unfold enterException
  refine (ControlRegisters.hasStatus_put _ _ bit (by decide)).trans ?_
  split
  · rfl
  · exact hsaved

theorem hasStatus_saveBadAddress (c : Cpu) (t : Trap) (bit : UInt64) :
    (c.saveBadAddress t).cp0.hasStatus bit = c.cp0.hasStatus bit := by
  have hput {b : ControlRegisters} {r : Reg} (v : UInt64) (hr : r ≠ status) :
      (b.put r v).hasStatus bit = b.hasStatus bit := ControlRegisters.hasStatus_put b v bit hr
  unfold saveBadAddress
  split
  · rfl
  · dsimp only
    split
    · exact ((hput _ (by decide)).trans (hput _ (by decide))).trans
        ((hput _ (by decide)).trans (hput _ (by decide)))
    · exact hput _ (by decide)

/-- **An exception** leaves the floating-point registers alone, if they have the view that Status selects. -/
theorem fpr_takeException {c : Cpu} (h : c.FullWidth) (t : Trap) (inDelay : Bool) :
    (c.takeException t inDelay).fpr = c.fpr := by
  obtain ⟨vector, statistics, heq⟩ := takeException_eq c t inDelay
  have hview : ((c.enterException t inDelay).saveBadAddress t).cp0.hasStatus statusFR = c.fpr.fullWidth := by
    rw [hasStatus_saveBadAddress, hasStatus_enterException]
    exact h.symm
  rw [heq]
  show ((c.enterException t inDelay).saveBadAddress t).fpr.select
    ((((c.enterException t inDelay).saveBadAddress t).cp0.setBits status statusEXL).hasStatus statusFR) = c.fpr
  obtain ⟨cp0, hentered⟩ := enterException_eq c t inDelay
  have hfpr : ((c.enterException t inDelay).saveBadAddress t).fpr = c.fpr := by rw [hentered]
  rw [ControlRegisters.hasStatus_setBits _ (by decide), hview, hfpr]
  rfl

theorem fcr31_scheduleCompare (c : Cpu) : c.scheduleCompare.fcr31 = c.fcr31 :=
  same_of_lasting (lasting_schedule { c with events := c.events.erase .compare } .compare _ .compareMatch)
    (·.fcr31) fun _ => rfl

theorem fcr31_writeControl (c : Cpu) (r : Reg) (v : UInt64) : (c.writeControl r v).fcr31 = c.fcr31 := by
  unfold writeControl
  cases c.cp0.write? r v with
  | none => rfl
  | some cp0 =>
    dsimp only
    split
    · exact fcr31_scheduleCompare _
    split
    · exact fcr31_scheduleCompare { c with cp0 := cp0.clearBits cause causeIP7 }
    split
    · rfl
    split
    · rfl
    split <;> rfl

/-- A reset clears the register. -/
theorem fcr31_reset (c : Cpu) : c.reset.fcr31 = {} := fcr31_scheduleCompare _

/-- **An effect** leaves in the register what it writes there, if anything. -/
theorem fcr31_apply (c : Cpu) (e : Effect) : (c.apply e).fcr31 = e.fcr31?.getD c.fcr31 := by
  have hread (w : Width) (l : Location) : (c.readAt w l).2.fcr31 = c.fcr31 := by cases l <;> rfl
  have hdeliver (b : Cpu) (w : Width) (v : UInt64) (d : Destination) : (b.deliver w v d).fcr31 = b.fcr31 := by
    cases d with
    | float p ft => cases p <;> rfl
    | _ => rfl
  have hwrite (b : Cpu) (w : Width) (l : Location) (v : UInt64) : (b.writeAt w l v).fcr31 = b.fcr31 := by
    cases l <;> rfl
  cases e with
  | load w source into => exact (hdeliver _ _ _ _).trans (hread _ _)
  | store w target v => exact hwrite _ _ _ _
  | storeMasked w target v mask => exact (hwrite _ _ _ _).trans (hread _ _)
  | storeLinked w target v rt => exact hwrite _ _ _ _
  | control rd v => exact c.fcr31_writeControl rd v
  | _ => rfl

end Cpu

/-! ## One instruction -/

namespace Execution

/-- The instruction raises an exception. -/
def trapped (e : Execution) : Bool :=
  match e.outcome.1 with
  | .ok retired => retired.trapped
  | .error _ => false

/-- **What an instruction does to the floating-point control register.** -/
structure Disciplined (e : Execution) : Prop where
  /-- The bits that hold no field are clear. -/
  proper : e.after.fcr31.raw &&& ~~~0x0183FFFF = 0
  /-- The rounding mode, the enables and the flush bit change only if the register is written. -/
  settings : e.after.fcr31.raw &&& 0x01000F83 ≠ e.before.fcr31.raw &&& 0x01000F83 →
    ∃ rt, FloatRole.ofWord e.word = .writes rt
  /-- The condition changes only then, or if a comparison does not trap. -/
  condition : e.after.fcr31.condition ≠ e.before.fcr31.condition →
    (∃ rt, FloatRole.ofWord e.word = .writes rt) ∨ FloatRole.ofWord e.word = .compares ∧ e.trapped = false
  /-- A bystander leaves the whole register. -/
  bystander : FloatRole.ofWord e.word = .bystander → e.after.fcr31 = e.before.fcr31
  /-- What computes or compares raises exceptions, and they are recorded. If it traps by them, the floating-point
  registers and the condition stay as they are. -/
  records : e.before.cp0.hasStatus statusCU1 = true →
    FloatRole.ofWord e.word = .computes ∨ FloatRole.ofWord e.word = .compares →
    ∃ raised, e.before.raised? (.decode e.word) = some raised ∧
      e.before.fcr31.Records raised e.trapped e.after.fcr31 ∧
      (e.trapped = true → e.after.fpr = e.before.fpr ∧ e.after.fcr31.condition = e.before.fcr31.condition)

variable {e : Execution}

theorem fcr31_worked {b : Cpu} (h : e.worked = some b) : b.fcr31 = e.before.leaves e.planned := by
  obtain ⟨before, word, planned⟩ := e
  cases planned with
  | ok p =>
    obtain rfl := Option.some.inj h
    refine Eq.trans ?_ (before.fcr31_apply p.effect)
    cases p.flow <;> rfl
  | error f =>
    cases f with
    | trap t =>
      obtain rfl := Option.some.inj h
      exact before.fcr31_takeException t _
    | floatingPoint v =>
      obtain rfl := Option.some.inj h
      exact Cpu.fcr31_takeException { before with fcr31 := v } _ _
    | fatal x => cases h

/-- **Behind an instruction** the register holds what was planned. -/
theorem fcr31_after (e : Execution) : e.after.fcr31 = e.before.leaves e.planned := by
  cases hw : e.worked with
  | none =>
    rw [e.after_eq, hw]
    obtain ⟨before, word, planned⟩ := e
    cases planned with
    | ok p => cases hw
    | error f => cases f <;> first | rfl | cases hw
  | some b => exact (Cpu.same_of_lasting (lasting_after hw) (·.fcr31) fun _ => rfl).trans (fcr31_worked hw)

/-- An instruction that traps by what it records leaves the floating-point registers. -/
theorem fpr_after_of_floatingPoint {v : Fcr31} (h : e.planned = .error (.floatingPoint v)) (hf : e.before.FullWidth) :
    e.after.fpr = e.before.fpr := by
  have hworked : e.worked = some (({ e.before with fcr31 := v } : Cpu).takeException .floatingPoint
      e.before.inDelaySlot) := by
    unfold worked
    rw [h]
  refine (Cpu.same_of_lasting (lasting_after hworked) (·.fpr) fun _ => rfl).trans ?_
  exact Cpu.fpr_takeException (c := { e.before with fcr31 := v }) hf _ _

/-- What is planned leaves the register alone, or it is the plan of the word. -/
theorem OfWord.leaves (h : e.OfWord) :
    e.before.leaves e.planned = e.before.fcr31 ∨ e.planned = e.before.plan (.decode e.word) := by
  rcases h with h | h | ⟨-, t, h⟩
  · exact .inr h
  · unfold Cpu.planGuarded at h
    split at h
    · exact .inl (by rw [h]; rfl)
    · exact .inr h
  · exact .inl (by rw [h]; rfl)

/-- While the unit is usable, an operation of it is planned as its word says. -/
theorem OfWord.planned_eq (h : e.OfWord) (hg : e.before.Gated) (hu : e.before.cp0.hasStatus statusCU1 = true)
    (hw : e.word ≠ 0) : e.planned = e.before.plan (.decode e.word) := by
  have husable : e.before.floatUsable = true := Eq.trans hg hu
  rcases h with h | h | ⟨hzero, -⟩
  · exact h
  · unfold Cpu.planGuarded at h
    rwa [husable, Bool.not_true, Bool.and_false, if_neg Bool.false_ne_true] at h
  · exact absurd hzero hw

theorem trapped_of_plan {p : Plan} (h : e.planned = .ok p) : e.trapped = false := by
  unfold trapped outcome Cpu.execute
  rw [h]

theorem trapped_of_floatingPoint {v : Fcr31} (h : e.planned = .error (.floatingPoint v)) : e.trapped = true := by
  unfold trapped outcome Cpu.execute
  rw [h]

/-- What recording leaves behind an instruction. -/
structure Recorded (e : Execution) (raised : ExceptionSet) : Prop where
  /-- The fields of the exceptions. -/
  records : e.before.fcr31.Records raised e.trapped e.after.fcr31
  /-- Only a comparison that does not trap changes the condition. -/
  condition : e.after.fcr31.condition ≠ e.before.fcr31.condition →
    FloatRole.ofWord e.word = .compares ∧ e.trapped = false
  /-- It traps by what it recorded. -/
  traps : e.trapped = true → e.planned = .error (.floatingPoint e.after.fcr31)
  /-- No other bit is set. -/
  proper : e.before.fcr31.Proper → e.after.fcr31.Proper

/-- **An operation that raises exceptions** records them. -/
theorem recorded {raised : ExceptionSet} (hp : e.planned = e.before.plan (.decode e.word))
    (h : e.before.raised? (.decode e.word) = some raised) : e.Recorded raised := by
  obtain ⟨effect, hplan, heffect⟩ := Cpu.plan_of_raised h
  have hrecords := e.before.fcr31.records_record raised
  have hcondition := e.before.fcr31.condition_record raised
  have hproper (hbefore : e.before.fcr31.Proper) := hbefore.record raised
  have hafter := e.fcr31_after
  rw [hplan, Cpu.recorded_eq] at hp
  generalize e.before.fcr31.record raised = out at hp hrecords hcondition hproper
  obtain ⟨quiet, r⟩ := out
  cases quiet with
  | false =>
    have htrapped : e.trapped = true := trapped_of_floatingPoint hp
    have hleft : e.after.fcr31 = r := by rw [hafter, hp]; rfl
    refine ⟨?_, ?_, ?_, ?_⟩
    · rw [htrapped, hleft]
      exact hrecords
    · rw [hleft]
      exact fun hne => absurd hcondition hne
    · rw [hleft]
      exact fun _ => hp
    · rw [hleft]
      exact hproper
  | true =>
    have htrapped : e.trapped = false := trapped_of_plan hp
    have hleft : e.after.fcr31 = (effect r).fcr31?.getD e.before.fcr31 := by rw [hafter, hp]; rfl
    have hquiet : e.trapped = true → e.planned = .error (.floatingPoint e.after.fcr31) := by
      rw [htrapped]
      exact fun hfalse => absurd hfalse Bool.false_ne_true
    rcases heffect with heffect | ⟨hrole, holds, heffect⟩
    · rw [heffect, Option.getD_some] at hleft
      refine ⟨?_, ?_, hquiet, ?_⟩
      · rw [htrapped, hleft]
        exact hrecords
      · rw [hleft]
        exact fun hne => absurd hcondition hne
      · rw [hleft]
        exact hproper
    -- a comparison writes the condition behind what it records
    · rw [heffect, Option.getD_some] at hleft
      refine ⟨?_, ?_, hquiet, ?_⟩
      · rw [htrapped, hleft]
        exact hrecords.setCondition holds
      · exact fun _ => ⟨(Instruction.role_decode e.word).symm.trans hrole, htrapped⟩
      · rw [hleft]
        exact fun hbefore => (hproper hbefore).setCondition holds

/-- What computes or compares is recorded, while the unit is usable. -/
theorem exists_recorded (hp : e.planned = e.before.plan (.decode e.word))
    (hw : FloatRole.ofWord e.word = .computes ∨ FloatRole.ofWord e.word = .compares) :
    ∃ raised, e.before.raised? (.decode e.word) = some raised ∧ e.Recorded raised := by
  rw [← Instruction.role_decode, ← e.before.isSome_raised?, Option.isSome_iff_exists] at hw
  obtain ⟨raised, hraised⟩ := hw
  exact ⟨raised, hraised, recorded hp hraised⟩

/-- **An instruction** that starts in order keeps the discipline. -/
theorem disciplined (h : e.OfWord) (hfresh : e.before.Fresh) (hproper : e.before.fcr31.Proper) :
    e.Disciplined := by
  have hrole := Instruction.role_decode e.word
  have hafter := e.fcr31_after
  have hrecords (hu : e.before.cp0.hasStatus statusCU1 = true)
      (hw : FloatRole.ofWord e.word = .computes ∨ FloatRole.ofWord e.word = .compares) :
      ∃ raised, e.before.raised? (.decode e.word) = some raised ∧
        e.before.fcr31.Records raised e.trapped e.after.fcr31 ∧
        (e.trapped = true →
          e.after.fpr = e.before.fpr ∧ e.after.fcr31.condition = e.before.fcr31.condition) := by
    have hzero : e.word ≠ 0 := by
      intro hzero
      rw [hzero] at hw
      exact absurd hw (by decide)
    obtain ⟨raised, hraised, hr⟩ := exists_recorded (h.planned_eq hfresh.gated hu hzero) hw
    refine ⟨raised, hraised, hr.records, fun ht => ⟨?_, ?_⟩⟩
    · exact fpr_after_of_floatingPoint (hr.traps ht) hfresh.wide
    · by_contra hne
      exact Bool.false_ne_true ((hr.condition hne).2.symm.trans ht)
  rcases h.leaves with hsame | hp
  · rw [← hafter] at hsame
    refine ⟨?_, fun hne => absurd ?_ hne, fun hne => absurd ?_ hne, fun _ => hsame, hrecords⟩
    · rw [hsame]
      exact hproper
    · rw [hsame]
    · rw [hsame]
  · have hexceptional
        (hw : FloatRole.ofWord e.word = .computes ∨ FloatRole.ofWord e.word = .compares) : e.Disciplined := by
      obtain ⟨raised, -, hr⟩ := exists_recorded hp hw
      refine ⟨hr.proper hproper, fun hne => absurd hr.records.settings hne, fun hne => .inr (hr.condition hne),
        fun hbystander => ?_, hrecords⟩
      rw [hbystander] at hw
      rcases hw with hw | hw <;> cases hw
    cases hw : FloatRole.ofWord e.word with
    | bystander =>
      rw [hp, e.before.leaves_of_bystander (hrole.trans hw)] at hafter
      refine ⟨?_, fun hne => absurd ?_ hne, fun hne => absurd ?_ hne, fun _ => hafter, hrecords⟩
      · rw [hafter]
        exact hproper
      · rw [hafter]
      · rw [hafter]
    | writes rt =>
      rw [hp, e.before.leaves_of_writes (hrole.trans hw)] at hafter
      refine ⟨?_, fun _ => ⟨rt, hw⟩, fun _ => .inl ⟨rt, hw⟩, fun hne => ?_, hrecords⟩
      · rw [hafter]
        exact Fcr31.proper_ofRaw _
      · cases hw.symm.trans hne
    | computes => exact hexceptional (.inl hw)
    | compares => exact hexceptional (.inr hw)

end Execution

/-! ## Histories -/

/-- What a happening leaves in the floating-point control register. -/
def Happening.fcr31 (r : Fcr31) : Happening → Fcr31
  | .executed e => e.after.fcr31
  | .wrote _ _ => r
  | .reset => {}

/-- The register behind a journal, according to the journal. -/
def fcr31After (r : Fcr31) (journal : List Happening) : Fcr31 := journal.foldl Happening.fcr31 r

theorem Quiet.fcr31 {a b : Cpu} (h : Quiet a b) : b.fcr31 = a.fcr31 := by
  cases h with
  | sample => rfl
  | interrupt => exact a.fcr31_takeException _ _
  | outside => rfl

/-- **A journal accounts for the register**: each instruction finds there what the ones before it left and keeps the
discipline. -/
structure Accounts (journal : List Happening) (r r' : Fcr31) : Prop where
  /-- The instructions. -/
  instructions : ∀ earlier e later, journal = earlier ++ .executed e :: later →
    e.before.fcr31 = fcr31After r earlier ∧ e.Disciplined
  /-- What is left at the end. -/
  left : r' = fcr31After r journal
  /-- The bits that hold no field are clear. -/
  proper : r'.Proper

namespace Accounts

variable {js ks : List Happening} {r r' r'' : Fcr31}

/-- Where nothing is executed there is nothing to account for. -/
theorem of_idle (hidle : ∀ e, .executed e ∉ js) (h : (fcr31After r js).Proper) :
    Accounts js r (fcr31After r js) := by
  refine ⟨?_, rfl, h⟩
  rintro earlier e later rfl
  exact absurd (by simp) (hidle e)

theorem nil (h : r.Proper) : Accounts [] r r := of_idle (by simp) h

theorem single {e : Execution} (hr : e.before.fcr31 = r) (h : e.Disciplined) :
    Accounts [.executed e] r e.after.fcr31 := by
  refine ⟨fun earlier f later heq => ?_, rfl, h.proper⟩
  cases earlier with
  | nil =>
    obtain rfl := Happening.executed.inj (List.cons.inj heq).1
    exact ⟨hr, h⟩
  | cons j earlier => cases List.append_eq_nil_iff.mp (List.cons.inj heq).2.symm |>.2

theorem append (h : Accounts js r r') (h' : Accounts ks r' r'') : Accounts (js ++ ks) r r'' := by
  refine ⟨fun earlier e later heq => ?_, ?_, h'.proper⟩
  · rcases Machine.split_append_cons heq with ⟨between, hfirst⟩ | ⟨between, rfl, hlater⟩
    · exact h.instructions earlier e between hfirst
    · obtain ⟨hbefore, hdisciplined⟩ := h'.instructions between e later hlater
      refine ⟨?_, hdisciplined⟩
      rw [hbefore, h.left]
      exact (List.foldl_append ..).symm
  · rw [h'.left, h.left]
    exact (List.foldl_append ..).symm

end Accounts

/-- **A chain** of instructions that start in order accounts for the register. -/
theorem Chain.accounts {a b : Cpu} {es : List Execution} (h : Chain a es b) (hes : ∀ e ∈ es, e.OfWord)
    (hfresh : a.Fresh) (hproper : a.fcr31.Proper) : Accounts (es.map .executed) a.fcr31 b.fcr31 := by
  induction h with
  | nil c => exact .nil hproper
  | quiet hq _ ih =>
    have hnext := ih hes (hq.fresh hfresh)
    rw [hq.fcr31] at hnext
    exact hnext hproper
  | execute e _ _ ih =>
    have hdisciplined := Execution.disciplined (hes e List.mem_cons_self) hfresh hproper
    have hrest := ih (fun f hf => hes f (List.mem_cons_of_mem _ hf)) (Execution.fresh_after hfresh)
      hdisciplined.proper
    exact (Accounts.single rfl hdisciplined).append hrest

/-- A chain without instructions leaves the register. -/
theorem Chain.fcr31_nil {a b : Cpu} {es : List Execution} (h : Chain a es b) (hes : es = []) :
    b.fcr31 = a.fcr31 := by
  subst hes
  exact h.same (·.fcr31) (fun _ _ hq => hq.fcr31) (by simp)

namespace Machine

variable {m : Machine} {past : List TimerEvent}

theorem Ends.fcr31 {c c' : Cpu} {r : Option (Except FatalError Exit)} (h : Ends c r c') : c'.fcr31 = c.fcr31 := by
  cases h <;> rfl

/-- **A run** accounts for the register. -/
theorem accounts_run (hrest : m.AtRest past) (hfresh : m.cpu.Fresh) (hproper : m.cpu.fcr31.Proper)
    (budget : UInt64) :
    Accounts ((m.executions budget).map .executed) m.cpu.fcr31 (m.run budget).2.cpu.fcr31 := by
  by_cases h0 : budget = 0
  · rw [h0, run_zero, executions_zero]
    exact .nil hproper
  · obtain ⟨c, c', hchain, hends, hcpu⟩ := run_chain h0 hrest.ticking.timed hrest.free
    have hprepared : (m.prepare budget).cpu.fcr31 = m.cpu.fcr31 :=
      Cpu.same_of_lasting (m.cpu.lasting_schedule .runForCycles _ .budgetSpent) (·.fcr31) fun _ => rfl
    have haccounts := hchain.accounts (m.ofWord_executions budget)
      (hfresh.schedule .runForCycles _ .budgetSpent) (hprepared ▸ hproper)
    rw [hprepared] at haccounts
    rw [hcpu, show (finish c').fcr31 = c.fcr31 from hends.fcr31]
    exact haccounts

/-- **A single step** accounts for the register. -/
theorem accounts_step (hfresh : m.cpu.Fresh) (hproper : m.cpu.fcr31.Proper) :
    Accounts [.executed m.takeInterrupt.cpu.nextExecution] m.cpu.fcr31 m.step.2.cpu.fcr31 := by
  have htake : Chain m.cpu [] m.takeInterrupt.cpu := m.cpu.chain_takePending
  have hfetch := Cpu.quiet_nextExecution m.takeInterrupt.cpu
  have hbefore : m.takeInterrupt.cpu.nextExecution.before.fcr31 = m.cpu.fcr31 :=
    hfetch.fcr31.trans (htake.fcr31_nil rfl)
  have hdisciplined : m.takeInterrupt.cpu.nextExecution.Disciplined :=
    Execution.disciplined (ofWord_nextExecution _) (fresh_step hfresh).2 (hbefore ▸ hproper)
  rw [m.chain_step.fcr31_nil rfl]
  exact .single hbefore hdisciplined

/-- **A visit** accounts for the register. -/
theorem accounts_visit (hrest : m.AtRest past) (hfresh : m.cpu.Fresh) (hproper : m.cpu.fcr31.Proper)
    (visit : Visit) :
    Accounts (visit.action.happenings m) m.cpu.fcr31 (visit.action.perform m).cpu.fcr31 := by
  cases visit with
  | install x => cases x <;> exact .nil hproper
  | request r =>
    cases r with
    | run budget => exact accounts_run hrest hfresh hproper budget
    | step => exact accounts_step hfresh hproper
    | reset =>
      show Accounts [.reset] m.cpu.fcr31 m.cpu.reset.fcr31
      rw [m.cpu.fcr31_reset]
      exact .of_idle (by simp) Fcr31.proper_zero
    | writeControl r v =>
      show Accounts [.wrote r v] m.cpu.fcr31 (m.cpu.writeControl r v).fcr31
      rw [m.cpu.fcr31_writeControl]
      exact .of_idle (by simp) hproper
    | _ => exact .nil hproper

/-- **Visits in order** account for the register. -/
theorem accounts_receive (visits : List Visit) :
    ∀ {m : Machine} {past : List TimerEvent}, m.AtRest past → m.cpu.Fresh → m.cpu.fcr31.Proper →
      Accounts (m.journal (visits.map Visit.action)) m.cpu.fcr31 (m.receive visits).cpu.fcr31 := by
  induction visits with
  | nil => exact fun _ _ hproper => .nil hproper
  | cons visit rest ih =>
    intro m past hrest hfresh hproper
    have hvisit := accounts_visit hrest hfresh hproper visit
    exact hvisit.append (ih (atRest_perform hrest visit.action).1 (fresh_visit hrest hfresh visit).1 hvisit.proper)

end Machine

/-- **The floating-point control register is disciplined.** Whatever is done to a new machine, each instruction that it
executes finds in the register what the instructions before it left since the last reset. The bits that hold no field
are clear; the rounding mode, the enables and the flush bit change only by a write of the register, and the condition
only by that or by a comparison that does not trap; what computes or compares leaves the exceptions that it raised as
the cause, traps by them and the enables, and if it does not trap adds them to the flags; and every other instruction
leaves the register alone. -/
theorem float_control_disciplined (config : Configuration) (bus : Bus) (vector : VectorUnit)
    (visits : List Visit) :
    let m := Machine.create config bus vector
    let journal := m.journal (visits.map Visit.action)
    (m.receive visits).cpu.fcr31 = fcr31After {} journal ∧
      ∀ earlier e later, journal = earlier ++ .executed e :: later →
        e.before.fcr31 = fcr31After {} earlier ∧ e.Disciplined := by
  intro m journal
  have hstart : m.cpu.Fresh := (Cpu.fresh_reset _).of_eq rfl rfl rfl rfl
  have hzero : m.cpu.fcr31 = {} := Cpu.fcr31_reset _
  have haccounts := Machine.accounts_receive visits (Machine.atRest_create config bus vector) hstart
    (hzero.symm ▸ Fcr31.proper_zero)
  rw [hzero] at haccounts
  exact ⟨haccounts.left, haccounts.instructions⟩

/-- A program enables the exceptions, and divides zero by zero. -/
theorem float_control_disciplined_invalid :
    let m := Machine.create { general := { startPc := 0xFFFFFFFF80000000 }, memory := { ramSize := 32 } } {} {}
    let visits : List Visit :=
      [.request (.loadProgram 0 [0x34010F80, 0x44C1F800, 0x46000003]), .request (.run 3)]
    ∃ earlier third, m.journal (visits.map Visit.action) = earlier ++ .executed third :: [] ∧
      third.word = 0x46000003 ∧ third.before.fcr31 = ⟨0xF80⟩ ∧ fcr31After {} earlier = ⟨0xF80⟩ ∧
      third.trapped = true ∧ third.after.fcr31.cause = .invalid ∧ third.after.fcr31.flags = ∅ ∧
      third.after.fpr = third.before.fpr := by
  intro m visits
  let look : Happening → Option (UInt32 × Bool × Fcr31 × Fcr31 × Bool)
    | .executed e => some (e.word, e.before.cp0.hasStatus statusCU1, e.before.fcr31, e.after.fcr31, e.trapped)
    | _ => none
  have hlook : (m.journal (visits.map Visit.action)).map look =
      [some (0x34010F80, true, ⟨0⟩, ⟨0⟩, false), some (0x44C1F800, true, ⟨0⟩, ⟨0xF80⟩, false)] ++
        [some (0x46000003, true, ⟨0xF80⟩, ⟨0x10F80⟩, true)] := by
    decide +kernel
  obtain ⟨earlier, later, hjournal, -, hlater⟩ := List.map_eq_append_iff.mp hlook
  obtain ⟨j, rest, rfl, hj, hrest⟩ := List.map_eq_cons_iff.mp hlater
  obtain rfl := List.map_eq_nil_iff.mp hrest
  cases j with
  | wrote r v => cases hj
  | reset => cases hj
  | executed third =>
    obtain ⟨hbefore, hdisciplined⟩ := (float_control_disciplined _ _ _ visits).2 earlier third [] hjournal
    have hj : (third.word, third.before.cp0.hasStatus statusCU1, third.before.fcr31, third.after.fcr31,
      third.trapped) = (0x46000003, true, ⟨0xF80⟩, ⟨0x10F80⟩, true) := Option.some.inj hj
    simp only [Prod.mk.injEq] at hj
    obtain ⟨hword, husable, hfound, hafter, htrapped⟩ := hj
    obtain ⟨-, -, -, hfpr⟩ := hdisciplined.records husable (.inl (by rw [hword]; decide))
    refine ⟨earlier, third, hjournal, hword, hfound, hbefore.symm.trans hfound, htrapped, ?_, ?_,
      (hfpr htrapped).1⟩
    · rw [hafter]
      rfl
    · rw [hafter]
      rfl

end Vr4300
