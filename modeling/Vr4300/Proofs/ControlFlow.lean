import Vr4300.Proofs.Lasting
import Vr4300.Proofs.Recorded
import Vr4300.Proofs.Transfers

/-!
# `Proofs.ControlFlow` — where execution goes on

Behind an instruction that completes, execution goes on where its word says: `Cpu.following` is the address of the
next instruction and the target that is pending there, from the word and the state before it alone. A transfer
writes at most its return address to the general registers, whether or not it is taken.

So a pending target has one instruction before it and one behind it. In every run, interpreted or from fragments, it
was set by the instruction right before, and it is used up by the instruction that finds it, if no interrupt is
delivered first.

## Contents

* `Execution.completes`, `Cpu.GoesOn`, `Execution.goesOn`: one instruction;
* `Cpu.Resumes`: what may happen between two instructions (`Chain.resumes`);
* `Machine.ofWord_executions`: the instructions of a run are those of their words;
* `Machine.Answered`: only the last instruction of a run can stop the machine (`Machine.resumes_executions`);
* `control_flow`.
-/

namespace Vr4300

/-! ## One instruction -/

/-- The instruction completes: it raises no exception and does not stop the machine. -/
def Execution.completes (e : Execution) : Bool :=
  match e.outcome.1 with
  | .ok retired => !retired.trapped
  | .error _ => false

/-- **Behind a word that completes**: where execution goes on, and what is written on the way. -/
structure Cpu.GoesOn (c : Cpu) (w : UInt32) (c' : Cpu) : Prop where
  /-- The next instruction, and the pending target there. -/
  place : (c'.pc, c'.delaySlot) = c.following w
  /-- A transfer that links writes its return address. -/
  link : ∀ rd, Encoding.linkRegister? w = some rd → c'.regs = c.regs.set rd (c.pc + 8)
  /-- A transfer that does not link leaves the general registers. -/
  unlinked : Transfer.ofWord w ≠ .none → Encoding.linkRegister? w = none → c'.regs = c.regs

namespace Execution

variable {e : Execution} {p : Plan}

theorem completes_iff : e.completes = true ↔ ∃ p, e.planned = .ok p := by
  obtain ⟨before, word, planned⟩ := e
  cases planned with
  | ok p => exact ⟨fun _ => ⟨p, rfl⟩, fun _ => rfl⟩
  | error f =>
    constructor
    · intro h
      cases f <;> cases h
    · rintro ⟨p, hp⟩
      cases hp

theorem outcome_of_completes (h : e.completes = true) :
    ∃ retired, e.outcome = (.ok retired, e.after) ∧ retired.trapped = false := by
  unfold completes at h
  unfold after
  rcases hout : e.outcome with ⟨r, cpu⟩
  rw [hout] at h
  cases r with
  | ok retired => exact ⟨retired, rfl, by simpa using h⟩
  | error x => cases h

/-- The plan is the one of the word. -/
def Decoded (e : Execution) : Prop := ∀ p, e.planned = .ok p → e.before.plan (.decode e.word) = .ok p

/-- What is planned is what the word says, asked with or without a look at the floating-point unit, or it is the
exception of a word that could not be fetched. -/
def OfWord (e : Execution) : Prop :=
  e.planned = e.before.plan (.decode e.word) ∨ e.planned = e.before.planGuarded (.decode e.word) ∨
    e.word = 0 ∧ ∃ t, e.planned = .error (.trap t)

/-- An exception leaves no pending target. -/
theorem delaySlot_of_error {f : Fault} {b : Cpu} (h : e.planned = .error f) (hw : e.worked = some b) :
    b.delaySlot = none := by
  rcases worked_cases hw with ⟨p, hp, -⟩ | ⟨-, fcr31, t, rfl⟩
  · cases h.symm.trans hp
  · rfl

/-- An instruction behind which a target is pending has completed. -/
theorem completes_of_pending (h : ∃ retired, e.outcome.1 = .ok retired) {target : UInt64}
    (hpending : e.after.delaySlot = some target) : e.completes = true := by
  obtain ⟨retired, hretired⟩ := h
  obtain ⟨b, hw⟩ := exists_worked (Prod.ext hretired rfl)
  cases hp : e.planned with
  | ok p => exact completes_iff.mpr ⟨p, hp⟩
  | error f =>
    have hslot := Cpu.same_of_lasting (lasting_after hw) (·.delaySlot) fun _ => rfl
    cases hpending.symm.trans (hslot.trans (delaySlot_of_error hp hw))

/-- **An instruction that completes** goes on where its word says. -/
theorem goesOn (hd : e.Decoded) (hp : e.planned = .ok p) : e.before.GoesOn e.word e.after := by
  have hplan := hd p hp
  have hlasting := lasting_after (worked_of_plan hp)
  have hpc := Cpu.same_of_lasting hlasting (·.pc) fun _ => rfl
  have hslot := Cpu.same_of_lasting hlasting (·.delaySlot) fun _ => rfl
  have hregs : e.after.regs = (e.before.apply p.effect).regs := by
    refine (Cpu.same_of_lasting hlasting (·.regs) fun _ => rfl).trans ?_
    cases p.flow <;> rfl
  refine ⟨?_, ?_, ?_⟩
  · rw [hpc, hslot]
    exact Cpu.follow_plan hplan _
  · intro rd hrd
    rw [hregs, Cpu.regs_plan hplan (Encoding.transfer_of_link hrd), hrd]
  · intro ht hnone
    rw [hregs, Cpu.regs_plan hplan ht, hnone]

end Execution

namespace Cpu

theorem plan_of_planGuarded {c : Cpu} {i : Instruction} {p : Plan} (h : c.planGuarded i = .ok p) :
    c.plan i = .ok p := by
  unfold planGuarded at h
  split at h
  · cases h
  · exact h

end Cpu

theorem Execution.OfWord.decoded {e : Execution} (h : e.OfWord) : e.Decoded := by
  intro p hp
  rcases h with h | h | ⟨-, t, h⟩
  · exact h.symm.trans hp
  · exact Cpu.plan_of_planGuarded (h.symm.trans hp)
  · cases h.symm.trans hp

namespace Cpu

/-! ## Between two instructions -/

/-- Execution resumes where it was, or an interrupt has been delivered. -/
def Resumes (c c' : Cpu) : Prop :=
  (c'.pc = c.pc ∧ c'.delaySlot = c.delaySlot) ∨
    (c'.delaySlot = none ∧ ∃ boot, c'.pc = exceptionVector boot false)

end Cpu

theorem Quiet.resumes {a b c : Cpu} (h : Quiet a b) (hb : b.Resumes c) : a.Resumes c := by
  cases h with
  | sample => exact hb
  | outside => exact hb
  | interrupt =>
    refine .inr ?_
    rcases hb with ⟨hpc, hslot⟩ | hb
    · exact ⟨hslot, a.cp0.hasStatus Control.statusBEV, hpc⟩
    · exact hb

/-- **Between two instructions** execution stays where it is, unless an interrupt is delivered. -/
theorem Chain.resumes {a b : Cpu} {es : List Execution} (h : Chain a es b) (hes : es = []) : a.Resumes b := by
  induction h with
  | nil c => exact .inl ⟨rfl, rfl⟩
  | quiet hq _ ih => exact hq.resumes (ih hes)
  | execute => cases hes

/-! ## Runs -/

namespace Machine

/-- The instructions of a fragment are those of their words. -/
theorem ofWord_fragment {usesFloat : Bool} {ops : List FragmentOp} {t : Tandem} {e : Execution}
    (he : e ∈ Fragment.executions usesFloat ops t) : e.OfWord := by
  obtain ⟨op, -, c, -, rfl⟩ := Fragment.mem_executions he
  refine .inl ?_
  show c.plan op.instruction = c.plan (.decode op.word)
  rw [op.instruction_eq]

/-- So is the instruction that a fetch finds. -/
theorem ofWord_nextExecution (c : Cpu) : c.nextExecution.OfWord := by
  unfold Cpu.nextExecution
  rcases c.fetch c.pc with ⟨r, b⟩
  cases r with
  | ok word => exact .inr (.inl rfl)
  | error t => exact .inr (.inr ⟨rfl, t, rfl⟩)

theorem Turn.ofWord {m : Machine} {resumeAt : Option UInt64} {es : List Execution}
    {out : Option (Except FatalError Exit) × Machine} (h : Turn m resumeAt es out) : ∀ e ∈ es, e.OfWord := by
  intro e he
  cases h with
  | stop _ => cases he
  | breakpoint _ _ => cases he
  | fatal _ _ _ _ => exact List.mem_singleton.mp he ▸ ofWord_nextExecution _
  | interpret _ _ _ _ => exact List.mem_singleton.mp he ▸ ofWord_nextExecution _
  | fragmentFatal _ _ _ _ _ => exact ofWord_fragment he
  | fragment _ _ _ _ _ => exact ofWord_fragment he

theorem ofWord_loop (n : Nat) :
    ∀ (resumeAt : Option UInt64) (m : Machine), ∀ e ∈ m.loopExecutions n resumeAt, e.OfWord := by
  induction n with
  | zero => intro resumeAt m e he; cases he
  | succ n ih =>
    intro resumeAt m e he
    rcases List.mem_append.mp he with he | he
    · exact (turn_spec m resumeAt).ofWord e he
    · rcases hturn : m.turn resumeAt with ⟨r, k⟩
      rw [hturn] at he
      cases r with
      | some x => cases he
      | none => exact ih none k e he

/-- **The instructions of a run** are those of their words, interpreted or from fragments. -/
theorem ofWord_executions (m : Machine) (budget : UInt64) : ∀ e ∈ m.executions budget, e.OfWord := by
  unfold executions
  split
  · intro e he
    cases he
  · exact ofWord_loop _ _ _

theorem decoded_executions (m : Machine) (budget : UInt64) : ∀ e ∈ m.executions budget, e.Decoded :=
  fun e he => (ofWord_executions m budget e he).decoded

/-! ## Only the last instruction stops the machine -/

/-- All instructions but the last one are answered, and the last one too if `ended` says so. -/
structure Answered (es : List Execution) (ended : Prop) : Prop where
  /-- Those that another one follows. -/
  followed : ∀ e ∈ es.dropLast, ∃ retired, e.outcome.1 = .ok retired
  /-- All of them. -/
  all : ended → ∀ e ∈ es, ∃ retired, e.outcome.1 = .ok retired

theorem answered_nil (ended : Prop) : Answered [] ended := ⟨fun _ h => (by cases h), fun _ _ h => (by cases h)⟩

theorem answered_fatal (e : Execution) {ended : Prop} (h : ¬ ended) : Answered [e] ended :=
  ⟨fun _ h => (by cases h), fun hended => absurd hended h⟩

theorem answered_single {e : Execution} {retired : Retired} {cpu : Cpu} (h : e.outcome = (.ok retired, cpu))
    (ended : Prop) : Answered [e] ended := by
  refine ⟨fun _ h => (by cases h), fun _ f hf => ?_⟩
  obtain rfl := List.mem_singleton.mp hf
  exact ⟨retired, congrArg Prod.fst h⟩

/-- Answered instructions in front of others. -/
theorem Answered.append {es fs : List Execution} {ended : Prop} (h : ∀ e ∈ es, ∃ retired, e.outcome.1 = .ok retired)
    (h' : Answered fs ended) : Answered (es ++ fs) ended := by
  refine ⟨?_, fun hended e he => (List.mem_append.mp he).elim (h e) (h'.all hended e)⟩
  intro e he
  rcases eq_or_ne fs [] with rfl | hne
  · rw [List.append_nil] at he
    exact h e (List.dropLast_subset _ he)
  · rw [List.dropLast_append_of_ne_nil hne] at he
    exact (List.mem_append.mp he).elim (h e) (h'.followed e)

/-- **A fragment** stops at an instruction that stops the machine. -/
theorem answered_runEach (usesFloat : Bool) (ops : List FragmentOp) :
    ∀ (index : Nat) (t : Tandem),
      Answered (Fragment.executions usesFloat ops t)
        (∃ exit, (Fragment.runEach usesFloat ops index t).1 = .ok exit) := by
  induction ops with
  | nil => exact fun index t => answered_nil _
  | cons op rest ih =>
    intro index t
    have hstep := Fragment.opStep usesFloat op rest index t
    generalize Fragment.executions usesFloat (op :: rest) t = es at hstep ⊢
    generalize Fragment.runEach usesFloat (op :: rest) index t = out at hstep ⊢
    cases hstep with
    | away _ => exact answered_nil _
    | fatal _ _ _ => exact answered_fatal _ (by rintro ⟨exit, hexit⟩; cases hexit)
    | trapped _ _ h _ => exact answered_single h _
    | look _ _ h _ _ => exact answered_single h _
    | next _ _ h _ _ => exact .append ((answered_single h True).all trivial) (ih _ _)

/-- **A turn** that does not end the run has stopped at no instruction. -/
theorem Turn.answered {m : Machine} {resumeAt : Option UInt64} {es : List Execution}
    {out : Option (Except FatalError Exit) × Machine} (h : Turn m resumeAt es out) (hT : m.cpu.Timed) :
    Answered es (out.1 = none) := by
  cases h with
  | stop _ => exact answered_nil _
  | breakpoint _ _ => exact answered_nil _
  | fatal _ _ _ _ => exact answered_fatal _ (by simp)
  | interpret _ _ _ he => exact answered_single he _
  | @fragmentFatal _ _ _ _ f _ x t he =>
    have heach := answered_runEach f.usesFloat f.ops 0 (entered m.takeInterrupt.tandem)
    exact ⟨heach.followed, fun hnone => by cases hnone⟩
  | @fragment _ _ _ _ f _ exit t he =>
    rw [runOps_entered hT] at he
    have heach := answered_runEach f.usesFloat f.ops 0 (entered m.takeInterrupt.tandem)
    exact ⟨heach.followed, fun _ => heach.all ⟨exit, congrArg Prod.fst he⟩⟩

theorem answered_loop (n : Nat) :
    ∀ (resumeAt : Option UInt64) (m : Machine), m.cpu.Timed → Answered (m.loopExecutions n resumeAt) False := by
  induction n with
  | zero => exact fun resumeAt m _ => answered_nil _
  | succ n ih =>
    intro resumeAt m hT
    have hturn := (turn_spec m resumeAt).answered hT
    obtain ⟨c, hchain, hends⟩ := (turn_spec m resumeAt).chain hT
    unfold loopExecutions
    rcases hout : m.turn resumeAt with ⟨r, k⟩
    rw [hout] at hturn hends
    cases r with
    | some x =>
      dsimp only
      rw [List.append_nil]
      exact ⟨hturn.followed, False.elim⟩
    | none => exact .append (hturn.all rfl) (ih none k (hends.timed (hchain.timed hT)))

/-- **An instruction of a run that another one follows** is answered. -/
theorem answered_executions {m : Machine} {past : List TimerEvent} (hrest : m.AtRest past) {budget : UInt64}
    {earlier later : List Execution} {e e' : Execution}
    (heq : m.executions budget = earlier ++ e :: e' :: later) : ∃ retired, e.outcome.1 = .ok retired := by
  have hfollowed : e ∈ (m.executions budget).dropLast := by
    rw [heq, List.dropLast_append_of_ne_nil (List.cons_ne_nil _ _), List.dropLast_cons_cons]
    simp
  unfold executions at hfollowed
  split at hfollowed
  · cases hfollowed
  · rename_i h0
    exact (answered_loop _ _ _ (timed_prepare h0 hrest.ticking.timed hrest.free)).followed e hfollowed

/-- **Consecutive instructions of a run**: the second is found where the first one left execution, unless an
interrupt is delivered in between. -/
theorem resumes_executions {m : Machine} {past : List TimerEvent} (hrest : m.AtRest past) {budget : UInt64}
    {earlier later : List Execution} {e e' : Execution}
    (heq : m.executions budget = earlier ++ e :: e' :: later) : e.after.Resumes e'.before := by
  rcases eq_or_ne budget 0 with rfl | h0
  · rw [executions_zero] at heq
    cases List.append_eq_nil_iff.mp heq.symm |>.2
  · obtain ⟨c, -, hchain, -⟩ := run_chain h0 hrest.ticking.timed hrest.free
    exact ((hchain.split heq).2.split (show e' :: later = [] ++ e' :: later from rfl)).1.resumes rfl

end Machine

/-- **Control flow.** An instruction that completes goes on where its word says, with what its word says written to
the general registers. In every run each instruction that completes does so; the next one is found there, unless an
interrupt is delivered first; and a target that is pending there was set by the instruction right before. -/
theorem control_flow :
    (∀ (c : Cpu) (w : UInt32) (retired : Retired) (c' : Cpu),
        c.executeWord w = (.ok retired, c') → retired.trapped = false → c.GoesOn w c') ∧
      ∀ (config : Configuration) (bus : Bus) (vector : VectorUnit) (past : List HostAction) (budget : UInt64),
        (∀ e ∈ ((Machine.create config bus vector).performAll past).executions budget,
            e.completes = true → e.before.GoesOn e.word e.after) ∧
          ∀ earlier e e' later,
            ((Machine.create config bus vector).performAll past).executions budget = earlier ++ e :: e' :: later →
              e.after.Resumes e'.before ∧
                ∀ target, e'.before.delaySlot = some target →
                  e.completes = true ∧ e.before.following e.word = (e'.before.pc, some target) := by
  refine ⟨?_, ?_⟩
  · intro c w retired c' hexecute htrapped
    let e : Execution := ⟨c, w, c.planGuarded (.decode w)⟩
    have hafter : e.after = c' := congrArg Prod.snd hexecute
    have hcompletes : e.completes = true := by
      unfold Execution.completes
      rw [show e.outcome.1 = .ok retired from congrArg Prod.fst hexecute]
      exact congrArg not htrapped
    obtain ⟨p, hp⟩ := Execution.completes_iff.mp hcompletes
    have hgoes := Execution.goesOn (e := e) (fun _ => Cpu.plan_of_planGuarded) hp
    rw [hafter] at hgoes
    exact hgoes
  · intro config bus vector past budget
    have hrest := (Machine.atRest_of_actions config bus vector past).1
    generalize (Machine.create config bus vector).performAll past = m at hrest ⊢
    have hgoes : ∀ e ∈ m.executions budget, e.completes = true → e.before.GoesOn e.word e.after := by
      intro e he hcompletes
      obtain ⟨p, hp⟩ := Execution.completes_iff.mp hcompletes
      exact Execution.goesOn (m.decoded_executions budget e he) hp
    refine ⟨hgoes, ?_⟩
    intro earlier e e' later heq
    have hresumes := Machine.resumes_executions hrest heq
    refine ⟨hresumes, ?_⟩
    intro target htarget
    rcases hresumes with ⟨hpc, hslot⟩ | ⟨hslot, -⟩
    · have hpending : e.after.delaySlot = some target := hslot.symm.trans htarget
      have hcompletes : e.completes = true :=
        Execution.completes_of_pending (Machine.answered_executions hrest heq) hpending
      refine ⟨hcompletes, ?_⟩
      have hplace := (hgoes e (by rw [heq]; simp) hcompletes).place
      rw [← hplace, hpc, hpending]
    · cases hslot.symm.trans htarget

/-- A call, and the instruction in its delay slot. -/
theorem control_flow_call :
    let m := (Machine.create { general := { startPc := 0xFFFFFFFF80000000 }, memory := { ramSize := 32 } } {}
      {}).performAll [.edit (.loadProgram 0 [0x0C000003, 0])]
    (∃ c', m.cpu.executeWord 0x0C000003 = (.ok ⟨0xFFFFFFFF80000000, 0x0C000003, false, false⟩, c') ∧
        c'.pc = 0xFFFFFFFF80000004 ∧ c'.regs = m.cpu.regs.set 31 0xFFFFFFFF80000008) ∧
      ∃ e e' later, m.executions 2 = [] ++ e :: e' :: later ∧
        e'.before.delaySlot = some 0xFFFFFFFF8000000C ∧
        e.before.following e.word = (e'.before.pc, some 0xFFFFFFFF8000000C) := by
  intro m
  refine ⟨⟨_, Prod.ext (by decide +kernel) rfl, ?_⟩, ?_⟩
  · have hgoes := control_flow.1 m.cpu 0x0C000003 ⟨0xFFFFFFFF80000000, 0x0C000003, false, false⟩ _
      (Prod.ext (by decide +kernel) rfl) rfl
    exact ⟨(congrArg Prod.fst hgoes.place).trans (by decide +kernel), hgoes.link 31 (by decide +kernel)⟩
  · have hslots : (m.executions 2).map (·.before.delaySlot) = [none, some 0xFFFFFFFF8000000C] := by
      decide +kernel
    obtain ⟨e, es, heq, -, hes⟩ := List.map_eq_cons_iff.mp hslots
    obtain ⟨e', later, rfl, hslot, -⟩ := List.map_eq_cons_iff.mp hes
    obtain ⟨-, hpending⟩ := (control_flow.2 _ _ _ _ 2).2 [] e e' later heq
    exact ⟨e, e', later, heq, hslot, (hpending _ hslot).2⟩

end Vr4300
