import Vr4300.Proofs.Budget
import Vr4300.Proofs.Consistency
import Vr4300.Proofs.Rooted

/-!
# `Proofs.Progress` — when a run gets to its end

Each turn of a run that does not end it is meant to retire an instruction. Then the deadline comes closer, and
the run ends after no more turns than its budget has cycles. There is one kind of turn that retires nothing: a
fragment is entered whose first operation was recorded in a delay slot. The processor is in none, so the
fragment is left at once, and the machine is where it was. The next turn finds the same fragment, and the run
never ends.

Such a fragment is recorded when the host executes instructions between the landing that starts the recording
and the next run. `run_progresses` says that there is nothing else: every run ends in time or hangs in this
way, and it ends in time as long as no recording is left to begin in a delay slot.

## Contents

* `retirements`: the instructions of a chain that are retired, and what they do to the deadline;
* `Machine.Stalls`, `Turn.progress`: a turn retires an instruction, or it stalls;
* `Machine.Stuck`: a stall is followed by a stall;
* `Machine.Works`, `Completes`, `Hangs`, `Underway.completes_or_hangs`: the turns of a run;
* `Command`, `run_progresses`; `run_hangs`: a run that has no end.
-/

namespace Vr4300

/-! ## Retirements -/

/-- The instruction is retired; it does not stop the machine. -/
def Execution.retires (e : Execution) : Bool := e.worked.isSome

/-- The number of instructions that are retired. -/
def retirements (es : List Execution) : Nat := es.countP Execution.retires

@[simp] theorem retirements_nil : retirements [] = 0 := rfl

theorem retirements_cons_of_worked {e : Execution} {w : Cpu} (h : e.worked = some w) (es : List Execution) :
    retirements (e :: es) = retirements es + 1 :=
  List.countP_cons_of_pos (by unfold Execution.retires; rw [h]; rfl)

theorem retirements_cons_of_fatal {e : Execution} (h : e.worked = none) (es : List Execution) :
    retirements (e :: es) = retirements es :=
  List.countP_cons_of_neg (by unfold Execution.retires; rw [h]; exact Bool.false_ne_true)

/-- An instruction that is answered is retired. -/
theorem one_le_retirements {e : Execution} {es : List Execution} {retired : Retired} {cpu : Cpu}
    (h : e.outcome = (.ok retired, cpu)) : 1 ≤ retirements (e :: es) := by
  obtain ⟨w, hw⟩ := Execution.exists_worked h
  rw [retirements_cons_of_worked hw]
  omega

/-- **A chain counts** the instructions that it retires. -/
theorem Chain.opsExecuted {a b : Cpu} {es : List Execution} (h : Chain a es b) (hT : a.Timed) :
    b.opsExecuted = a.opsExecuted + retirements es := by
  induction h with
  | nil => rfl
  | quiet hq _ ih => rw [ih (hq.timed hT), hq.opsExecuted]
  | @execute c es e _ _ ih =>
    rw [ih (Execution.timed_after hT)]
    cases hw : e.worked with
    | none => rw [retirements_cons_of_fatal hw, show e.after = e.before by rw [e.after_eq, hw]]
    | some w =>
      rw [retirements_cons_of_worked hw, Execution.opsExecuted_after hw hT]
      omega

/-- **A chain retires** no more instructions than its deadline has cycles. -/
theorem Chain.retirements_le {a b : Cpu} {es : List Execution} (h : Chain a es b) :
    ∀ {left : Int}, a.Timed → a.deadline? = some left → (retirements es : Int) ≤ left := by
  induction h with
  | nil c =>
    intro left hT hleft
    have hone : 1 ≤ left := (hT.agenda.ahead _ ((Schedule.until?_eq_some_iff hT.agenda.distinct).mp hleft)).1
    show (0 : Int) ≤ left
    omega
  | quiet hq _ ih =>
    intro left hT hleft
    exact ih (hq.timed hT) (hq.deadline?.trans hleft)
  | @execute c es e _ hchain ih =>
    intro left hT hleft
    cases hw : e.worked with
    | none =>
      have hafter : e.after = e.before := by rw [e.after_eq, hw]
      rw [retirements_cons_of_fatal hw]
      exact ih (hafter ▸ hT) (hafter ▸ hleft)
    | some w =>
      rw [retirements_cons_of_worked hw]
      rcases Execution.deadline?_after hw hT with ⟨hdead, -⟩ | ⟨hone, -, hbreak⟩
      -- the deadline moves closer by a cycle at least
      · rw [hleft] at hdead
        have hrest : (retirements es : Int) ≤ left - 1 - (e.idleCycles : Int) :=
          ih (Execution.timed_after hT) hdead
        push_cast
        omega
      -- the instruction reaches it, and nothing follows
      · obtain rfl : left = 1 := Option.some.inj (hleft.symm.trans hone)
        obtain ⟨rfl, -⟩ := hchain.stopped (by rw [hbreak]; exact Option.some_ne_none _)
        decide

/-! ## Turns -/

namespace Fragment

/-- A fragment that is entered where it begins retires an instruction, unless that stops the machine. -/
theorem one_le_retirements_executions {usesFloat : Bool} {op : FragmentOp} {rest : List FragmentOp}
    {index : Nat} {t t' : Tandem} {exit : FragmentExit} (hpc : t.cpu.pc = op.address)
    (hslot : t.cpu.inDelaySlot = op.inDelaySlot)
    (h : runEach usesFloat (op :: rest) index t = (.ok exit, t')) :
    1 ≤ retirements (executions usesFloat (op :: rest) t) := by
  have hstep := opStep usesFloat op rest index t
  rw [h] at hstep
  generalize executions usesFloat (op :: rest) t = es at hstep ⊢
  generalize hout : ((.ok exit, t') : Except FatalError FragmentExit × Tandem) = out at hstep
  cases hstep with
  | away haway => exact absurd haway (by simp [hpc, hslot])
  | fatal _ _ _ => cases hout
  | trapped _ _ he _ => exact one_le_retirements he
  | look _ _ he _ _ => exact one_le_retirements he
  | next _ _ he _ _ => exact one_le_retirements he

/-- A fragment that begins in a delay slot is left at once where there is none. -/
theorem runOps_of_slot {op : FragmentOp} {t : Tandem} (hop : op.inDelaySlot = true)
    (hslot : t.cpu.inDelaySlot = false) (usesFloat : Bool) (rest : List FragmentOp) (pc : UInt64) :
    runOps usesFloat (op :: rest) 0 ⟨0, pc⟩ t = leave 0 t := by
  have hplan : deferredPlan? ⟨0, pc⟩ t.cpu op = none := by
    unfold deferredPlan? Deferred.admits
    simp [hop]
  have hflush : (⟨0, pc⟩ : Deferred).flush t = t := rfl
  unfold runOps
  rw [hplan, hflush]
  dsimp only
  rw [hop, hslot, if_pos (by simp)]

end Fragment

/-- Taking an interrupt retires nothing. -/
theorem Cpu.opsExecuted_takePending (c : Cpu) : c.takePending.opsExecuted = c.opsExecuted := by
  rcases c.takePending_cases with ⟨-, h⟩ | ⟨-, h⟩ <;> rw [h]
  · rfl
  · exact (Quiet.interrupt c.updateInterrupts).opsExecuted

namespace Machine

variable {m : Machine} {limit : Nat} {resumeAt : Option UInt64}

/-- The machine is going to enter a fragment that begins in a delay slot, and is in none itself. -/
def Stalls (m : Machine) : Prop :=
  ∃ id f op rest, m.lookup.1 = some id ∧ m.lookup.2.cache.store.get? id = some f ∧ f.ops = op :: rest ∧
    op.inDelaySlot = true

/-- **A turn that does not end the run** retires an instruction, or it stalls. -/
theorem Turn.progress {es : List Execution} {out : Option (Except FatalError Exit) × Machine}
    (ht : Turn m resumeAt es out) (hgoes : out.1 = none) (hT : m.cpu.Timed) (h : m.cache.Consistent limit) :
    1 ≤ retirements es ∨ m.takeInterrupt.Stalls := by
  cases ht with
  | stop _ => cases hgoes
  | breakpoint _ _ => cases hgoes
  | fatal _ _ _ _ => cases hgoes
  | fragmentFatal _ _ _ _ _ => cases hgoes
  | interpret _ _ _ he => exact .inl (one_le_retirements he)
  | @fragment _ _ id hl f hf exit t he =>
    -- the fragment is one for the address of the processor, which is in no delay slot
    obtain ⟨-, -, hslot, hentry, -⟩ := h.lookup_eq_some_iff.mp ((lookup_fst m.takeInterrupt).symm.trans hl)
    have hlookup := h.lookup m.takeInterrupt.cpu m.takeInterrupt.breakpoints
    obtain ⟨g, successors, hg, rfl⟩ := FragmentCache.get?_lookup (show _ = some f from hf)
    obtain ⟨g', hg', hformed, -⟩ := h.compiled _ _ hentry
    obtain rfl := Option.some.inj (hg'.symm.trans hg)
    obtain ⟨op, rest, hops, haddress⟩ := hformed.first
    cases hopslot : op.inDelaySlot with
    | true => exact .inr ⟨id, _, op, rest, hl, hf, hops, hopslot⟩
    | false =>
      refine .inl ?_
      rw [runOps_entered hT] at he
      dsimp only at he ⊢
      rw [hops] at he ⊢
      exact Fragment.one_le_retirements_executions haddress.symm (hslot.trans hopslot.symm) he

/-! ## Stalls -/

/-- **Nothing will happen any more**: the next turn stalls. -/
structure Stuck (m : Machine) (limit : Nat) : Prop where
  /-- Nothing asks the run to end. -/
  running : m.cpu.breakout = none
  /-- There are no breakpoints. -/
  unbroken : m.breakpoints = []
  /-- Nothing that was overwritten waits to be looked at. -/
  clean : m.Clean
  /-- The parts of the cache agree. -/
  consistent : m.cache.Consistent limit
  /-- The fragment that is entered begins in a delay slot. -/
  stalls : m.takeInterrupt.Stalls

/-- Where nothing was overwritten there is nothing to drop. -/
theorem drain_of_clean (hcode : m.cpu.codeInvalidations = []) (hdirty : m.cpu.tlbDirty = false) :
    m.drain = m := by
  unfold drain
  rw [hcode, hdirty]
  rfl

/-- Without breakpoints, a run stops at none. -/
theorem atBreakpoint_of_unbroken (h : m.breakpoints = []) (resumeAt : Option UInt64) :
    m.atBreakpoint resumeAt = false := by
  unfold atBreakpoint
  simp [h]

/-- Interrupts that have been taken are not taken again. -/
theorem takeInterrupt_of_settled (hs : m.cpu.Settled) (hp : m.cpu.interruptsPending = false) :
    m.takeInterrupt = m := by
  show m.withTandem ⟨m.cpu.takePending, m.tandem.vector⟩ = m
  rw [Cpu.takePending_of_settled hs hp]
  rfl

/-- A fragment that is left where it was entered is the one that is found next. -/
theorem lookup_left {x : FragmentCache} (h : x.Consistent limit) (hidle : x.recorder = none)
    (hon : x.enabled = true) {id : FragmentId} {f : Fragment} (hf : x.store.get? id = some f) {t : Tandem}
    {breakpoints : List UInt64} (henter : FragmentCache.isEnterable f t.cpu breakpoints = true)
    (hentry : f.entry = t.cpu.pc) (hslot : t.cpu.inDelaySlot = false) :
    ∃ g, ((x.left id ⟨0, false⟩ t).lookup t.cpu breakpoints).1 = some id ∧
      ((x.left id ⟨0, false⟩ t).lookup t.cpu breakpoints).2.store.get? id = some g ∧ g.ops = f.ops := by
  let y : FragmentCache := { x with store := x.store.countRun id, lastExit := some (id, 0) }
  have hcompiled : x.entries[t.cpu.pc]? = some (.compiled id) := hentry ▸ h.stored id f hf
  have hleft : x.left id ⟨0, false⟩ t = y := by
    have hcontains : y.entries.contains t.cpu.pc = true := by
      rw [← Std.TreeMap.isSome_getElem?_eq_contains, hcompiled]
      rfl
    unfold FragmentCache.left
    dsimp only
    rw [hslot, if_neg Bool.false_ne_true]
    unfold FragmentCache.countHit
    rw [if_pos hcontains]
  have hconsistent : y.Consistent limit := hleft ▸ h.left hidle hf (Nat.zero_le _) t
  have hcounted : y.store.get? id = some { f with runs := f.runs + 1 } := by
    show (x.store.countRun id).get? id = _
    unfold FragmentStore.countRun
    rw [FragmentCache.get?_modify_eq, if_pos rfl, hf]
    rfl
  have hfound : (y.lookup t.cpu breakpoints).1 = some id :=
    hconsistent.lookup_eq_some_iff.mpr ⟨hon, hidle, hslot, hcompiled, _, hcounted, henter⟩
  obtain ⟨-, -, g, hg, -⟩ := FragmentCache.lookup_some hfound
  obtain ⟨g', successors, hg', rfl⟩ := FragmentCache.get?_lookup hg
  obtain rfl := Option.some.inj (hcounted.symm.trans hg')
  rw [hleft]
  exact ⟨_, hfound, hg, rfl⟩

/-- **A stall is followed by a stall.** -/
theorem Stuck.turn (h : m.Stuck limit) (resumeAt : Option UInt64) :
    ∃ k, m.turn resumeAt = (none, k) ∧ k.Stuck limit ∧ k.cpu.opsExecuted = m.cpu.opsExecuted := by
  obtain ⟨id, f, op, rest, hl, hf, hops, hop⟩ := h.stalls
  obtain ⟨hon, hidle, hslot, hentry, -⟩ :=
    h.consistent.lookup_eq_some_iff.mp ((lookup_fst m.takeInterrupt).symm.trans hl)
  obtain ⟨-, -, f', hf', henter⟩ := FragmentCache.lookup_some ((lookup_fst m.takeInterrupt).symm.trans hl)
  obtain rfl := Option.some.inj (hf'.symm.trans hf)
  obtain ⟨g, successors, hg, heq⟩ := FragmentCache.get?_lookup hf'
  have hlookup := h.consistent.lookup m.takeInterrupt.cpu m.takeInterrupt.breakpoints
  have hclean : m.takeInterrupt.cpu.codeInvalidations = [] ∧ m.takeInterrupt.cpu.tlbDirty = false :=
    h.clean.takeInterrupt.resolve_left fun hempty => by cases (hempty id).symm.trans hg
  -- the fragment is left at once, and only counters change
  have hrun : Fragment.runOps f'.usesFloat f'.ops 0 ⟨0, m.takeInterrupt.cpu.pc⟩
      (entered m.takeInterrupt.tandem) = Fragment.leave 0 (entered m.takeInterrupt.tandem) := by
    rw [hops]
    exact Fragment.runOps_of_slot (t := entered m.takeInterrupt.tandem) hop hslot _ _ _
  let t : Tandem := (Fragment.leave 0 (entered m.takeInterrupt.tandem)).2
  let k : Machine := { m.takeInterrupt.lookup.2.withTandem t with
    cache := m.takeInterrupt.lookup.2.cache.left id ⟨0, false⟩ t }
  have hstay := atBreakpoint_of_unbroken (m := m.takeInterrupt) h.unbroken resumeAt
  have hturn : m.turn resumeAt = (none, k.drain) :=
    (turn_proceed h.running hstay).2 _ (proceed_fragment hl hf hrun)
  rw [show k.drain = k from drain_of_clean hclean.1 hclean.2] at hturn
  have htaken : k.takeInterrupt = k := by
    refine takeInterrupt_of_settled ?_ (Cpu.interruptsPending_takePending m.cpu)
    exact congrArg (fun c : Cpu => { c with statistics := t.cpu.statistics }) (Cpu.settled_takePending m.cpu)
  have hrecorder := FragmentCache.recorder_lookup_of_some ((lookup_fst m.takeInterrupt).symm.trans hl)
  have henabled := (m.cache.recorder_lookup m.takeInterrupt.cpu m.takeInterrupt.breakpoints).2.trans hon
  have hplace : f'.entry = m.takeInterrupt.cpu.pc := by
    obtain ⟨g', hg', hformed, -⟩ := h.consistent.compiled _ _ hentry
    obtain rfl := Option.some.inj (hg'.symm.trans hg)
    rw [heq]
    exact hformed.entry_eq
  obtain ⟨g', hfound, hg', hsame⟩ := lookup_left (t := t) hlookup hrecorder henabled hf' henter hplace hslot
  refine ⟨k, hturn, ⟨?_, h.unbroken, .inr hclean, ?_, ?_⟩, ?_⟩
  · exact (Cpu.breakout_takePending m.cpu).trans h.running
  · exact hlookup.left hrecorder hf' (Nat.zero_le _) t
  · rw [htaken]
    exact ⟨id, g', op, rest, hfound, hg', hsame.trans hops, hop⟩
  · exact Cpu.opsExecuted_takePending m.cpu

/-- **A run that stalls once** takes turns for ever, and retires nothing. -/
theorem Stuck.loop (n : Nat) :
    ∀ (resumeAt : Option UInt64) {m : Machine}, m.Stuck limit →
      (Machine.loop n resumeAt m).1 = none ∧ (Machine.loop n resumeAt m).2.cpu.opsExecuted = m.cpu.opsExecuted := by
  induction n with
  | zero => intro resumeAt m h; exact ⟨rfl, rfl⟩
  | succ n ih =>
    intro resumeAt m h
    obtain ⟨k, hturn, hk, hops⟩ := h.turn resumeAt
    rw [loop_of_none hturn, ← hops]
    exact ih none hk

/-! ## Machines in use -/

/-- The machine is in use: its cache is in order, and there are no breakpoints. -/
structure Underway (m : Machine) (limit : Nat) : Prop where
  /-- Nothing is due. -/
  timed : m.cpu.Timed
  /-- There are no breakpoints. -/
  unbroken : m.breakpoints = []
  /-- Nothing that was overwritten waits to be looked at, unless there is no fragment yet. -/
  clean : m.Clean
  /-- The parts of the cache agree. -/
  consistent : m.cache.Consistent limit

theorem clean_drain (m : Machine) : m.drain.Clean := by
  obtain ⟨n, cache, h, -⟩ := drain_eq (P := fun _ => True) (fun _ _ _ => trivial) (m := m) trivial
  rw [h]
  exact .inr ⟨rfl, rfl⟩

theorem breakpoints_drain (m : Machine) : m.drain.breakpoints = m.breakpoints := by
  obtain ⟨n, cache, h, -⟩ := drain_eq (P := fun _ => True) (fun _ _ _ => trivial) (m := m) trivial
  rw [h]
  rfl

/-- **A turn** leaves nothing to look at: behind it invalidations are looked at, or it noted none. -/
theorem Turn.clean {es : List Execution} {out : Option (Except FatalError Exit) × Machine}
    (ht : Turn m resumeAt es out) (hT : m.cpu.Timed) (h : m.Clean) : out.2.Clean := by
  cases ht with
  | stop _ => exact h
  | breakpoint _ _ => exact h.takeInterrupt
  | fatal _ _ _ he =>
    rw [Execution.eq_before_of_error he]
    exact h.takeInterrupt.lookup.fetched m.tandem.vector
  | interpret _ _ _ _ => exact clean_drain _
  | fragmentFatal hb _ hl hf he =>
    rw [runOps_entered hT] at he
    have hstay := Fragment.mustLeave_of_runEach_error (mustLeave_entered h hb hl hf) he
    unfold Fragment.mustLeave at hstay
    simp only [Bool.or_eq_false_iff, Bool.not_eq_false', List.isEmpty_iff] at hstay
    exact .inr ⟨hstay.1.1.2, hstay.1.2⟩
  | fragment _ _ _ _ _ => exact clean_drain _

theorem Turn.breakpoints {es : List Execution} {out : Option (Except FatalError Exit) × Machine}
    (ht : Turn m resumeAt es out) : out.2.breakpoints = m.breakpoints := by
  cases ht with
  | interpret _ _ _ _ => exact breakpoints_drain _
  | fragment _ _ _ _ _ => exact breakpoints_drain _
  | _ => rfl

/-- **A turn** leaves a machine in use. -/
theorem Turn.underway {es : List Execution} {out : Option (Except FatalError Exit) × Machine}
    (ht : Turn m resumeAt es out) (h : m.Underway limit) : out.2.Underway limit := by
  obtain ⟨c, hchain, hends⟩ := ht.chain h.timed
  exact ⟨hends.timed (hchain.timed h.timed), ht.breakpoints.trans h.unbroken, ht.clean h.timed h.clean,
    ht.consistent h.consistent⟩

/-! ## Runs -/

/-- The first `n` turns do not end the run, and each of them retires an instruction. -/
structure Works (m : Machine) (resumeAt : Option UInt64) (n : Nat) : Prop where
  /-- They do not end the run. -/
  goes : (loop n resumeAt m).1 = none
  /-- Each retires an instruction. -/
  retires : ∀ j < n, (loop j resumeAt m).2.cpu.opsExecuted < (loop (j + 1) resumeAt m).2.cpu.opsExecuted

/-- After `n` turns that each retire an instruction, the next one ends the run. -/
structure Completes (m : Machine) (resumeAt : Option UInt64) (n : Nat) : Prop extends Works m resumeAt n where
  /-- The next turn ends the run. -/
  ends : (loop (n + 1) resumeAt m).1 ≠ none

/-- After `n` turns that each retire an instruction, the run stalls for ever. -/
structure Hangs (m : Machine) (resumeAt : Option UInt64) (n : Nat) : Prop extends Works m resumeAt n where
  /-- The next turn stalls. -/
  stalls : (loop n resumeAt m).2.takeInterrupt.Stalls
  /-- No turn ends the run. -/
  endless : ∀ j, (loop j resumeAt m).1 = none
  /-- No later turn retires anything. -/
  idle : ∀ j, n ≤ j → (loop j resumeAt m).2.cpu.opsExecuted = (loop n resumeAt m).2.cpu.opsExecuted

section

variable {k : Machine} {n : Nat}

/-- One more turn in front. -/
theorem Works.turn (h : Works k none n) (hturn : m.turn resumeAt = (none, k))
    (hops : m.cpu.opsExecuted < k.cpu.opsExecuted) : Works m resumeAt (n + 1) := by
  constructor
  · rw [loop_of_none hturn]
    exact h.goes
  · intro j hj
    cases j with
    | zero =>
      rw [loop_of_none hturn]
      exact hops
    | succ j =>
      rw [loop_of_none hturn, loop_of_none hturn]
      exact h.retires j (by omega)

theorem Completes.turn (h : Completes k none n) (hturn : m.turn resumeAt = (none, k))
    (hops : m.cpu.opsExecuted < k.cpu.opsExecuted) : Completes m resumeAt (n + 1) := by
  refine ⟨h.toWorks.turn hturn hops, ?_⟩
  rw [loop_of_none hturn]
  exact h.ends

theorem Hangs.turn (h : Hangs k none n) (hturn : m.turn resumeAt = (none, k))
    (hops : m.cpu.opsExecuted < k.cpu.opsExecuted) : Hangs m resumeAt (n + 1) := by
  refine ⟨h.toWorks.turn hturn hops, ?_, ?_, ?_⟩
  · rw [loop_of_none hturn]
    exact h.stalls
  · intro j
    cases j with
    | zero => rfl
    | succ j =>
      rw [loop_of_none hturn]
      exact h.endless j
  · intro j hj
    obtain ⟨j, rfl⟩ : ∃ i, j = i + 1 := ⟨j - 1, by omega⟩
    rw [loop_of_none hturn, loop_of_none hturn]
    exact h.idle j (by omega)

end

/-- No turns are taken yet. -/
theorem works_zero (m : Machine) (resumeAt : Option UInt64) : Works m resumeAt 0 :=
  ⟨rfl, fun j hj => absurd hj (Nat.not_lt_zero j)⟩

/-- **The turns of a run**: all of so many retire instructions, or before that the run ends or hangs. -/
theorem Underway.turns (n : Nat) :
    ∀ (resumeAt : Option UInt64) {m : Machine}, m.Underway limit →
      Works m resumeAt n ∨ ∃ j < n, Completes m resumeAt j ∨ Hangs m resumeAt j := by
  induction n with
  | zero => intro resumeAt m _; exact .inl (works_zero m resumeAt)
  | succ n ih =>
    intro resumeAt m h
    have hspec := turn_spec m resumeAt
    rcases hturn : m.turn resumeAt with ⟨r, k⟩
    rw [hturn] at hspec
    cases r with
    | some x =>
      refine .inr ⟨0, Nat.succ_pos n, .inl ⟨works_zero m resumeAt, ?_⟩⟩
      rw [loop_of_some hturn]
      exact Option.some_ne_none x
    | none =>
      obtain ⟨c, hchain, hends⟩ := hspec.chain h.timed
      have hcount : k.cpu.opsExecuted = m.cpu.opsExecuted + retirements (m.turnExecutions resumeAt) := by
        rw [← hchain.opsExecuted h.timed, hends.eq_of_none]
      have hk : k.Underway limit := hspec.underway h
      rcases hspec.progress rfl h.timed h.consistent with hone | hstalls
      -- the turn retires an instruction, and the others are turns of the machine behind it
      · have hops : m.cpu.opsExecuted < k.cpu.opsExecuted := by omega
        refine (ih none hk).imp (·.turn hturn hops) ?_
        rintro ⟨j, hj, hcompletes | hhangs⟩
        · exact ⟨j + 1, by omega, .inl (hcompletes.turn hturn hops)⟩
        · exact ⟨j + 1, by omega, .inr (hhangs.turn hturn hops)⟩
      -- the turn stalls, and so do all others
      · have hb : m.cpu.breakout = none := by
          by_contra hne
          obtain ⟨exit, hexit⟩ := Option.ne_none_iff_exists'.mp hne
          rw [(turn_stop hexit resumeAt).2] at hturn
          cases hturn
        have hstuck : m.Stuck limit := ⟨hb, h.unbroken, h.clean, h.consistent, hstalls⟩
        refine .inr ⟨0, Nat.succ_pos n, .inr ⟨works_zero m resumeAt, hstalls, ?_, ?_⟩⟩
        · intro j
          exact (hstuck.loop j resumeAt).1
        · intro j _
          exact (hstuck.loop j resumeAt).2

/-- Turns that each retire an instruction are no more than the cycles to the deadline. -/
theorem Works.le {n : Nat} (h : Works m resumeAt n) (hT : m.cpu.Timed) {left : Int}
    (hleft : m.cpu.deadline? = some left) : (n : Int) ≤ left := by
  have hcount (j : Nat) (hj : j ≤ n) : m.cpu.opsExecuted + j ≤ (loop j resumeAt m).2.cpu.opsExecuted := by
    induction j with
    | zero => exact Nat.le_refl _
    | succ j ih =>
      have hless := h.retires j hj
      have hle := ih (by omega)
      omega
  obtain ⟨c, hchain, hends⟩ := loop_chain n resumeAt m hT
  have hlast := hcount n (Nat.le_refl n)
  rw [h.goes] at hends
  rw [hends.eq_of_none, hchain.opsExecuted hT] at hlast
  have hle := hchain.retirements_le hT hleft
  omega

/-- **A run ends or hangs**, after no more turns than its deadline has cycles. -/
theorem Underway.completes_or_hangs (h : m.Underway limit) {left : Int} (hleft : m.cpu.deadline? = some left)
    (resumeAt : Option UInt64) :
    ∃ n : Nat, (n : Int) ≤ left ∧ (Completes m resumeAt n ∨ Hangs m resumeAt n) := by
  rcases h.turns (left.toNat + 1) resumeAt with hworks | ⟨n, -, hn⟩
  · have hle := hworks.le h.timed hleft
    omega
  · refine ⟨n, ?_, hn⟩
    rcases hn with hn | hn
    · exact hn.toWorks.le h.timed hleft
    · exact hn.toWorks.le h.timed hleft

/-- Turns behind the end of a run are not taken. -/
theorem loop_of_ended {n : Nat} (hends : (loop n resumeAt m).1 ≠ none) (j : Nat) :
    loop (n + j) resumeAt m = loop n resumeAt m := by
  induction n generalizing m resumeAt with
  | zero => exact absurd rfl hends
  | succ n ih =>
    rw [Nat.succ_add]
    rcases hturn : m.turn resumeAt with ⟨r, k⟩
    cases r with
    | some x => rw [loop_of_some hturn, loop_of_some hturn]
    | none =>
      rw [loop_of_none hturn] at hends ⊢
      rw [loop_of_none hturn]
      exact ih hends

/-- The run ends, after so many turns that each retire an instruction, no more than it has cycles. -/
structure RunEnds (m : Machine) (budget : UInt64) (n : Nat) : Prop where
  /-- There are no more turns than cycles. -/
  bound : n ≤ budget.toNat
  /-- Each retires an instruction, and the next one ends the run. -/
  completes : (m.prepare budget).Completes m.resumeAt n
  /-- It decides the result of the run. -/
  result : (m.run budget).1 = (loop (n + 1) m.resumeAt (m.prepare budget)).1

/-- The run has no end: after so many turns that each retire an instruction, it stalls. -/
structure RunHangs (m : Machine) (budget : UInt64) (n : Nat) : Prop where
  /-- There are no more turns than cycles before it stalls. -/
  bound : n ≤ budget.toNat
  /-- Each retires an instruction, and the later ones none. -/
  hangs : (m.prepare budget).Hangs m.resumeAt n
  /-- There is no result. -/
  result : (m.run budget).1 = none

/-- Setting a deadline leaves a machine in use. -/
theorem Underway.prepare (h : m.Underway limit) (hfree : m.cpu.deadline? = none) {budget : UInt64}
    (h0 : budget ≠ 0) : (m.prepare budget).Underway limit := by
  refine ⟨timed_prepare h0 h.timed hfree, h.unbroken, ?_, h.consistent⟩
  unfold Clean
  rw [cpu_prepare h0 hfree]
  exact h.clean

/-- **A run ends or hangs.** -/
theorem Underway.run_ends_or_hangs (h : m.Underway limit) (hfree : m.cpu.deadline? = none) {budget : UInt64}
    (h0 : budget ≠ 0) : ∃ n, m.RunEnds budget n ∨ m.RunHangs budget n := by
  have hdead := deadline?_prepare h0 h.timed hfree
  have hcycles : cyclesOf budget ≤ budget.toNat := Nat.min_le_left _ _
  have hturns := turnsToEnd_prepare h0 h.timed hfree
  obtain ⟨n, hn, hcompletes | hhangs⟩ := (h.prepare hfree h0).completes_or_hangs hdead m.resumeAt
  · refine ⟨n, .inl ⟨by omega, hcompletes, ?_⟩⟩
    obtain ⟨j, hj⟩ : ∃ j, cyclesOf budget + 2 = n + 1 + j := ⟨cyclesOf budget + 1 - n, by omega⟩
    rw [run_eq m h0, hturns, hj, loop_of_ended hcompletes.ends]
  · refine ⟨n, .inr ⟨by omega, hhangs, ?_⟩⟩
    rw [run_eq m h0]
    exact hhangs.endless _

/-- **Where fragments begin outside delay slots**, the run does not hang. -/
theorem Rooted.not_hangs (h : m.Rooted) (budget : UInt64) (n : Nat) : ¬ m.RunHangs budget n := by
  rintro ⟨-, hhangs, -⟩
  obtain ⟨id, f, op, rest, -, hf, hops, hop⟩ := hhangs.stalls
  have hrooted := ((h.prepare budget).loop n m.resumeAt).takeInterrupt.lookup
  have hslot := hrooted.rooted.code id f hf op (by rw [hops]; rfl)
  rw [hop] at hslot
  cases hslot

end Machine

/-! ## Commands -/

/-- What the host tells a machine to do. -/
inductive Command where
  /-- It loads a program. -/
  | loadProgram (physical : Nat) (program : List UInt32)
  /-- It runs it. -/
  | run (budget : UInt64)
  /-- It executes one instruction. -/
  | step
  /-- It asks for a halt. -/
  | requestHalt
  /-- It resets it. -/
  | reset

/-- A command as an action. -/
def Command.action : Command → HostAction
  | loadProgram physical program => .edit (.loadProgram physical program)
  | run budget => .run budget
  | step => .step
  | requestHalt => .requestHalt
  | reset => .reset

namespace Machine

variable {m : Machine} {limit : Nat}

/-- The machine behind commands in order. -/
def obey (m : Machine) (commands : List Command) : Machine := m.performAll (commands.map Command.action)

/-- A recording that has not begun is going to begin outside delay slots. -/
def Poised (m : Machine) : Prop := m.cache.Poised m.cpu

instance (m : Machine) : Decidable m.Poised :=
  inferInstanceAs (Decidable (m.cache.enabled = true →
    ∀ r ∈ m.cache.recorder, r.reversed = [] → m.cpu.inDelaySlot = false))

/-- Turns leave a machine in use. -/
theorem Underway.loop (h : m.Underway limit) (n : Nat) (resumeAt : Option UInt64) :
    (loop n resumeAt m).2.Underway limit :=
  loop_preserves (P := fun m => m.Underway limit) (fun r m hm => (turn_spec m r).underway hm) n resumeAt h

/-- A run leaves a machine in use. -/
theorem Underway.run (h : m.Underway limit) (hfree : m.cpu.deadline? = none) (budget : UInt64) :
    (m.run budget).2.Underway limit := by
  rcases eq_or_ne budget 0 with rfl | h0
  · rw [run_zero]
    exact h
  · rw [run_eq m h0]
    have hloop := (h.prepare hfree h0).loop (m.prepare budget).turnsToEnd m.resumeAt
    exact ⟨(timed_finish hloop.timed).1, hloop.unbroken, hloop.clean, hloop.consistent⟩

/-- A single step looks at invalidations, unless it stops the machine. -/
theorem Clean.step (h : m.Clean) : m.step.2.Clean := by
  rcases he : m.takeInterrupt.cpu.nextExecution.outcome with ⟨r, cpu⟩
  have hstep : m.takeInterrupt.tandem.cpu.step = (r, cpu) := (Cpu.step_eq _).trans he
  unfold Machine.step interpret
  dsimp only
  rw [hstep]
  cases r with
  | error x =>
    obtain rfl := Execution.eq_before_of_error he
    exact h.takeInterrupt.fetched m.tandem.vector
  | ok retired => exact clean_drain _

/-- **A command** leaves a machine in use. -/
theorem Underway.command (h : m.Underway limit) {past : List TimerEvent} (hrest : m.AtRest past)
    (command : Command) : (command.action.perform m).Underway limit := by
  have htimed : (command.action.perform m).cpu.Timed := (atRest_perform hrest command.action).1.ticking.timed
  cases command with
  | loadProgram physical program =>
    refine ⟨htimed, h.unbroken, h.clean.imp ?_ id, (Operation.loadProgram physical program).consistent h.consistent⟩
    intro hempty
    refine FragmentCache.forgetAll_preserves (P := fun x => ∀ id, x.store.get? id = none) ?_ hempty _
    intro x entry hx id
    cases hf : (x.forget entry).store.get? id with
    | none => rfl
    | some f => cases (hx id).symm.trans (FragmentCache.get?_forget hf)
  | run budget => exact h.run hrest.free budget
  | step =>
    have hbreak : m.step.2.breakpoints = m.breakpoints := by
      obtain ⟨t, hstep | hstep⟩ := m.step_snd
      · rw [hstep]
        rfl
      · rw [hstep, breakpoints_drain]
        rfl
    exact ⟨htimed, hbreak.trans h.unbroken, h.clean.step, consistent_step h.consistent⟩
  | requestHalt => exact ⟨htimed, h.unbroken, h.clean, h.consistent⟩
  | reset =>
    exact ⟨htimed, h.unbroken, .inl fun _ => Std.TreeMap.getElem?_emptyc, h.consistent.clear⟩

/-- **Commands** leave a machine in use, and at rest. -/
theorem Underway.obey (commands : List Command) :
    ∀ {m : Machine} {past : List TimerEvent}, m.Underway limit → m.AtRest past →
      (m.obey commands).Underway limit ∧ (m.obey commands).cpu.deadline? = none := by
  induction commands with
  | nil => intro m past h hrest; exact ⟨h, hrest.free⟩
  | cons command rest ih =>
    intro m past h hrest
    exact ih (h.command hrest command) (atRest_perform hrest command.action).1

/-- A machine that is built is in use. -/
theorem underway_create (config : Configuration) (bus : Bus) (vector : VectorUnit) :
    (create config bus vector).Underway (max 1 config.recompiler.maxFragmentOps.toNat) where
  timed := (atRest_create config bus vector).ticking.timed
  unbroken := rfl
  clean := .inl (FragmentCache.get?_create config.recompiler)
  consistent := FragmentCache.Consistent.create config.recompiler

/-- **A command** leaves fragments that begin outside delay slots. -/
theorem Rooted.command (h : m.Rooted) (command : Command) : (command.action.perform m).cache.Rooted := by
  cases command with
  | loadProgram physical program =>
    exact FragmentCache.forgetAll_preserves (P := FragmentCache.Rooted) (fun _ entry hx => hx.forget entry)
      h.rooted _
  | run budget =>
    show (m.run budget).2.cache.Rooted
    rcases eq_or_ne budget 0 with rfl | h0
    · rw [run_zero]
      exact h.rooted
    · rw [run_eq m h0]
      exact ((h.prepare budget).loop (m.prepare budget).turnsToEnd m.resumeAt).rooted
  | step => exact cache_step (P := FragmentCache.Rooted) (fun _ entry hx => hx.forget entry) h.rooted
  | requestHalt => exact h.rooted
  | reset => exact FragmentCache.rooted_of_empty (fun _ => Std.TreeMap.getElem?_emptyc) rfl

/-- **Commands**, as long as none of them leaves a recording that is going to begin in a delay slot. -/
theorem rooted_obey (commands : List Command) :
    ∀ {m : Machine}, m.cache.Rooted → (∀ earlier ∈ commands.inits, (m.obey earlier).Poised) →
      (m.obey commands).Rooted := by
  induction commands with
  | nil =>
    intro m h hpoised
    exact ⟨h, hpoised [] (by simp)⟩
  | cons command rest ih =>
    intro m h hpoised
    have hnow : m.Poised := hpoised [] (by simp)
    refine ih (Rooted.command ⟨h, hnow⟩ command) ?_
    intro earlier hearlier
    exact hpoised (command :: earlier) (by simpa using hearlier)

/-- Whatever a machine was told before, a run ends or hangs. -/
theorem obey_ends_or_hangs (config : Configuration) (bus : Bus) (vector : VectorUnit) (commands : List Command)
    {budget : UInt64} (h0 : budget ≠ 0) :
    ∃ n, ((create config bus vector).obey commands).RunEnds budget n ∨
      ((create config bus vector).obey commands).RunHangs budget n := by
  obtain ⟨hunderway, hfree⟩ :=
    (underway_create config bus vector).obey commands (atRest_create config bus vector)
  exact hunderway.run_ends_or_hangs hfree h0

end Machine

/-- **A run gets to its end**, or it hangs. Whatever a machine was told before, each turn of a run that does
not end it retires an instruction, so that the run ends after no more turns than it has cycles, until it
enters a fragment that begins in a delay slot; then it retires nothing any more, and has no end. It does not
come to that unless a command left a recording that was going to begin in a delay slot. -/
theorem run_progresses (config : Configuration) (bus : Bus) (vector : VectorUnit) (commands : List Command)
    (budget : UInt64) (hone : 1 ≤ budget.toNat) :
    let m := (Machine.create config bus vector).obey commands
    (∃ n, m.RunEnds budget n ∨ m.RunHangs budget n) ∧
      ((∀ earlier ∈ commands.inits, ((Machine.create config bus vector).obey earlier).Poised) →
        ∃ n, m.RunEnds budget n) := by
  intro m
  have h0 : budget ≠ 0 := by rintro rfl; exact absurd hone (by decide)
  have hdone := Machine.obey_ends_or_hangs config bus vector commands h0
  refine ⟨hdone, ?_⟩
  intro hpoised
  have hrooted : m.Rooted := Machine.rooted_obey commands
    (FragmentCache.rooted_of_empty (FragmentCache.get?_create config.recompiler) rfl) hpoised
  obtain ⟨n, hends | hhangs⟩ := hdone
  · exact ⟨n, hends⟩
  · exact absurd hhangs (hrooted.not_hangs budget n)

/-- A machine in front of the word at `offset`. Each landing starts a recording, if none is in progress. -/
def eager (offset : UInt64) : Machine :=
  Machine.create
    { general := { startPc := 0xFFFFFFFF80000000 + offset }, memory := { ramSize := 32 }
      recompiler := { hotThreshold := 0 } } {} {}

/-- A loop that counts in a register is recorded in the first run, and ends in the third. -/
theorem run_progresses_counting :
    let commands : List Command := [.loadProgram 0 [0x24210001, 0x1000FFFE, 0], .run 14, .requestHalt, .run 7]
    let m := (eager 0).obey commands
    m.cpu.statistics.fragmentRuns ≠ 0 ∧ 1 ≤ (7 : UInt64).toNat ∧
      (∀ earlier ∈ commands.inits, ((eager 0).obey earlier).Poised) ∧ ∃ n, m.RunEnds 7 n :=
  ⟨by decide +kernel, by decide, by decide +kernel,
    (run_progresses _ _ _ [.loadProgram 0 [0x24210001, 0x1000FFFE, 0], .run 14, .requestHalt, .run 7] 7
      (by decide)).2 (by decide +kernel)⟩

/-- A jump lands in front of a recording, and the machine is stepped around until the same instruction comes
in a delay slot. There the run goes on, and the next landing enters what it recorded. -/
theorem run_hangs :
    let m := (eager 16).obey
      [.loadProgram 0 [0x08000004, 0, 0x08000000, 0, 0x08000001, 0], .run 2, .step, .step, .step, .step]
    (m.run 10).1 = none ∧ ∃ n, m.RunHangs 10 n := by
  intro m
  have hnone : (m.run 10).1 = none := by decide +kernel
  refine ⟨hnone, ?_⟩
  obtain ⟨n, hends | hhangs⟩ := Machine.obey_ends_or_hangs _ {} {}
    [.loadProgram 0 [0x08000004, 0, 0x08000000, 0, 0x08000001, 0], .run 2, .step, .step, .step, .step]
    (show (10 : UInt64) ≠ 0 by decide)
  · exact absurd (hends.result.symm.trans hnone) hends.completes.ends
  · exact ⟨n, hhangs⟩

end Vr4300
