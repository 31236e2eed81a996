import Vr4300.Proofs.Faithful

/-!
# `Proofs.FragmentTurns` — a fragment is turns of the interpreter

Where a fragment executes operations, the interpreter takes turns. They stay abreast: before an operation the
interpreter, once it has looked for interrupts, is like the processor in the fragment. The operation is the
instruction that the interpreter fetches, because the fragment is faithful; the interpreter stops at no
breakpoint, because the ranges of the fragment hold none; and the line is sampled in other places, but with
nothing in between that could tell.

## Contents

* `Execution.InRam`, `Execution.Undisturbed`, `CodeStable`: code that is fetched from main memory and not
  overwritten;
* `Reaches`: turns that do not end a run;
* `Abreast`, `Abreast.operation`: one operation is one turn;
* `Arrives`, `Abreast.fragment`: a fragment is as many turns as it executes operations.
-/

namespace Vr4300

/-! ## Code -/

namespace Execution

/-- Unless it cannot be fetched, the instruction comes from main memory through an unmapped window. -/
def InRam (e : Execution) : Prop :=
  ∀ l, e.before.resolve .word .fetch e.before.pc = .ok l →
    (Address.segment e.before.pc).isMapped = false ∧ ∃ offset, l = .ram offset

/-- The instruction is where it was fetched from when another one is executed. -/
def Undisturbed (e e' : Execution) : Prop :=
  ∀ word, e.before.peek? e.before.pc = some word → e'.before.peek? e.before.pc = some word

instance (e : Execution) : Decidable e.InRam :=
  match h : e.before.resolve .word .fetch e.before.pc with
  | .ok (.ram offset) =>
    decidable_of_iff ((Address.segment e.before.pc).isMapped = false)
      ⟨fun hs _ hl => ⟨hs, offset, (Except.ok.inj (h.symm.trans hl)).symm⟩, fun he => (he _ h).1⟩
  | .ok (.bus _) => .isFalse fun he => by obtain ⟨-, _, hl⟩ := he _ h; cases hl
  | .error _ => .isTrue fun _ hl => by rw [h] at hl; cases hl

instance (e e' : Execution) : Decidable (e.Undisturbed e') :=
  match h : e.before.peek? e.before.pc with
  | none => .isTrue fun _ hw => by rw [h] at hw; cases hw
  | some word =>
    decidable_of_iff (e'.before.peek? e.before.pc = some word)
      ⟨fun hw _ hw' => by rw [← Option.some.inj (h.symm.trans hw')]; exact hw, fun hu => hu word h⟩

/-- What is known about an instruction that was executed. -/
theorem retired_eq {e : Execution} {retired : Retired} {cpu : Cpu} (h : e.outcome = (.ok retired, cpu)) :
    retired = ⟨e.before.pc, e.word, e.before.inDelaySlot, retired.trapped⟩ := by
  obtain ⟨before, word, planned⟩ := e
  cases planned with
  | ok p => obtain rfl := Except.ok.inj (Prod.mk.inj h).1; rfl
  | error f =>
    cases f with
    | trap t => obtain rfl := Except.ok.inj (Prod.mk.inj h).1; rfl
    | floatingPoint fcr31 => obtain rfl := Except.ok.inj (Prod.mk.inj h).1; rfl
    | fatal x => cases h

end Execution

/-- **The code is stable**: what is executed is fetched from main memory through an unmapped window, and is
not overwritten as long as something is executed. -/
structure CodeStable (fs : List Execution) : Prop where
  /-- Instructions are fetched from main memory. -/
  inRam : ∀ e ∈ fs, e.InRam
  /-- They are not overwritten. -/
  undisturbed : fs.Pairwise Execution.Undisturbed

instance (fs : List Execution) : Decidable (CodeStable fs) :=
  decidable_of_iff ((∀ e ∈ fs, e.InRam) ∧ fs.Pairwise Execution.Undisturbed)
    ⟨fun h => ⟨h.1, h.2⟩, fun h => ⟨h.inRam, h.undisturbed⟩⟩

theorem CodeStable.suffix {fs gs : List Execution} (h : CodeStable fs) (hs : gs <:+ fs) : CodeStable gs :=
  ⟨fun e he => h.inRam e (hs.mem he), h.undisturbed.sublist hs.sublist⟩

namespace Cpu

/-- A fetch disturbs no code. -/
theorem peek?_nextExecution (c : Cpu) (address : UInt64) :
    c.nextExecution.before.peek? address = c.peek? address := by
  obtain ⟨bus, h⟩ := c.exists_nextExecution_before
  rw [h]
  rfl

/-- **What is recorded of an instruction** is what lies at its address from then on. -/
theorem current_of_nextExecution {c : Cpu} {fs : List Execution} (h : CodeStable (c.nextExecution :: fs))
    {retired : Retired} {cpu : Cpu} (he : c.nextExecution.outcome = (.ok retired, cpu))
    (ht : retired.trapped = false) :
    RecordedOp.Current ⟨retired.address, retired.word, retired.inDelaySlot⟩ fs := by
  have hram := h.inRam _ List.mem_cons_self
  have hrest := (List.pairwise_cons.mp h.undisturbed).1
  cases hr : c.resolve .word .fetch c.pc with
  | error t =>
    have hnext : c.nextExecution = ⟨c, 0, .error (.trap t)⟩ := by
      unfold nextExecution fetch
      rw [hr]
    rw [hnext] at he
    obtain rfl := Except.ok.inj (Prod.mk.inj he).1
    cases ht
  | ok l =>
    have hbefore : c.nextExecution.before.resolve .word .fetch c.nextExecution.before.pc = .ok l := by
      obtain ⟨bus, hb⟩ := c.exists_nextExecution_before
      rw [hb]
      exact hr
    obtain ⟨hunmapped, offset, rfl⟩ := hram l hbefore
    have hpeek : c.peek? c.pc = some (c.ram.read .word offset).toUInt32 := by
      unfold peek?
      rw [hr]
    have hnext := nextExecution_of_peek? hpeek
    rw [Execution.retired_eq he]
    rw [hnext] at hunmapped hrest ⊢
    exact ⟨hunmapped, fun e hmem => hrest e hmem _ hpeek⟩

end Cpu

namespace Fragment

/-- The processor is where the first operation was recorded. -/
def Here (ops : List FragmentOp) (c : Cpu) : Prop :=
  ∃ op, ops.head? = some op ∧ c.pc = op.address ∧ c.inDelaySlot = op.inDelaySlot

/-- Elsewhere, nothing is executed. -/
theorem runEach_of_not_here {ops : List FragmentOp} {t : Tandem} (h : ¬ Here ops t.cpu) (usesFloat : Bool)
    (index : Nat) :
    runEach usesFloat ops index t = (.ok ⟨index, true⟩, t) ∨
      runEach usesFloat ops index t = leave index t := by
  cases ops with
  | nil => exact .inl rfl
  | cons op rest =>
    refine .inr (if_pos ?_)
    by_contra hhere
    simp only [Bool.or_eq_true, bne_iff_ne, ne_eq, not_or, not_not] at hhere
    exact h ⟨op, rfl, hhere⟩

end Fragment

namespace Machine

/-! ## Turns of the interpreter -/

/-- From one place of a run another one is reached, without an end of the run in between. -/
structure Reaches (n : Nat) (resumeAt : Option UInt64) (a : Machine) (n' : Nat) (resumeAt' : Option UInt64)
    (a' : Machine) : Prop where
  /-- The run goes on from there. -/
  loop : loop n resumeAt a = loop n' resumeAt' a'
  /-- So do its instructions. -/
  executions : a'.loopExecutions n' resumeAt' <:+ a.loopExecutions n resumeAt

namespace Reaches

variable {n n' n'' : Nat} {resumeAt resumeAt' resumeAt'' : Option UInt64} {a a' a'' : Machine}

theorem trans (h : Reaches n resumeAt a n' resumeAt' a') (h' : Reaches n' resumeAt' a' n'' resumeAt'' a'') :
    Reaches n resumeAt a n'' resumeAt'' a'' :=
  ⟨h.loop.trans h'.loop, h'.executions.trans h.executions⟩

/-- A turn that does not end the run. -/
theorem turn (h : a.turn resumeAt = (none, a')) : Reaches (n + 1) resumeAt a n none a' := by
  refine ⟨loop_of_none h n, ?_⟩
  rw [loopExecutions, h]
  exact List.suffix_append _ _

end Reaches

/-- The instructions of a run begin with those of its first turn. -/
theorem loopExecutions_succ {n : Nat} {resumeAt : Option UInt64} {a : Machine} :
    a.turnExecutions resumeAt <+: a.loopExecutions (n + 1) resumeAt := by
  rw [loopExecutions]
  exact List.prefix_append _ _

/-- Interpreting an instruction and counting an operation differ in the counter. -/
theorem masked_counted (c : Cpu) (v : VectorUnit) :
    (interpreted c v).cpu.masked = { c.masked with line := (v.drive (v.steps + 1)).getD c.line } ∧
      (Fragment.countOp ⟨c, v⟩).cpu.masked = { c.masked with line := (v.drive (v.steps + 1)).getD c.line } ∧
      (Fragment.countOp ⟨c, v⟩).vector = (interpreted c v).vector := by
  unfold interpreted Fragment.countOp Tandem.count Tandem.onCpu Tandem.stepVector
  dsimp only
  cases v.drive (v.steps + 1) <;> exact ⟨rfl, rfl, rfl⟩

/-- The line is driven alike. -/
theorem like_counted {c c' : Cpu} (h : Cpu.Like c c') (v : VectorUnit) :
    Cpu.Like (interpreted c v).cpu (interpreted c' v).cpu ∧
      Cpu.Like (interpreted c v).cpu (Fragment.countOp ⟨c', v⟩).cpu ∧
      (interpreted c v).vector = (interpreted c' v).vector := by
  have hline : c'.line = c.line := h.same Cpu.line fun _ => rfl
  have hmasked : c.masked = c'.masked := h
  unfold Cpu.Like
  rw [(masked_counted c v).1, (masked_counted c' v).1, (masked_counted c' v).2.1, hmasked, hline]
  refine ⟨rfl, rfl, ?_⟩
  unfold interpreted Tandem.count Tandem.onCpu Tandem.stepVector
  rfl

/-- **The interpreter and a fragment are abreast**: they stand before the same instruction. -/
structure Abreast (a : Machine) (t : Tandem) : Prop where
  /-- With interrupts looked for, the processors are alike. -/
  like : Cpu.Like a.takeInterrupt.cpu t.cpu
  /-- The vector units are the same. -/
  vector : a.tandem.vector = t.vector
  /-- The interpreter interprets. -/
  interprets : a.cache.enabled = false
  /-- It is in order. -/
  orderly : a.cpu.Orderly
  /-- Its run goes on. -/
  running : a.cpu.breakout = none

theorem Shows.congr {a a' : Machine} {t t' : Tandem} (h : Shows a t a') (hshown : t.cpu.shown = t'.cpu.shown)
    (hvector : t.vector = t'.vector) : Shows a t' a' :=
  { h with visible := h.visible.trans (visible_withTandem hshown hvector) }

namespace Abreast

variable {a : Machine} {t : Tandem} {op : FragmentOp} {usesFloat : Bool} {resumeAt : Option UInt64}

theorem orderly_tandem (h : Abreast a t) : t.cpu.Orderly :=
  (h.orderly.takePending : a.takeInterrupt.cpu.Orderly).of_shown h.like.shown

/-- The interpreter does not stop before the operation. -/
theorem atBreakpoint (h : Abreast a t) (hpc : t.cpu.pc = op.address)
    (hbreak : a.breakpoints.contains op.address = false) (resumeAt : Option UInt64) :
    a.takeInterrupt.atBreakpoint resumeAt = false := by
  have hsame : t.cpu.pc = a.takeInterrupt.cpu.pc := h.like.same Cpu.pc fun _ => rfl
  unfold Machine.atBreakpoint
  rw [← hsame, hpc, show a.takeInterrupt.breakpoints = a.breakpoints from rfl, hbreak, Bool.and_false]

/-- **The operation is the instruction that the interpreter fetches.** -/
theorem operation (h : Abreast a t) (hpc : t.cpu.pc = op.address)
    (hword : a.takeInterrupt.cpu.nextExecution.before.peek? op.address = some op.word)
    (hfloat : op.instruction.needsFloat = true → t.cpu.statusFloatUsable = true) :
    a.takeInterrupt.cpu.nextExecution.outcome.1 = (Fragment.execution op t.cpu).outcome.1 ∧
      Cpu.Like a.takeInterrupt.cpu.nextExecution.outcome.2 (Fragment.execution op t.cpu).outcome.2 := by
  have hsame : t.cpu.pc = a.takeInterrupt.cpu.pc := h.like.same Cpu.pc fun _ => rfl
  have hpeek : a.takeInterrupt.cpu.peek? a.takeInterrupt.cpu.pc = some op.word := by
    rw [← hsame, hpc, ← Cpu.peek?_nextExecution]
    exact hword
  have hgate : a.takeInterrupt.cpu.floatUsable = t.cpu.statusFloatUsable := by
    rw [← h.like.same Cpu.floatUsable fun _ => rfl]
    exact h.orderly_tandem.gated
  have hplan : t.cpu.plan op.instruction = a.takeInterrupt.cpu.planGuarded (.decode op.word) := by
    rw [h.like.plan, ← op.instruction_eq]
    exact (Cpu.planGuarded_of_usable fun hneeds => hgate.trans (hfloat hneeds)).symm
  rw [Cpu.nextExecution_of_peek? hpeek]
  unfold Fragment.execution
  rw [hplan]
  have hexecute := h.like.execute op.word (a.takeInterrupt.cpu.planGuarded (.decode op.word))
  exact ⟨hexecute.1.symm, hexecute.2⟩

/-- An operation that stops the machine stops the interpreter. -/
theorem operation_fatal (h : Abreast a t) (hpc : t.cpu.pc = op.address)
    (hword : a.takeInterrupt.cpu.nextExecution.before.peek? op.address = some op.word)
    (hfloat : op.instruction.needsFloat = true → t.cpu.statusFloatUsable = true)
    (hbreak : a.breakpoints.contains op.address = false) {x : FatalError} {cpu : Cpu}
    (he : (Fragment.execution op t.cpu).outcome = (.error x, cpu)) :
    ∃ a', a.turn resumeAt = (some (.error x), a') ∧ Shows a ⟨cpu, t.vector⟩ a' := by
  obtain ⟨hanswer, hlike⟩ := h.operation hpc hword hfloat
  rw [he] at hanswer hlike
  obtain ⟨a', hturn, hshows⟩ := interpreter_fatal h.interprets h.orderly h.running
    (h.atBreakpoint hpc hbreak resumeAt)
    (Prod.ext (y := (_, a.takeInterrupt.cpu.nextExecution.after)) hanswer rfl)
  exact ⟨a', hturn, hshows.congr hlike.shown h.vector⟩

/-- **One operation is one turn.** -/
theorem operation_turn (h : Abreast a t) (hpc : t.cpu.pc = op.address)
    (hword : a.takeInterrupt.cpu.nextExecution.before.peek? op.address = some op.word)
    (hfloat : op.instruction.needsFloat = true → t.cpu.statusFloatUsable = true)
    (hbreak : a.breakpoints.contains op.address = false) {retired : Retired} {cpu : Cpu}
    (he : (Fragment.execution op t.cpu).outcome = (.ok retired, cpu)) :
    ∃ a', a.turn resumeAt = (none, a') ∧ Shows a (Fragment.countOp ⟨cpu, t.vector⟩) a' := by
  obtain ⟨hanswer, hlike⟩ := h.operation hpc hword hfloat
  rw [he] at hanswer hlike
  obtain ⟨a', hturn, hshows⟩ := interpreter_turn h.interprets h.orderly h.running
    (h.atBreakpoint hpc hbreak resumeAt)
    (Prod.ext (y := (_, a.takeInterrupt.cpu.nextExecution.after)) hanswer rfl)
  obtain ⟨-, hcounted, hvector⟩ := like_counted hlike t.vector
  rw [h.vector] at hshows
  exact ⟨a', hturn, hshows.congr hcounted.shown (hvector.trans (masked_counted cpu t.vector).2.2.symm)⟩

end Abreast

theorem Shows.breakpoints {a a' : Machine} {t : Tandem} (h : Shows a t a') : a'.breakpoints = a.breakpoints :=
  breakpoints_of_visible (b := a.withTandem t) h.visible

/-- Sampling the line once more does not show. -/
theorem Shows.settled {a a' : Machine} {cpu : Cpu} {v : VectorUnit}
    (h : Shows a (Fragment.countOp ⟨cpu, v⟩) a') : Shows a (Fragment.settled cpu v) a' :=
  { h with visible := h.visible.trans (visible_withTandem (Cpu.shown_updateInterrupts _).symm rfl) }

/-- **Behind an operation** the interpreter is abreast again, unless the machine has to look. -/
theorem Shows.abreast {a a' : Machine} {cpu : Cpu} {v : VectorUnit} {usesFloat : Bool}
    (h : Shows a (Fragment.countOp ⟨cpu, v⟩) a')
    (hstay : Fragment.mustLeave usesFloat (Fragment.settled cpu v).cpu = false) :
    Abreast a' (Fragment.settled cpu v) := by
  have hshown : a'.cpu.shown = (Fragment.settled cpu v).cpu.shown := shown_of_visible h.settled.visible
  unfold Fragment.mustLeave at hstay
  simp only [Bool.or_eq_false_iff] at hstay
  obtain ⟨⟨⟨⟨hbreak, hpending⟩, -⟩, -⟩, -⟩ := hstay
  have htake : (Fragment.settled cpu v).cpu.takePending = (Fragment.settled cpu v).cpu :=
    Cpu.takePending_of_settled (Cpu.settled_updateInterrupts _) hpending
  have hlike := Cpu.like_takePending hshown
  rw [htake] at hlike
  refine ⟨hlike, congrArg (fun m => m.tandem.vector) h.visible, h.interprets, h.orderly, ?_⟩
  rw [← Cpu.same_of_shown hshown Cpu.breakout fun _ => rfl]
  exact Option.not_isSome_iff_eq_none.mp (by rw [hbreak]; exact Bool.false_ne_true)

/-- Nor does leaving a fragment. -/
theorem Shows.left {a a' : Machine} {t : Tandem} (h : Shows a t a') (index : Nat) :
    Shows a (Fragment.leave index t).2 a' :=
  { h with visible := h.visible }

theorem Shows.trans {a a' a'' : Machine} {t t' : Tandem} (h : Shows a t a') (h' : Shows a' t' a'') :
    Shows a t' a'' :=
  { h' with visible := h'.visible.trans (visible_withTandem_of_visible h.visible t' t' rfl rfl) }

/-! ## Fragments -/

/-- The interpreter gets where operations lead, by turns that do not end the run or by one that does, with the
same error. -/
inductive Arrives (n : Nat) (resumeAt : Option UInt64) (a : Machine) (usesFloat : Bool) :
    Except FatalError FragmentExit × Tandem → Prop where
  /-- An operation stops the machine; nothing before it gave a reason to look. -/
  | fatal {x : FatalError} {t : Tandem} {a' : Machine} (h : loop n resumeAt a = (some (.error x), a'))
      (hs : Shows a t a') (hstay : Fragment.mustLeave usesFloat t.cpu = false) :
      Arrives n resumeAt a usesFloat (.error x, t)
  /-- The operations end. -/
  | exit {exit : FragmentExit} {t : Tandem} {n' : Nat} {a' : Machine} (hn : n' < n)
      (h : Reaches n resumeAt a n' none a') (hs : Shows a t a') : Arrives n resumeAt a usesFloat (.ok exit, t)

namespace Arrives

variable {n : Nat} {resumeAt : Option UInt64} {a : Machine} {usesFloat : Bool}

theorem leave {n' : Nat} {a' : Machine} {t : Tandem} (hn : n' < n) (h : Reaches n resumeAt a n' none a')
    (hs : Shows a t a') (index : Nat) : Arrives n resumeAt a usesFloat (Fragment.leave index t) :=
  .exit hn h (hs.left index)

/-- What the interpreter arrives at from a place that it reached. -/
theorem of_reaches {n' : Nat} {a' : Machine} {t : Tandem} {out : Except FatalError FragmentExit × Tandem}
    (h : Arrives n' none a' usesFloat out) (hn : n' < n) (hr : Reaches n resumeAt a n' none a')
    (hs : Shows a t a') : Arrives n resumeAt a usesFloat out := by
  cases h with
  | fatal hloop hs' hstay => exact .fatal (hr.loop.trans hloop) (hs.trans hs') hstay
  | exit hn' hr' hs' => exact .exit (hn'.trans hn) (hr.trans hr') (hs.trans hs')

end Arrives

/-- What an operation needs so that the interpreter can follow. -/
structure Runnable (op : FragmentOp) (usesFloat : Bool) (breakpoints : List UInt64) (fs : List Execution) :
    Prop where
  /-- It is what lies at its address. -/
  current : op.toRecordedOp.Current fs
  /-- There is no breakpoint. -/
  unbroken : breakpoints.contains op.address = false
  /-- Use of the floating-point unit is announced. -/
  float : op.instruction.needsFloat = true → usesFloat = true

theorem Runnable.mono {op : FragmentOp} {usesFloat : Bool} {breakpoints : List UInt64} {fs gs : List Execution}
    (h : Runnable op usesFloat breakpoints fs) (hs : gs ⊆ fs) : Runnable op usesFloat breakpoints gs :=
  { h with current := h.current.mono hs }

/-- **A fragment is turns of the interpreter**, as many as it executes operations. -/
theorem Abreast.fragment {usesFloat : Bool} (ops : List FragmentOp) :
    ∀ (index n : Nat) (resumeAt : Option UInt64) (a : Machine) (t : Tandem),
      Abreast a t → Fragment.mustLeave usesFloat t.cpu = false → Fragment.Here ops t.cpu →
      (∀ op ∈ ops, Runnable op usesFloat a.breakpoints (a.loopExecutions n resumeAt)) →
      (loop n resumeAt a).1 ≠ none →
      Arrives n resumeAt a usesFloat (Fragment.runEach usesFloat ops index t) := by
  induction ops with
  | nil =>
    rintro index n resumeAt a t - - ⟨op, hop, -⟩
    cases hop
  | cons op rest ih =>
    rintro index n resumeAt a t h hstay ⟨op', hop, hpc, hslot⟩ hrun hends
    obtain rfl := Option.some.inj hop
    obtain ⟨n, rfl⟩ : ∃ k, n = k + 1 := by
      cases n with
      | zero => exact absurd rfl hends
      | succ k => exact ⟨k, rfl⟩
    -- the operation is executed in this turn, so it is current
    obtain ⟨hcurrent, hbreak, hfloat⟩ := hrun op List.mem_cons_self
    have hword : a.takeInterrupt.cpu.nextExecution.before.peek? op.address = some op.word := by
      refine hcurrent.word _ (loopExecutions_succ.mem ?_)
      rw [interpreter_executions h.interprets h.running (h.atBreakpoint hpc hbreak resumeAt)]
      exact List.mem_singleton_self _
    have husable : op.instruction.needsFloat = true → t.cpu.statusFloatUsable = true :=
      fun hneeds => Fragment.statusFloatUsable_of_stay hstay (hfloat hneeds)
    have hstep := Fragment.opStep usesFloat op rest index t
    generalize Fragment.executions usesFloat (op :: rest) t = es at hstep
    generalize Fragment.runEach usesFloat (op :: rest) index t = out at hstep ⊢
    cases hstep with
    | away hway => exact absurd hway (by rw [hpc, hslot]; simp)
    | @fatal _ _ x cpu he =>
      obtain ⟨a', hturn, hshows⟩ := h.operation_fatal hpc hword husable hbreak he
      refine .fatal (loop_of_some hturn n) hshows ?_
      rw [show cpu = t.cpu from Execution.eq_before_of_error he]
      exact hstay
    | trapped _ _ he _ =>
      obtain ⟨a', hturn, hshows⟩ := h.operation_turn hpc hword husable hbreak he
      exact .leave (Nat.lt_succ_self n) (.turn hturn) hshows (index + 1)
    | look _ _ he _ _ =>
      obtain ⟨a', hturn, hshows⟩ := h.operation_turn hpc hword husable hbreak he
      exact .leave (Nat.lt_succ_self n) (.turn hturn) hshows.settled (index + 1)
    | @next _ _ retired cpu he ht hl =>
      obtain ⟨a', hturn, hshows⟩ := h.operation_turn hpc hword husable hbreak he
      have hreach : Reaches (n + 1) resumeAt a n none a' := .turn hturn
      have hstay' : Fragment.mustLeave usesFloat (Fragment.settled cpu t.vector).cpu = false :=
        (Fragment.looksAfter_eq_mustLeave hstay he).symm.trans hl
      -- the next operation follows, or control has left the trace
      by_cases hhere : Fragment.Here rest (Fragment.settled cpu t.vector).cpu
      · have hbreakpoints : a'.breakpoints = a.breakpoints := hshows.breakpoints
        have hrest := ih (index + 1) n none a' (Fragment.settled cpu t.vector) (hshows.abreast hstay') hstay'
          hhere
          (fun o ho => hbreakpoints ▸ (hrun o (List.mem_cons_of_mem _ ho)).mono hreach.executions.subset)
          (hreach.loop ▸ hends)
        exact hrest.of_reaches (Nat.lt_succ_self n) hreach hshows.settled
      · rcases Fragment.runEach_of_not_here hhere usesFloat (index + 1) with hout | hout <;> rw [hout]
        · exact .exit (Nat.lt_succ_self n) hreach hshows.settled
        · exact .leave (Nat.lt_succ_self n) hreach hshows.settled (index + 1)

end Machine

end Vr4300
