import Vr4300.Proofs.Recorded

/-!
# `Proofs.Breakpoints` — where breakpoints stop a run, and where they do not

A run stops in front of an instruction at a breakpoint, unless it was stopped there before and goes on. An
interpreted instruction is looked up itself; a fragment is looked up by the ranges of its operations, all of
which were recorded. A range that reaches the top of the address space is empty, so a breakpoint at an
operation in such a range goes unnoticed: it is run through. The breakpoints are an unordered set here. One that is kept
in order fails on such a range (`FragmentCache.blocked`), where nothing is retired any more, so it lets no instruction
at a breakpoint through that the unordered one stops.

`breakpoints_stop` says that there is nothing else. An instruction at a breakpoint is the first one of a run
that goes on from there, or every word from there to the top of the address space was executed before.

## Contents

* `lastBreakpoint`, `resumeAt_serve`: the breakpoint that a run passes is the one that was returned last;
* `Origin.stops`, `breakpoints_stop`;
* `topmost`, `breakpoint_run_through`: a loop in the last two words.
-/

namespace Vr4300

/-! ## The breakpoint to pass -/

/-- The breakpoint that a run stopped at. -/
def breakpoint? : Option (Except FatalError Exit) → Option UInt64
  | some (.ok (.breakpoint pc)) => some pc
  | _ => none

/-- The last breakpoint that runs stopped at, given their results. -/
def lastBreakpoint (results : List (Option (Except FatalError Exit))) : Option UInt64 :=
  (results.filterMap breakpoint?).getLast?

theorem lastBreakpoint_cons (r : Option (Except FatalError Exit)) (results : List (Option (Except FatalError Exit))) :
    lastBreakpoint (r :: results) = (lastBreakpoint results).or (breakpoint? r) := by
  unfold lastBreakpoint
  cases h : breakpoint? r with
  | none => rw [List.filterMap_cons_none h, Option.or_none]
  | some pc =>
    rw [List.filterMap_cons_some h, List.getLast?_cons]
    cases (results.filterMap breakpoint?).getLast? <;> rfl

namespace Machine

variable {m : Machine} {pc : UInt64}

theorem resumeAt_drain (m : Machine) : m.drain.resumeAt = m.resumeAt := by
  obtain ⟨n, cache, h, -⟩ := drain_eq (P := fun _ => True) (fun _ _ _ => trivial) (m := m) trivial
  rw [h]
  rfl

/-- A turn remembers the breakpoint that it stops at. -/
theorem Turn.resumeAt {r : Option UInt64} {es : List Execution} {out : Option (Except FatalError Exit) × Machine}
    (ht : Turn m r es out) (h : out.2.resumeAt = some pc) :
    breakpoint? out.1 = some pc ∨ m.resumeAt = some pc := by
  cases ht with
  | breakpoint _ _ => exact .inl h
  | interpret _ _ _ _ =>
    rw [resumeAt_drain] at h
    exact .inr h
  | fragment _ _ _ _ _ =>
    rw [resumeAt_drain] at h
    exact .inr h
  | _ => exact .inr h

theorem resumeAt_loop (n : Nat) :
    ∀ (r : Option UInt64) {m : Machine}, m.resumeAt = none → (loop n r m).2.resumeAt = some pc →
      breakpoint? (loop n r m).1 = some pc := by
  induction n with
  | zero => intro r m hm h; cases hm.symm.trans h
  | succ n ih =>
    intro r m hm h
    have hstep (h : (m.turn r).2.resumeAt = some pc) := (turn_spec m r).resumeAt h
    rcases hturn : m.turn r with ⟨x, k⟩
    rw [hturn] at hstep
    have hnone : m.resumeAt ≠ some pc := by rw [hm]; simp
    cases x with
    | some x =>
      rw [loop_of_some hturn] at h ⊢
      exact (hstep h).resolve_right hnone
    | none =>
      rw [loop_of_none hturn] at h ⊢
      -- a turn that does not end the run stops at no breakpoint
      refine ih none (Option.eq_none_iff_forall_ne_some.mpr fun a ha => ?_) h
      have hthere : (m.turn r).2.resumeAt = some a := by
        rw [hturn]
        exact ha
      rcases (turn_spec m r).resumeAt hthere with hb | hb
      · rw [hturn] at hb
        cases hb
      · cases hm.symm.trans hb

/-- A run remembers the breakpoint that it stops at, or did nothing. -/
theorem resumeAt_run {budget : UInt64} (h : (m.run budget).2.resumeAt = some pc) :
    (breakpoint? (m.run budget).1).or m.resumeAt = some pc := by
  rcases eq_or_ne budget 0 with rfl | h0
  · rw [run_zero] at h ⊢
    exact h
  · rw [run_eq m h0] at h ⊢
    rw [resumeAt_loop (m.prepare budget).turnsToEnd m.resumeAt rfl h]
    rfl

/-- **The breakpoint that the next run passes** is the one that was returned last. -/
theorem resumeAt_serve (calls : List Call) :
    ∀ {m : Machine}, (m.serve calls).2.resumeAt = some pc →
      (lastBreakpoint (m.serve calls).1).or m.resumeAt = some pc := by
  induction calls with
  | nil => intro m h; exact h
  | cons call rest ih =>
    intro m h
    cases call with
    | run budget =>
      have hrest := ih h
      unfold serve
      dsimp only
      rw [lastBreakpoint_cons, Option.or_assoc]
      cases hlast : lastBreakpoint (serve rest (m.run budget).2).1 with
      | none =>
        rw [hlast] at hrest
        exact resumeAt_run hrest
      | some a =>
        rw [hlast] at hrest
        exact hrest
    | requestHalt => exact ih (m := m.requestHalt) h

/-- Calls leave a machine at rest. -/
theorem atRest_serve (calls : List Call) :
    ∀ {m : Machine} {past : List TimerEvent}, m.AtRest past → ∃ past, (m.serve calls).2.AtRest past := by
  induction calls with
  | nil => intro m past h; exact ⟨past, h⟩
  | cons call rest ih =>
    intro m past h
    cases call with
    | run budget => exact ih (atRest_run h budget).1
    | requestHalt => exact ih (atRest_perform h .requestHalt).1

/-- A run counts the instructions that it retires. -/
theorem opsExecuted_run_of_timed (hT : m.cpu.Timed) (hfree : m.cpu.deadline? = none) (budget : UInt64) :
    (m.run budget).2.cpu.opsExecuted = m.cpu.opsExecuted + retirements (m.executions budget) := by
  rcases eq_or_ne budget 0 with rfl | h0
  · rw [run_zero, executions_zero]
    rfl
  · obtain ⟨c, c', hchain, hends, hcpu⟩ := run_chain h0 hT hfree
    have hcount := hchain.opsExecuted (timed_prepare h0 hT hfree)
    rw [hcpu]
    refine (hends.same Cpu.opsExecuted fun _ => rfl).trans (hcount.trans ?_)
    rw [cpu_prepare h0 hfree]

theorem opsExecuted_run {past : List TimerEvent} (h : m.AtRest past) (budget : UInt64) :
    (m.run budget).2.cpu.opsExecuted = m.cpu.opsExecuted + retirements (m.executions budget) :=
  opsExecuted_run_of_timed h.ticking.timed h.free budget

end Machine

/-! ## Breakpoints -/

/-- **An instruction at a breakpoint** is the one to pass, or the code from there to the top of the address
space was executed before. -/
theorem Origin.stops {breakpoints : List UInt64} {resumeAt : Option UInt64} {past : List Execution} {e : Execution}
    (h : Origin breakpoints resumeAt past e) (hmem : e.before.pc ∈ breakpoints) :
    resumeAt = some e.before.pc ∨ Topped (fun a => ∃ e' ∈ past, e'.before.pc = a) e.before.pc := by
  cases h with
  | interpreted c hb =>
    rw [c.pc_nextExecution] at hmem ⊢
    exact .inl (hb hmem)
  | fragment f op c hop hpc hmade hblocked =>
    refine .inr ?_
    change c.pc ∈ breakpoints at hmem
    show Topped _ c.pc
    rw [hpc] at hmem ⊢
    have haddress : op.address ∈ f.ops.map (·.address) := List.mem_map.mpr ⟨op, hop, rfl⟩
    have hcovered : ¬ Covered (addressRuns (f.ops.map (·.address))) op.address := by
      rw [← hmade.ranges_eq]
      exact fun hcovered => not_mem_of_covered hblocked hcovered hmem
    refine ((covered_or_topped haddress).resolve_left hcovered).mono fun a ha => ?_
    obtain ⟨o, ho, rfl⟩ := List.mem_map.mp ha
    obtain ⟨e', he', hpc', -⟩ := hmade.ops o ho
    exact ⟨e', he', hpc'⟩

/-- **Breakpoints stop a run**, with any settings of the recompiler, whatever was called before. An instruction
at a breakpoint is executed as the first one of a run, when that breakpoint was the last to be returned; or every
word from there to the top of the address space was executed before, so that a fragment may hold them all. The
breakpoints are an unordered set; with the other registry a run may fail where a fragment holds such words. -/
theorem breakpoints_stop (config : Configuration) (bus : Bus) (vector : VectorUnit) (past : List HostAction)
    (s : RecompilerSettings) (breakpoints : List UInt64) (calls : List Call) (budget : UInt64) :
    let m : Machine :=
      { ((Machine.create config bus vector).performAll past).withRecompiler s with
        breakpoints := breakpoints, resumeAt := none }
    let k := (m.serve calls).2
    (k.run budget).2.cpu.opsExecuted = k.cpu.opsExecuted + retirements (k.executions budget) ∧
      ∀ earlier e later, k.executions budget = earlier ++ e :: later → e.before.pc ∈ breakpoints →
        (earlier = [] ∧ lastBreakpoint (m.serve calls).1 = some e.before.pc) ∨
          Topped (fun a => ∃ e' ∈ m.served calls ++ earlier, e'.before.pc = a) e.before.pc := by
  intro m k
  have hrest : m.AtRest _ :=
    { (Machine.atRest_of_actions config bus vector past).1 with }
  have hempty : m.cache.Records (·.Met []) :=
    .of_empty (FragmentCache.get?_create s) rfl
  obtain ⟨hrecords, hbreakpoints⟩ := Machine.serve_records calls hempty
  obtain ⟨_, hk⟩ := Machine.atRest_serve calls hrest
  refine ⟨Machine.opsExecuted_run hk budget, ?_⟩
  intro earlier e later heq hmem
  have horigin := (Machine.run_origins (m := k) hrecords budget).1 earlier e later heq
  rw [hbreakpoints, List.nil_append] at horigin
  refine (horigin.stops hmem).imp_left fun hresume => ?_
  split at hresume
  · rename_i hfirst
    have hlast := Machine.resumeAt_serve calls hresume
    rw [show m.resumeAt = none from rfl, Option.or_none] at hlast
    exact ⟨hfirst, hlast⟩
  · cases hresume

/-- A machine in front of a loop in the last two words of the address space, which one page pair maps to a
device, with a breakpoint at the second one. -/
def topmost : Machine :=
  let rom : Device := .memory "rom" 0xFF8 8 ⟨#[0x10, 0, 0xFF, 0xFF, 0x24, 0x21, 0, 1]⟩
  let m := Machine.create
    { general := { startPc := 0xFFFFFFFFFFFFFFF8 }, memory := { ramSize := 0 }, recompiler := { hotThreshold := 0 } }
    (({} : Bus).add rom) {}
  { m.onCpu fun c => { c with tlb := c.tlb.set 0 (.ofRegisters 0 0xC00000FFFFFFE000 3 3) } with
    breakpoints := [0xFFFFFFFFFFFFFFFC] }

/-- **A breakpoint that is run through.** The first two runs stop at it. The third one passes it once, records the
loop, and executes it again in the fragment. -/
theorem breakpoint_run_through :
    let k := (topmost.serve [.run 10, .run 10]).2
    (topmost.serve [.run 10, .run 10]).1.map breakpoint? = [some 0xFFFFFFFFFFFFFFFC, some 0xFFFFFFFFFFFFFFFC] ∧
      (k.executions 4).map (·.before.pc) =
        [0xFFFFFFFFFFFFFFFC, 0xFFFFFFFFFFFFFFF8, 0xFFFFFFFFFFFFFFFC, 0xFFFFFFFFFFFFFFF8] ∧
      0xFFFFFFFFFFFFFFFC ∈ k.breakpoints := by
  decide +kernel

end Vr4300
