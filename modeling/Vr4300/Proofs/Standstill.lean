import Vr4300.Proofs.Breakpoints
import Vr4300.Proofs.MappedCode
import Vr4300.Proofs.Undated

/-!
# `Proofs.Standstill` — what a machine at a breakpoint remembers

A run that stops at a breakpoint leaves the machine a permission: the next run passes that breakpoint. In between the
host may ask for halts and start runs that execute nothing, because they have no budget or because a halt was
requested. None of them changes the processor, but a run takes the permission before it looks for a halt. So a run
without a budget leaves the permission, and a run that is halted uses it up; then the next run stops at the breakpoint
again, and the one behind that passes it.

## Contents

* `Standstill`, `Machine.standing`: a machine at a breakpoint is described by three bits;
* `Interlude`, `Standstill.next?`, `attend_standing`: requests that execute nothing;
* `Machine.Stopped`, `stopped_of_breakpoint`: behind a run that stopped at a breakpoint;
* `Machine.Passes`, `Machine.Repeats`, `Machine.Slips`: the next run;
* `breakpoint_passed_unless_halted`, and a machine that is halted at a breakpoint.
-/

namespace Vr4300

/-! ## Standing at a breakpoint -/

/-- What the host may do while a machine stands at a breakpoint. -/
inductive Interlude where
  /-- It runs the machine. -/
  | run (budget : UInt64)
  /-- It asks for a halt. -/
  | requestHalt
  /-- It sets the external interrupt line. -/
  | setLine (level : Bool)
deriving DecidableEq, Repr, Inhabited

/-- What changes while a machine stands at a breakpoint. -/
structure Standstill where
  /-- A halt was requested, and no run has answered. -/
  halted : Bool := false
  /-- The next run may pass the breakpoint. -/
  permitted : Bool := true
  /-- The level of the interrupt line. -/
  line : Bool
deriving DecidableEq, Repr, Inhabited

namespace Standstill

/-- What is left behind a request, unless it is a run that goes on. -/
def next? (s : Standstill) : Interlude → Option Standstill
  | .requestHalt => some { s with halted := true }
  | .setLine level => some { s with line := level }
  | .run budget =>
    if budget = 0 then some s
    else if s.halted then some { s with halted := false, permitted := false }
    else none

/-- What is left behind requests in order. -/
def after? (s : Standstill) (requests : List Interlude) : Option Standstill := requests.foldlM next? s

/-- **The permission stays** as long as no run has a budget. -/
theorem permitted_of_after? (requests : List Interlude) :
    ∀ {s t : Standstill}, s.after? requests = some t →
      (t.permitted = true ↔ s.permitted = true ∧ ∀ budget, .run budget ∈ requests → budget = 0) := by
  induction requests with
  | nil =>
    intro s t h
    obtain rfl := Option.some.inj h
    simp
  | cons request rest ih =>
    intro s t h
    obtain ⟨u, hu, hrest⟩ := Option.bind_eq_some_iff.mp ((List.foldlM_cons ..).symm.trans h)
    rw [ih hrest]
    cases request with
    | requestHalt =>
      obtain rfl := Option.some.inj hu
      simp
    | setLine level =>
      obtain rfl := Option.some.inj hu
      simp
    | run budget =>
      unfold next? at hu
      dsimp only at hu
      split at hu
      · rename_i hzero
        obtain rfl := Option.some.inj hu
        simp [hzero]
      · rename_i hbudget
        split at hu
        · obtain rfl := Option.some.inj hu
          simp [hbudget]
        · cases hu

end Standstill

namespace Machine

/-- The machine behind a request. -/
def attend (m : Machine) : Interlude → Machine
  | .run budget => (m.run budget).2
  | .requestHalt => m.requestHalt
  | .setLine level => m.setLine level

/-- The machine behind requests in order. -/
def attendAll (m : Machine) (requests : List Interlude) : Machine := requests.foldl attend m

/-- The machine that stands at a breakpoint so. -/
def standing (m : Machine) (s : Standstill) : Machine :=
  { m.onCpu fun c => { c with line := s.line, breakout := if s.halted then some .halted else none } with
    resumeAt := if s.permitted then some m.cpu.pc else none }

variable {m : Machine}

/-- A run that is halted takes no time. -/
theorem run_of_halted (h : m.cpu.Free) (hb : m.cpu.breakout = some .halted) {budget : UInt64} (h0 : budget ≠ 0) :
    m.run budget = (some (.ok .halted), { m.onCpu fun c => { c with breakout := none } with resumeAt := none }) := by
  have hbreak : (m.prepare budget).cpu.breakout = some .halted := by
    rw [cpu_prepare h0 h.unbounded]
    exact hb
  have hturn := (turn_stop hbreak m.resumeAt).2
  -- the deadline that was set is taken away, and the reason to stop with it
  let told : Cpu := { (m.prepare budget).cpu with breakout := none }
  let asked : Cpu := { m.cpu with breakout := none }
  have hfinish : finish told = asked :=
    calc finish told
      _ = told.undated := Cpu.finish_eq_undated ((timed_prepare h0 h.timed h.unbounded).of_events rfl) rfl
      _ = asked.undated := Cpu.undated_prepare h.timed h.unbounded h0
      _ = asked := Cpu.undated_of_free (h.timed.of_events rfl) h.unbounded rfl
  rw [run_eq m h0, turnsToEnd_prepare h0 h.timed h.unbounded, loop_of_some hturn]
  refine Prod.ext rfl ?_
  show ({ m with resumeAt := none } : Machine).withTandem ⟨finish told, m.tandem.vector⟩ =
    ({ m with resumeAt := none } : Machine).withTandem ⟨asked, m.tandem.vector⟩
  rw [hfinish]

/-- **A request that executes nothing** changes what the machine remembers, and nothing else. -/
theorem attend_standing (h : m.cpu.Free) {s t : Standstill} {request : Interlude} (hs : s.next? request = some t) :
    (m.standing s).attend request = m.standing t := by
  cases request with
  | requestHalt =>
    obtain rfl := Option.some.inj hs
    rfl
  | setLine level =>
    obtain rfl := Option.some.inj hs
    rfl
  | run budget =>
    unfold Standstill.next? at hs
    dsimp only at hs
    split at hs
    · rename_i hzero
      obtain rfl := Option.some.inj hs
      rw [hzero]
      exact congrArg Prod.snd (run_zero _)
    split at hs
    · rename_i hbudget hhalted
      obtain rfl := Option.some.inj hs
      have hb : (m.standing s).cpu.breakout = some .halted := if_pos hhalted
      exact congrArg Prod.snd (run_of_halted (m := m.standing s) (free_of_events h rfl) hb hbudget)
    · cases hs

/-- **Requests that execute nothing**, likewise. -/
theorem attendAll_standing (h : m.cpu.Free) (requests : List Interlude) :
    ∀ {s t : Standstill}, s.after? requests = some t → (m.standing s).attendAll requests = m.standing t := by
  induction requests with
  | nil =>
    intro s t hs
    obtain rfl := Option.some.inj hs
    rfl
  | cons request rest ih =>
    intro s t hs
    obtain ⟨u, hu, hrest⟩ := Option.bind_eq_some_iff.mp ((List.foldlM_cons ..).symm.trans hs)
    show ((m.standing s).attend request).attendAll rest = m.standing t
    rw [attend_standing h hu]
    exact ih hrest

/-! ## Behind a run that stopped at a breakpoint -/

/-- The machine stopped at a breakpoint, and may pass it. -/
structure Stopped (m : Machine) (pc : UInt64) : Prop where
  /-- It is there. -/
  there : m.cpu.pc = pc
  /-- There is a breakpoint. -/
  broken : pc ∈ m.breakpoints
  /-- Nothing asks the next run to end. -/
  unhalted : m.cpu.breakout = none
  /-- The next run may pass it. -/
  permitted : m.resumeAt = some pc

/-- A machine that has just stopped. -/
theorem Stopped.standing_eq {pc : UInt64} (h : m.Stopped pc) : m.standing { line := m.cpu.line } = m := by
  show ({ m.onCpu fun c => { c with line := c.line, breakout := none } with resumeAt := some m.cpu.pc } : Machine) = m
  rw [h.there, ← h.permitted, ← h.unhalted]
  rfl

/-- A run is asked to end by its deadline and by the host, and not by a breakpoint. -/
theorem breakout_ne_breakpoint {a b : Cpu} {es : List Execution} (h : Chain a es b) (hT : a.Timed) {pc : UInt64}
    (ha : a.breakout ≠ some (.breakpoint pc)) : b.breakout ≠ some (.breakpoint pc) := by
  refine (h.preserves (P := fun c => c.Timed ∧ c.breakout ≠ some (.breakpoint pc)) ?_ ?_ ⟨hT, ha⟩).2
  · rintro c c' hq ⟨hc, hne⟩
    exact ⟨hq.timed hc, hq.breakout ▸ hne⟩
  · rintro e hb ⟨he, hne⟩
    refine ⟨Execution.timed_after he, ?_⟩
    cases hw : e.worked with
    | none => rwa [show e.after = e.before by rw [e.after_eq, hw]]
    | some w =>
      rcases Execution.deadline?_after hw he with ⟨-, hbreak⟩ | ⟨-, -, hbreak⟩ <;> rw [hbreak, hb] <;> simp

/-- **A turn that answers with a breakpoint** stops there. -/
theorem Turn.stopped {resumeAt : Option UInt64} {es : List Execution} {out : Option (Except FatalError Exit) × Machine}
    (ht : Turn m resumeAt es out) {pc : UInt64} (hb : m.cpu.breakout ≠ some (.breakpoint pc))
    (hout : out.1 = some (.ok (.breakpoint pc))) : out.2.Stopped pc := by
  cases ht with
  | stop h =>
    obtain rfl := Except.ok.inj (Option.some.inj hout)
    exact absurd h hb
  | breakpoint hrunning h =>
    obtain rfl := Exit.breakpoint.inj (Except.ok.inj (Option.some.inj hout))
    unfold atBreakpoint at h
    simp only [Bool.and_eq_true, List.contains_iff_mem] at h
    exact ⟨rfl, h.2, (Cpu.breakout_takePending m.cpu).trans hrunning, rfl⟩
  | fatal _ _ _ _ => cases hout
  | interpret _ _ _ _ => cases hout
  | fragmentFatal _ _ _ _ _ => cases hout
  | fragment _ _ _ _ _ => cases hout

/-- **Turns that answer with a breakpoint**, likewise. -/
theorem loop_stopped (n : Nat) :
    ∀ (resumeAt : Option UInt64) {m : Machine} {pc : UInt64}, m.cpu.Timed →
      m.cpu.breakout ≠ some (.breakpoint pc) → (loop n resumeAt m).1 = some (.ok (.breakpoint pc)) →
        (loop n resumeAt m).2.Stopped pc := by
  induction n with
  | zero => intro resumeAt m pc _ _ h; cases h
  | succ n ih =>
    intro resumeAt m pc hT hb h
    have hspec := turn_spec m resumeAt
    rcases hturn : m.turn resumeAt with ⟨r, k⟩
    rw [hturn] at hspec
    cases r with
    | some x =>
      rw [loop_of_some hturn] at h ⊢
      exact hspec.stopped hb h
    | none =>
      rw [loop_of_none hturn] at h ⊢
      obtain ⟨c, hchain, hends⟩ := hspec.chain hT
      obtain rfl := hends.eq_of_none
      exact ih none (hchain.timed hT) (breakout_ne_breakpoint hchain hT hb) h

/-- **A run that answers with a breakpoint** stops there. -/
theorem run_stopped (h : m.cpu.Free) {budget pc : UInt64} (hb : m.cpu.breakout ≠ some (.breakpoint pc))
    (hrun : (m.run budget).1 = some (.ok (.breakpoint pc))) : (m.run budget).2.Stopped pc := by
  have h0 : budget ≠ 0 := by
    rintro rfl
    rw [run_zero] at hrun
    cases hrun
  have hcpu := cpu_prepare h0 h.unbounded
  rw [run_eq m h0] at hrun ⊢
  have hstopped := loop_stopped (m.prepare budget).turnsToEnd m.resumeAt (timed_prepare h0 h.timed h.unbounded)
    (by rw [hcpu]; exact hb) hrun
  exact ⟨hstopped.there, hstopped.broken, hstopped.unhalted, hstopped.permitted⟩

end Machine

/-! ## Where a fragment begins -/

/-- An instruction that is answered is retired. -/
theorem Execution.retires_of_ok {e : Execution} {retired : Retired} {cpu : Cpu} (h : e.outcome = (.ok retired, cpu)) :
    e.retires = true := by
  obtain ⟨w, hw⟩ := exists_worked h
  unfold retires
  rw [hw]
  rfl

namespace Fragment

/-- **A fragment that is entered where it begins** executes its first operation, which is retired or stops the
machine. -/
theorem executions_begin {op : FragmentOp} {t : Tandem} (hpc : t.cpu.pc = op.address)
    (hslot : t.cpu.inDelaySlot = op.inDelaySlot) (usesFloat : Bool) (rest : List FragmentOp) (index : Nat) :
    ∃ es, executions usesFloat (op :: rest) t = execution op t.cpu :: es ∧
      ((execution op t.cpu).retires = true ∨
        es = [] ∧ ∃ x, (runEach usesFloat (op :: rest) index t).1 = .error x) := by
  have hstep := opStep usesFloat op rest index t
  generalize executions usesFloat (op :: rest) t = es at hstep ⊢
  generalize runEach usesFloat (op :: rest) index t = out at hstep ⊢
  cases hstep with
  | away haway => exact absurd haway (by simp [hpc, hslot])
  | fatal _ _ _ => exact ⟨[], rfl, .inr ⟨rfl, _, rfl⟩⟩
  | trapped _ _ he _ => exact ⟨[], rfl, .inl (Execution.retires_of_ok he)⟩
  | look _ _ he _ _ => exact ⟨[], rfl, .inl (Execution.retires_of_ok he)⟩
  | next _ _ he _ _ => exact ⟨_, rfl, .inl (Execution.retires_of_ok he)⟩

/-- A fragment that begins in a delay slot executes nothing where there is none. -/
theorem executions_of_slot {op : FragmentOp} {t : Tandem} (hop : op.inDelaySlot = true)
    (hslot : t.cpu.inDelaySlot = false) (usesFloat : Bool) (rest : List FragmentOp) :
    executions usesFloat (op :: rest) t = [] := by
  rw [executions, hop, hslot, if_pos (by simp)]

end Fragment

/-! ## The next run -/

namespace Machine

variable {m : Machine}

/-- The run begins with the instruction that the machine stands at, which is retired or stops the machine. -/
def Passes (m : Machine) (budget : UInt64) : Prop :=
  ∃ e rest, m.executions budget = e :: rest ∧ e.before.pc = m.cpu.pc ∧
    (e.retires = true ∨ rest = [] ∧ ∃ x, (m.run budget).1 = some (.error x))

/-- The run executes nothing, and stops at the breakpoint again. -/
structure Repeats (m : Machine) (budget : UInt64) : Prop where
  /-- It executes nothing. -/
  idle : m.executions budget = []
  /-- It answers with the breakpoint. -/
  answer : (m.run budget).1 = some (.ok (.breakpoint m.cpu.pc))
  /-- It leaves the permission for the next one. -/
  stopped : (m.run budget).2.Stopped m.cpu.pc

/-- The fragment for the place that the machine stands at begins in a delay slot. It has every word from there to the
top of the address space, so that the breakpoint does not keep it from being entered. -/
def Slips (m : Machine) : Prop :=
  ∃ id f op rest, m.cache.entries[m.cpu.pc]? = some (.compiled id) ∧ m.cache.store.get? id = some f ∧
    f.ops = op :: rest ∧ op.inDelaySlot = true ∧ Topped (fun a => ∃ o ∈ f.ops, o.address = a) m.cpu.pc

/-- The machine is at a breakpoint, and neither a halt nor an interrupt keeps it from going on. -/
structure Ready (m : Machine) : Prop where
  /-- Nothing asks the run to end. -/
  unhalted : m.cpu.breakout = none
  /-- There is a breakpoint. -/
  broken : m.cpu.pc ∈ m.breakpoints
  /-- There is no interrupt to take. -/
  calm : m.cpu.updateInterrupts.interruptsPending = false

namespace Ready

theorem takePending_eq (h : m.Ready) : m.cpu.takePending = m.cpu.updateInterrupts := by
  rcases m.cpu.takePending_cases with ⟨-, htake⟩ | ⟨hpending, -⟩
  · exact htake
  · cases h.calm.symm.trans hpending

theorem pc_takeInterrupt (h : m.Ready) : m.takeInterrupt.cpu.pc = m.cpu.pc := by
  show m.cpu.takePending.pc = m.cpu.pc
  rw [h.takePending_eq]
  rfl

/-- **Without a permission**, a turn stops again. -/
theorem turn_none (h : m.Ready) :
    m.turnExecutions none = [] ∧ (m.turn none).1 = some (.ok (.breakpoint m.cpu.pc)) := by
  have hstop : m.takeInterrupt.atBreakpoint none = true := by
    have hbroken : m.cpu.pc ∈ m.takeInterrupt.breakpoints := h.broken
    unfold atBreakpoint
    rw [h.pc_takeInterrupt]
    simpa using hbroken
  obtain ⟨hnone, hturn⟩ := turn_breakpoint h.unhalted hstop
  refine ⟨hnone, ?_⟩
  rw [hturn, h.pc_takeInterrupt]

/-- A machine that was ready is so behind a turn in which only counters counted. -/
theorem drain (h : m.Ready) {k : Machine} {statistics : Statistics}
    (hcpu : k.cpu = { m.cpu.takePending with statistics := statistics })
    (hbreakpoints : k.breakpoints = m.breakpoints) :
    k.drain.Ready ∧ k.drain.cpu.pc = m.cpu.pc := by
  obtain ⟨n, cache, heq, -⟩ := drain_eq (P := fun _ => True) (fun _ _ _ => trivial) (m := k) trivial
  have hlooked : k.drain.cpu = looked { m.cpu.takePending with statistics := statistics } n := by
    rw [heq, ← hcpu]
    rfl
  have hplace : k.drain.cpu.pc = m.cpu.pc := by
    rw [hlooked, ← h.pc_takeInterrupt]
    rfl
  refine ⟨⟨?_, ?_, ?_⟩, hplace⟩
  · rw [hlooked]
    exact (Cpu.breakout_takePending m.cpu).trans h.unhalted
  · rw [hplace, breakpoints_drain, hbreakpoints]
    exact h.broken
  · rw [hlooked]
    show m.cpu.takePending.updateInterrupts.interruptsPending = false
    rw [show m.cpu.takePending.updateInterrupts = m.cpu.takePending from Cpu.settled_takePending m.cpu]
    exact Cpu.interruptsPending_takePending m.cpu

/-- What is found for the breakpoint begins there. If it begins in a delay slot, it slips past the breakpoint. -/
theorem found (h : m.Ready) {limit : Nat} (hconsistent : m.cache.Consistent limit) {past : List Execution}
    (hrecords : m.cache.Records (·.Met past)) {id : FragmentId} (hl : m.takeInterrupt.lookup.1 = some id) {f : Fragment}
    (hf : m.takeInterrupt.lookup.2.cache.store.get? id = some f) :
    ∃ op rest, f.ops = op :: rest ∧ op.address = m.cpu.pc ∧ m.takeInterrupt.cpu.inDelaySlot = false ∧
      (op.inDelaySlot = true → m.Slips) := by
  have hfound := (lookup_fst m.takeInterrupt).symm.trans hl
  obtain ⟨-, -, hslot, hentry, -⟩ := hconsistent.lookup_eq_some_iff.mp hfound
  obtain ⟨-, -, f', hf', henter⟩ := FragmentCache.lookup_some hfound
  obtain rfl := Option.some.inj (hf'.symm.trans hf)
  obtain ⟨g, successors, hg, rfl⟩ := FragmentCache.get?_lookup hf'
  rw [h.pc_takeInterrupt] at hentry
  obtain ⟨g', hg', hformed, -⟩ := hconsistent.compiled _ _ hentry
  obtain rfl := Option.some.inj (hg'.symm.trans hg)
  obtain ⟨op, rest, hops, haddress⟩ := hformed.first
  refine ⟨op, rest, hops, haddress, hslot, ?_⟩
  intro hop
  have hmem : m.cpu.pc ∈ g'.ops.map (·.address) := by
    rw [hops, ← haddress]
    exact List.mem_cons_self
  -- the ranges do not have the breakpoint, so they end at the top
  have hblocked : FragmentCache.blocked m.breakpoints g'.ranges = false := by
    unfold FragmentCache.isEnterable at henter
    simp only [Bool.and_eq_true, Bool.not_eq_true'] at henter
    exact henter.2
  have hcovered : ¬ Covered (addressRuns (g'.ops.map (·.address))) m.cpu.pc := by
    rw [← (hrecords.code id g' hg).ranges_eq]
    exact fun hcovered => not_mem_of_covered hblocked hcovered h.broken
  refine ⟨id, g', op, rest, hentry, hg, hops, hop, ?_⟩
  exact ((covered_or_topped hmem).resolve_left hcovered).mono fun a ha => List.mem_map.mp ha

/-- **With a permission**, a turn executes the instruction at the breakpoint, or it enters a fragment that begins in
a delay slot, and is where it was. -/
theorem turn_some (h : m.Ready) (hT : m.cpu.Timed) {limit : Nat} (hconsistent : m.cache.Consistent limit)
    {past : List Execution} (hrecords : m.cache.Records (·.Met past)) :
    (∃ e rest, m.turnExecutions (some m.cpu.pc) = e :: rest ∧ e.before.pc = m.cpu.pc ∧
        (e.retires = true ∨ rest = [] ∧ ∃ x, (m.turn (some m.cpu.pc)).1 = some (.error x))) ∨
      m.Slips ∧ m.turnExecutions (some m.cpu.pc) = [] ∧
        ∃ k, m.turn (some m.cpu.pc) = (none, k) ∧ k.Ready ∧ k.cpu.pc = m.cpu.pc := by
  have hspec := turn_spec m (some m.cpu.pc)
  generalize m.turnExecutions (some m.cpu.pc) = es at hspec ⊢
  generalize m.turn (some m.cpu.pc) = out at hspec ⊢
  have hplace := h.pc_takeInterrupt
  cases hspec with
  | stop hb => cases h.unhalted.symm.trans hb
  | breakpoint _ hstop =>
    unfold atBreakpoint at hstop
    rw [hplace] at hstop
    simp at hstop
  | fatal _ _ _ he =>
    exact .inl ⟨_, [], rfl, (Cpu.pc_nextExecution _).trans hplace, .inr ⟨rfl, _, rfl⟩⟩
  | interpret _ _ _ he =>
    exact .inl ⟨_, [], rfl, (Cpu.pc_nextExecution _).trans hplace, .inl (Execution.retires_of_ok he)⟩
  | @fragmentFatal _ _ id hl f hf x t he =>
    obtain ⟨op, rest, hops, haddress, hslot, hslips⟩ := h.found hconsistent hrecords hl hf
    cases hop : op.inDelaySlot with
    | true =>
      rw [hops, Fragment.runOps_of_slot (t := entered m.takeInterrupt.tandem) hop hslot] at he
      cases he
    | false =>
      obtain ⟨es, hes, hdone⟩ := Fragment.executions_begin (t := entered m.takeInterrupt.tandem)
        (hplace.trans haddress.symm) (hslot.trans hop.symm) f.usesFloat rest 0
      rw [hops, hes]
      exact .inl ⟨_, es, rfl, hplace, hdone.imp_right fun hend => ⟨hend.1, x, rfl⟩⟩
  | @fragment _ _ id hl f hf exit t he =>
    obtain ⟨op, rest, hops, haddress, hslot, hslips⟩ := h.found hconsistent hrecords hl hf
    cases hop : op.inDelaySlot with
    | true =>
      rw [hops, Fragment.runOps_of_slot (t := entered m.takeInterrupt.tandem) hop hslot] at he
      obtain ⟨-, rfl⟩ := Prod.mk.inj he
      refine .inr ⟨hslips hop, ?_, _, rfl, h.drain rfl rfl⟩
      rw [hops]
      exact Fragment.executions_of_slot (t := entered m.takeInterrupt.tandem) hop hslot _ _
    | false =>
      obtain ⟨es, hes, hdone⟩ := Fragment.executions_begin (t := entered m.takeInterrupt.tandem)
        (hplace.trans haddress.symm) (hslot.trans hop.symm) f.usesFloat rest 0
      rw [runOps_entered hT, hops] at he
      rw [hops, hes]
      refine .inl ⟨_, es, rfl, hplace, hdone.imp_right ?_⟩
      rintro ⟨-, x, hx⟩
      rw [he] at hx
      cases hx

/-- A deadline does not change where the machine stands. -/
theorem prepare (h : m.Ready) (hfree : m.cpu.Free) {budget : UInt64} (h0 : budget ≠ 0) :
    (m.prepare budget).Ready ∧ (m.prepare budget).cpu.pc = m.cpu.pc := by
  have hcpu := cpu_prepare h0 hfree.unbounded
  refine ⟨⟨?_, ?_, ?_⟩, ?_⟩
  · rw [hcpu]
    exact h.unhalted
  · rw [hcpu]
    exact h.broken
  · rw [hcpu]
    exact h.calm
  · rw [hcpu]

/-- A run that answers with the breakpoint leaves the permission. -/
theorem repeats_of_answer (h : m.Ready) (hfree : m.cpu.Free) {budget : UInt64} (hidle : m.executions budget = [])
    (hanswer : (m.run budget).1 = some (.ok (.breakpoint m.cpu.pc))) : m.Repeats budget :=
  ⟨hidle, hanswer, run_stopped hfree (by simp [h.unhalted]) hanswer⟩

/-- **Without a permission**, a run stops again. -/
theorem repeats (h : m.Ready) (hfree : m.cpu.Free) (hresume : m.resumeAt = none) {budget : UInt64} (h0 : budget ≠ 0) :
    m.Repeats budget := by
  obtain ⟨hready, hplace⟩ := h.prepare hfree h0
  obtain ⟨hnone, hanswer⟩ := hready.turn_none
  have hturns := turnsToEnd_prepare h0 hfree.timed hfree.unbounded
  rw [hplace] at hanswer
  rcases hturn : (m.prepare budget).turn none with ⟨r, k⟩
  rw [hturn] at hanswer
  obtain rfl : r = _ := hanswer
  refine h.repeats_of_answer hfree ?_ ?_
  · rw [executions_eq m h0, hturns, hresume, loopExecutions, hnone, hturn]
    rfl
  · rw [run_eq m h0, hturns, hresume, loop_of_some hturn]

/-- **With a permission**, a run passes the breakpoint, unless it enters a fragment that slips. -/
theorem passes (h : m.Ready) (hfree : m.cpu.Free) {limit : Nat} (hconsistent : m.cache.Consistent limit)
    {past : List Execution} (hrecords : m.cache.Records (·.Met past)) (hresume : m.resumeAt = some m.cpu.pc)
    {budget : UInt64} (h0 : budget ≠ 0) : m.Passes budget ∨ m.Slips ∧ m.Repeats budget := by
  obtain ⟨hready, hplace⟩ := h.prepare hfree h0
  have hturns := turnsToEnd_prepare h0 hfree.timed hfree.unbounded
  have hturn := hready.turn_some (timed_prepare h0 hfree.timed hfree.unbounded) hconsistent hrecords
  have hslips : (m.prepare budget).Slips → m.Slips := by
    unfold Slips
    rw [hplace]
    exact id
  rw [hplace] at hturn
  have hexecuted := executions_eq m h0
  have hrun := congrArg Prod.fst (run_eq m h0)
  rw [hturns, hresume, loopExecutions] at hexecuted
  rw [hturns, hresume] at hrun
  rcases hturn with ⟨e, rest, hexecutions, hpc, hdone⟩ | ⟨hslip, hexecutions, k, hgoes, hk, hkpc⟩
  · rw [hexecutions] at hexecuted
    refine .inl ⟨e, _, hexecuted, hpc, hdone.imp_right ?_⟩
    rintro ⟨rfl, x, hx⟩
    rcases hout : (m.prepare budget).turn (some m.cpu.pc) with ⟨r, k⟩
    rw [hout] at hx
    obtain rfl : r = _ := hx
    exact ⟨rfl, x, hrun.trans (by rw [loop_of_some hout])⟩
  · -- nothing was executed, and the permission is gone
    obtain ⟨hnone, hanswer⟩ := hk.turn_none
    rcases hout : k.turn none with ⟨r, k'⟩
    rw [hout, hkpc] at hanswer
    obtain rfl : r = _ := hanswer
    refine .inr ⟨hslips hslip, h.repeats_of_answer hfree ?_ ?_⟩
    · rw [hexecuted, hexecutions, hgoes]
      dsimp only
      rw [loopExecutions, hnone, hout]
      rfl
    · rw [hrun, loop_of_none hgoes, loop_of_some hout]

end Ready

/-! ## Everything before -/

/-- **Every operation** leaves a cache with recorded instructions. -/
theorem records_perform {past : List Execution} (h : m.cache.Records (·.Met past)) (o : Operation) :
    ∃ past', (o.perform m).cache.Records (·.Met past') := by
  have hempty {x : FragmentCache} (hstore : x.store = x.store.clear) (hrecorder : x.recorder = none) :
      x.Records (·.Met past) := by
    refine .of_empty (fun id => ?_) hrecorder
    rw [hstore]
    exact Std.TreeMap.getElem?_emptyc
  cases o with
  | run budget => exact ⟨_, (run_origins h budget).2.1⟩
  | step => exact ⟨past, cache_step (P := (·.Records (·.Met past))) (fun _ entry hx => hx.forget entry) h⟩
  | reset => exact ⟨past, hempty rfl rfl⟩
  | loadProgram physical program =>
    exact ⟨past, FragmentCache.forgetAll_preserves (P := (·.Records (·.Met past)))
      (fun _ entry hx => hx.forget entry) h _⟩
  | invalidateCode address len =>
    exact ⟨past, FragmentCache.forgetAll_preserves (P := (·.Records (·.Met past)))
      (fun _ entry hx => hx.forget entry) h _⟩
  | drain => exact ⟨past, Records.drain h⟩
  | setRecompiler enabled =>
    cases enabled with
    | true => exact ⟨past, h.code, h.trace⟩
    | false => exact ⟨past, hempty rfl rfl⟩
  | clearFragments => exact ⟨past, hempty rfl rfl⟩
  | _ => exact ⟨past, h⟩

theorem records_operate (operations : List Operation) :
    ∀ {m : Machine} {past : List Execution}, m.cache.Records (·.Met past) →
      ∃ past', (m.operate operations).cache.Records (·.Met past') := by
  induction operations with
  | nil => intro m past h; exact ⟨past, h⟩
  | cons o rest ih =>
    intro m past h
    obtain ⟨past', hnext⟩ := records_perform h o
    exact ih hnext

end Machine

/-- **A breakpoint is passed** by the first run behind it that has a budget and is not halted, whatever was done to
the machine before it stopped there, and however the host asks for halts, starts runs without a budget and sets the
interrupt line in between; unless one of the runs in between had a budget and was halted. Then this run executes
nothing and stops at the breakpoint again, and the one behind it may pass. The requests in between change nothing else.
(A reason to stop that the host sets itself is answered as it is; that is no stop at a breakpoint.) -/
theorem breakpoint_passed_unless_halted (config : Configuration) (bus : Bus) (vector : VectorUnit)
    (operations : List Operation) (horderly : ∀ o ∈ operations, o.Orderly) (budget pc : UInt64) :
    let m := (Machine.create config bus vector).operate operations
    let k := (m.run budget).2
    m.cpu.breakout ≠ some (.breakpoint pc) → (m.run budget).1 = some (.ok (.breakpoint pc)) →
      k.cpu.pc = pc ∧ ∀ requests s, Standstill.after? { line := k.cpu.line } requests = some s →
        k.attendAll requests = k.standing s ∧
          (s.permitted = true ↔ ∀ b, .run b ∈ requests → b = 0) ∧
          ∀ next, next ≠ 0 → s.halted = false → (k.standing s).cpu.updateInterrupts.interruptsPending = false →
            ((k.standing s).run next).2.cpu.opsExecuted =
                k.cpu.opsExecuted + retirements ((k.standing s).executions next) ∧
              (s.permitted = true →
                (k.standing s).Passes next ∨ (k.standing s).Slips ∧ (k.standing s).Repeats next) ∧
              (s.permitted = false → (k.standing s).Repeats next) := by
  intro m k hbreak hrun
  have hcreate := Machine.atRest_create config bus vector
  have hfree : m.cpu.Free := Machine.free_operate operations ⟨hcreate.ticking.timed, hcreate.free⟩ horderly
  have hk : k.cpu.Free := Machine.free_run hfree budget
  have hconsistent : k.cache.Consistent (max 1 config.recompiler.maxFragmentOps.toNat) :=
    Machine.consistent_run
      (Machine.consistent_operate operations (FragmentCache.Consistent.create config.recompiler)) budget
  have hempty : (Machine.create config bus vector).cache.Records (·.Met []) :=
    .of_empty (FragmentCache.get?_create config.recompiler) rfl
  obtain ⟨past, hpast⟩ := Machine.records_operate operations hempty
  have hrecords := (Machine.run_origins hpast budget).2.1
  have hstopped : k.Stopped pc := Machine.run_stopped hfree hbreak hrun
  refine ⟨hstopped.there, ?_⟩
  intro requests s hs
  have hstanding : k.attendAll requests = k.standing s := by
    rw [← Machine.attendAll_standing hk requests hs, hstopped.standing_eq]
  refine ⟨hstanding, by simpa using Standstill.permitted_of_after? requests hs, ?_⟩
  intro next h0 hhalted hcalm
  have hfrees : (k.standing s).cpu.Free := Machine.free_of_events hk rfl
  have hready : (k.standing s).Ready := by
    refine ⟨?_, ?_, hcalm⟩
    · show (if s.halted then some Exit.halted else none) = none
      rw [hhalted]
      rfl
    · show k.cpu.pc ∈ k.breakpoints
      rw [hstopped.there]
      exact hstopped.broken
  refine ⟨Machine.opsExecuted_run_of_timed hfrees.timed hfrees.unbounded next, ?_, ?_⟩
  · intro hpermitted
    have hresume : (k.standing s).resumeAt = some (k.standing s).cpu.pc := if_pos hpermitted
    exact hready.passes hfrees (show (k.standing s).cache.Consistent _ from hconsistent) hrecords hresume h0
  · intro hpermitted
    have hresume : (k.standing s).resumeAt = none := if_neg (by simp [hpermitted])
    exact hready.repeats hfrees hresume h0

/-- A machine with a breakpoint at the topmost word, and a fragment for it that was recorded when the word was in a
delay slot. -/
def slipping : Machine :=
  let rom : Device := .memory "rom" 0xFF0 16 ⟨#[0x10, 0, 0, 2, 0, 0, 0, 0, 0x10, 0, 0xFF, 0xFD, 0x24, 0x21, 0, 1]⟩
  (Machine.create
    { general := { startPc := 0xFFFFFFFFFFFFFFF0 }, memory := { ramSize := 0 }, recompiler := { hotThreshold := 0 } }
    (({} : Bus).add rom) {}).operate
    [.changeProcessor fun c => { c with tlb := c.tlb.set 0 (.ofRegisters 0 0xC00000FFFFFFE000 3 3) }, .run 2,
      .changeProcessor fun c => { c with pc := 0xFFFFFFFFFFFFFFF8 }, .step,
      .setBreakpoints [0xFFFFFFFFFFFFFFF4], .run 10, .setBreakpoints [0xFFFFFFFFFFFFFFFC]]

/-- It does not get past the breakpoint, with the permission and without. -/
example :
    let k := (slipping.run 10).2
    breakpoint? (slipping.run 10).1 = some 0xFFFFFFFFFFFFFFFC ∧ k.resumeAt = some 0xFFFFFFFFFFFFFFFC ∧
      breakpoint? (k.run 10).1 = some 0xFFFFFFFFFFFFFFFC ∧ (k.executions 10).length = 0 := by
  decide +kernel

/-- A machine that only interprets, with a breakpoint at its first instruction. -/
def halting : Machine :=
  (Machine.create
    { general := { startPc := 0xFFFFFFFF80000000 }, memory := { ramSize := 16 }, recompiler := { enabled := false } }
    {} {}).operate
    [.loadProgram 0 [0x24210001, 0x24210001], .setBreakpoints [0xFFFFFFFF80000000]]

/-- It goes on, whatever the interrupt line does. -/
theorem breakpoint_passed_unless_halted_halting :
    let k := (halting.run 10).2
    let requests : List Interlude := [.run 0, .setLine true, .run 0]
    Standstill.after? { line := k.cpu.line } requests = some { line := true } ∧
      k.attendAll requests = k.standing { line := true } ∧ (k.standing { line := true }).Passes 2 := by
  intro k requests
  have hs : Standstill.after? { line := k.cpu.line } requests = some { line := true } := by decide +kernel
  obtain ⟨-, hall⟩ := breakpoint_passed_unless_halted
    { general := { startPc := 0xFFFFFFFF80000000 }, memory := { ramSize := 16 }, recompiler := { enabled := false } }
    {} {} [.loadProgram 0 [0x24210001, 0x24210001], .setBreakpoints [0xFFFFFFFF80000000]]
    (by simp [Operation.Orderly]) 10 0xFFFFFFFF80000000 (by decide +kernel) (by decide +kernel)
  obtain ⟨hstanding, -, hnext⟩ := hall requests _ hs
  obtain ⟨-, hpasses, -⟩ := hnext 2 (by decide) rfl (by decide +kernel)
  refine ⟨hs, hstanding, (hpasses rfl).resolve_right ?_⟩
  -- there are no fragments
  rintro ⟨⟨id, f, op, rest, hentry, -⟩, -⟩
  have hnone : (k.standing { line := true }).cache.entries[(k.standing { line := true }).cpu.pc]? = none := by
    decide +kernel
  cases hnone.symm.trans hentry

/-- **A halted run takes the permission.** Behind it nothing was executed, and nothing keeps the machine from going on.
But the next run stops at the breakpoint again. -/
theorem permission_lost :
    let k := (halting.run 10).2
    let halted := k.attendAll [.requestHalt, .run 10]
    (halting.run 10).1 = some (.ok (.breakpoint 0xFFFFFFFF80000000)) ∧
      (k.requestHalt.run 10).1 = some (.ok .halted) ∧
      halted.cpu.pc = 0xFFFFFFFF80000000 ∧ halted.cpu.breakout = none ∧
      halted.cpu.updateInterrupts.interruptsPending = false ∧
      (halted.run 2).1 = some (.ok (.breakpoint 0xFFFFFFFF80000000)) ∧ ¬ halted.Passes 2 := by
  intro k halted
  refine ⟨by decide +kernel, by decide +kernel, by decide +kernel, by decide +kernel, by decide +kernel,
    by decide +kernel, ?_⟩
  have hidle : halted.executions 2 = [] := List.eq_nil_of_length_eq_zero (by decide +kernel)
  rintro ⟨e, rest, heq, -⟩
  cases hidle.symm.trans heq

end Vr4300
