import Vr4300.Proofs.Equivalence
import Vr4300.Proofs.Progress

/-!
# `Proofs.Recorded` — every operation of a fragment was an instruction once

A fragment is made of instructions that were interpreted before, at the same addresses and with the same
words, wherever they lie and whatever has become of the code since. `FragmentCache.Records` says so for a
property of recorded instructions, and the property is that the instruction was met in the past
(`RecordedOp.Met`). The past only grows, so nothing that is met is ever lost, and no operation of the cache
invents an instruction.

So each instruction that calls of the host execute has an `Origin`: it is interpreted, or it is an operation
of a fragment all of whose operations were met before.

## Contents

* `Execution.Fetched`, `RecordedOp.Met`, `met_of_nextExecution`;
* `Fragment.MadeOf`, `FragmentCache.Records`, with one lemma for each operation of the cache;
* `Origin`, `Machine.Turn.origins`;
* `loop_origins`, `run_origins`, `serve_records`: along turns, a run and calls.
-/

namespace Vr4300

/-! ## What was met -/

/-- The word was fetched: a fetch found it at the address, and left the processor as it was when it executed it. -/
def Execution.Fetched (e : Execution) : Prop := ∃ c : Cpu, c.pc = e.before.pc ∧ c.fetch c.pc = (.ok e.word, e.before)

/-- The instruction was executed before, when it was fetched from its address. -/
def RecordedOp.Met (op : RecordedOp) (past : List Execution) : Prop :=
  ∃ e ∈ past, e.before.pc = op.address ∧ e.word = op.word ∧ e.Fetched

theorem RecordedOp.Met.mono {op : RecordedOp} {past longer : List Execution} (h : op.Met past)
    (hs : past ⊆ longer) : op.Met longer := by
  obtain ⟨e, he, hop⟩ := h
  exact ⟨e, hs he, hop⟩

namespace Cpu

theorem pc_nextExecution (c : Cpu) : c.nextExecution.before.pc = c.pc := by
  rw [nextExecution_before, pc_fetch]

/-- **The instruction at `pc`** is fetched, or a fetch raises an exception in its place. -/
theorem fetched_nextExecution (c : Cpu) :
    c.nextExecution.Fetched ∨
      c.nextExecution.word = 0 ∧ ∃ t, c.fetch c.pc = (.error t, c.nextExecution.before) ∧
        c.nextExecution.planned = .error (.trap t) := by
  have hpc := c.pc_nextExecution
  unfold nextExecution at hpc ⊢
  rcases hf : c.fetch c.pc with ⟨r, b⟩
  rw [hf] at hpc
  cases r with
  | ok word => exact .inl ⟨c, hpc.symm, hf⟩
  | error t => exact .inr ⟨rfl, t, rfl, rfl⟩

end Cpu

/-- What is recorded of an instruction was met. -/
theorem met_of_nextExecution {c cpu : Cpu} {retired : Retired} (he : c.nextExecution.outcome = (.ok retired, cpu))
    (ht : retired.trapped = false) (past : List Execution) :
    RecordedOp.Met ⟨retired.address, retired.word, retired.inDelaySlot⟩ (past ++ [c.nextExecution]) := by
  have hretired := Execution.retired_eq he
  refine ⟨c.nextExecution, by simp, by rw [hretired], by rw [hretired], ?_⟩
  refine c.fetched_nextExecution.resolve_right ?_
  -- an instruction that could not be fetched raised an exception
  rintro ⟨-, t, -, hplanned⟩
  unfold Execution.outcome at he
  rw [hplanned] at he
  obtain rfl := Except.ok.inj (Prod.mk.inj he).1
  cases ht

/-! ## What a cache records -/

/-- The fragment is made of instructions with a property, and its ranges are those of its operations. -/
structure Fragment.MadeOf (f : Fragment) (p : RecordedOp → Prop) : Prop where
  /-- Its operations have it. -/
  ops : ∀ op ∈ f.ops, p op.toRecordedOp
  /-- Its ranges are those of its operations. -/
  ranges_eq : f.ranges = addressRuns (f.ops.map (·.address))

theorem Fragment.MadeOf.mono {f : Fragment} {p q : RecordedOp → Prop} (h : f.MadeOf p)
    (hpq : ∀ op, p op → q op) : f.MadeOf q :=
  ⟨fun op hop => hpq _ (h.ops op hop), h.ranges_eq⟩

theorem madeOf_compile {r : Recorder} {p : RecordedOp → Prop} (h : ∀ op ∈ r.reversed, p op) :
    (Fragment.compile r.entry r.reversed.reverse).MadeOf p := by
  constructor
  · intro op hop
    obtain ⟨recorded, hmem, rfl⟩ := List.mem_map.mp hop
    exact h recorded (List.mem_reverse.mp hmem)
  · show addressRuns (r.reversed.reverse.map (·.address)) = addressRuns (List.map _ (List.map _ _))
    rw [List.map_map]
    rfl

namespace FragmentCache

/-- **The cache records instructions with a property**, and nothing else. -/
structure Records (x : FragmentCache) (p : RecordedOp → Prop) : Prop where
  /-- The fragments are made of them. -/
  code : ∀ id f, x.store.get? id = some f → f.MadeOf p
  /-- The trace in progress is. -/
  trace : ∀ r, x.recorder = some r → ∀ op ∈ r.reversed, p op

namespace Records

variable {x : FragmentCache} {p q : RecordedOp → Prop}

theorem mono (h : x.Records p) (hpq : ∀ op, p op → q op) : x.Records q :=
  ⟨fun id f hf => (h.code id f hf).mono hpq, fun r hr op hop => hpq op (h.trace r hr op hop)⟩

/-- A cache that has nothing records nothing. -/
theorem of_empty (hstore : ∀ id, x.store.get? id = none) (hrecorder : x.recorder = none) : x.Records p := by
  constructor
  · intro id f hf
    cases (hstore id).symm.trans hf
  · intro r hr
    cases hrecorder.symm.trans hr

/-- Fragments may be counted and linked. -/
theorem modify (h : x.Records p) (id : FragmentId) (change : Fragment → Fragment)
    (hchange : ∀ f, ∃ successors runs, change f = { f with successors := successors, runs := runs })
    (last : Option (FragmentId × Nat)) :
    ({ x with
        store := ⟨x.store.fragments.modify id change, x.store.fresh⟩
        lastExit := last } : FragmentCache).Records p := by
  constructor
  · intro i g hg
    obtain ⟨f, successors, runs, hf, rfl⟩ := get?_modify_links hchange hg
    exact ⟨(h.code i f hf).ops, (h.code i f hf).ranges_eq⟩
  · exact h.trace

theorem lookup (h : x.Records p) (c : Cpu) (breakpoints : List UInt64) :
    (x.lookup c breakpoints).2.Records p := by
  constructor
  · intro id g hg
    obtain ⟨f, successors, hf, rfl⟩ := get?_lookup hg
    exact ⟨(h.code id f hf).ops, (h.code id f hf).ranges_eq⟩
  · intro r hr
    rw [(x.recorder_lookup c breakpoints).1] at hr
    exact h.trace r hr

theorem forget (h : x.Records p) (entry : UInt64) : (x.forget entry).Records p := by
  constructor
  · intro id f hf
    exact h.code id f (get?_forget hf)
  · intro r hr
    exact h.trace r (recorder_forget hr)

/-- **A landing** may start a recording, which is empty. -/
theorem countHit (h : x.Records p) (pc : UInt64) : (x.countHit pc).Records p := by
  unfold FragmentCache.countHit
  split
  · exact h
  dsimp only
  split
  · exact ⟨h.code, h.trace⟩
  refine ⟨h.code, ?_⟩
  intro r hr op hop
  obtain rfl := Option.some.inj hr
  cases hop

theorem left (h : x.Records p) (id : FragmentId) (exit : FragmentExit) (t : Tandem) :
    (x.left id exit t).Records p := by
  have hcount := h.modify id (fun f => { f with runs := f.runs + 1 }) (fun f => ⟨f.successors, f.runs + 1, rfl⟩)
    (some (id, exit.index))
  unfold FragmentCache.left
  dsimp only
  split
  · exact hcount
  · exact hcount.countHit t.cpu.pc

/-- **The end of a recording**: the trace becomes a fragment. -/
theorem close (h : x.Records p) {r : Recorder} (hr : ∀ op ∈ r.reversed, p op) : (x.close r).2.Records p := by
  unfold FragmentCache.close
  dsimp only
  split
  · exact ⟨h.code, fun _ hr => by cases hr⟩
  split
  · exact ⟨h.code, fun _ hr => by cases hr⟩
  refine ⟨?_, fun _ hr => by cases hr⟩
  intro id f hf
  rcases get?_add hf with ⟨-, rfl⟩ | ⟨-, hf⟩
  · exact madeOf_compile hr
  · exact h.code id f hf

/-- **Looking at an instruction** records that one, unless it raised an exception. -/
theorem observe (h : x.Records p) (c : Cpu) {retired : Retired}
    (hop : retired.trapped = false → p ⟨retired.address, retired.word, retired.inDelaySlot⟩) :
    (x.observe c retired).2.Records p := by
  unfold FragmentCache.observe
  split
  · exact h
  cases hrecorder : x.recorder with
  | none =>
    dsimp only
    split
    · exact h.countHit c.pc
    · exact h
  | some r =>
    dsimp only
    have hr := h.trace r hrecorder
    split
    · exact h.close hr
    rename_i hends
    have htrapped : retired.trapped = false := by
      unfold endsBefore at hends
      simp only [Bool.or_eq_true, not_or, Bool.not_eq_true] at hends
      exact hends.2
    have hlonger : ∀ op ∈ (⟨retired.address, retired.word, retired.inDelaySlot⟩ :: r.reversed : List RecordedOp),
        p op := by
      intro op hmem
      rcases List.mem_cons.mp hmem with rfl | hmem
      · exact hop htrapped
      · exact hr op hmem
    split
    · exact h.close hlonger
    refine ⟨h.code, ?_⟩
    intro r' hr'
    obtain rfl := Option.some.inj hr'
    exact hlonger

end Records

end FragmentCache

/-! ## Origins -/

/-- **Where an executed instruction comes from**, in a turn with a breakpoint to pass and behind a past. -/
inductive Origin (breakpoints : List UInt64) (resumeAt : Option UInt64) (past : List Execution) :
    Execution → Prop where
  /-- It is interpreted, and at no breakpoint but the one to pass. -/
  | interpreted (c : Cpu) (hb : c.pc ∈ breakpoints → resumeAt = some c.pc) :
      Origin breakpoints resumeAt past c.nextExecution
  /-- It is an operation of a fragment, in which no breakpoint lies as far as its ranges tell. -/
  | fragment (f : Fragment) (op : FragmentOp) (c : Cpu) (hop : op ∈ f.ops) (hpc : c.pc = op.address)
      (hmade : f.MadeOf (·.Met past)) (hblocked : FragmentCache.blocked breakpoints f.ranges = false) :
      Origin breakpoints resumeAt past (Fragment.execution op c)

/-- What may be executed without a breakpoint to pass may be executed with one. -/
theorem Origin.passing {breakpoints : List UInt64} {past : List Execution} {e : Execution}
    (h : Origin breakpoints none past e) (resumeAt : Option UInt64) : Origin breakpoints resumeAt past e := by
  cases h with
  | interpreted c hb => exact .interpreted c fun hmem => by cases hb hmem
  | fragment f op c hop hpc hmade hblocked => exact .fragment f op c hop hpc hmade hblocked

/-- The instructions that a fragment executes are its operations, each at its address. -/
theorem Fragment.mem_executions {usesFloat : Bool} {e : Execution} :
    ∀ {ops : List FragmentOp} {t : Tandem}, e ∈ executions usesFloat ops t →
      ∃ op ∈ ops, ∃ c : Cpu, c.pc = op.address ∧ e = execution op c := by
  intro ops
  induction ops with
  | nil => intro t h; cases h
  | cons op rest ih =>
    intro t h
    have hstep := opStep usesFloat op rest 0 t
    generalize executions usesFloat (op :: rest) t = es at hstep h
    generalize runEach usesFloat (op :: rest) 0 t = out at hstep
    have hhere (hpc : t.cpu.pc = op.address) (he : e = execution op t.cpu) :
        ∃ o ∈ op :: rest, ∃ c : Cpu, c.pc = o.address ∧ e = execution o c :=
      ⟨op, List.mem_cons_self, t.cpu, hpc, he⟩
    cases hstep with
    | away _ => cases h
    | fatal hpc _ _ => exact hhere hpc (List.mem_singleton.mp h)
    | trapped hpc _ _ _ => exact hhere hpc (List.mem_singleton.mp h)
    | look hpc _ _ _ _ => exact hhere hpc (List.mem_singleton.mp h)
    | next hpc _ _ _ _ =>
      rcases List.mem_cons.mp h with he | h
      · exact hhere hpc he
      · obtain ⟨o, ho, rest⟩ := ih h
        exact ⟨o, List.mem_cons_of_mem _ ho, rest⟩

namespace Machine

variable {m : Machine} {past : List Execution}

/-- What the instructions of a turn, a run or calls are to satisfy, each behind those before it. -/
def AllOrigins (breakpoints : List UInt64) (resumeAt : Option UInt64) (past es : List Execution) : Prop :=
  ∀ earlier e later, es = earlier ++ e :: later →
    Origin breakpoints (if earlier = [] then resumeAt else none) (past ++ earlier) e

theorem allOrigins_nil {breakpoints : List UInt64} {resumeAt : Option UInt64} :
    AllOrigins breakpoints resumeAt past [] :=
  fun _ _ _ heq => by cases List.append_eq_nil_iff.mp heq.symm |>.2

theorem Records.drain {p : RecordedOp → Prop} (h : m.cache.Records p) : m.drain.cache.Records p := by
  obtain ⟨n, cache, heq, hcache⟩ :=
    drain_eq (P := (·.Records p)) (fun _ entry hx => hx.forget entry) (m := m) h
  rw [heq]
  exact hcache

/-- A single instruction that is interpreted. -/
theorem allOrigins_interpreted {resumeAt : Option UInt64} (hstay : m.atBreakpoint resumeAt = false) :
    AllOrigins m.breakpoints resumeAt past [m.cpu.nextExecution] := by
  intro earlier e later heq
  obtain ⟨rfl, heq⟩ : earlier = [] ∧ [m.cpu.nextExecution] = e :: later := by
    cases earlier with
    | nil => exact ⟨rfl, heq⟩
    | cons _ _ => cases List.append_eq_nil_iff.mp (List.cons.inj heq).2.symm |>.2
  obtain rfl := (List.cons.inj heq).1
  rw [if_pos rfl]
  refine .interpreted m.cpu fun hmem => ?_
  unfold atBreakpoint at hstay
  simpa [hmem] using hstay

/-- The instructions of a fragment that may be entered. -/
theorem allOrigins_fragment (h : m.cache.Records (·.Met past)) {id : FragmentId} (hl : m.lookup.1 = some id)
    {f : Fragment} (hf : m.lookup.2.cache.store.get? id = some f) (resumeAt : Option UInt64) (t : Tandem) :
    AllOrigins m.breakpoints resumeAt past (Fragment.executions f.usesFloat f.ops t) := by
  intro earlier e later heq
  obtain ⟨op, hop, c, hpc, rfl⟩ : ∃ op ∈ f.ops, ∃ c : Cpu, c.pc = op.address ∧ e = Fragment.execution op c :=
    Fragment.mem_executions (by rw [heq]; simp)
  obtain ⟨-, -, g, hg, henter⟩ := FragmentCache.lookup_some ((lookup_fst _).symm.trans hl)
  obtain rfl := Option.some.inj (hg.symm.trans hf)
  have hmade := ((h.lookup m.cpu m.breakpoints).code id g hf).mono fun op (hop : op.Met past) =>
    hop.mono (List.subset_append_left past earlier)
  refine .fragment g op c hop hpc hmade ?_
  unfold FragmentCache.isEnterable at henter
  simp only [Bool.and_eq_true, Bool.not_eq_true'] at henter
  exact henter.2

/-- **A turn** executes instructions that have an origin, and records what it met. -/
theorem Turn.origins {resumeAt : Option UInt64} {es : List Execution}
    {out : Option (Except FatalError Exit) × Machine} (ht : Turn m resumeAt es out)
    (h : m.cache.Records (·.Met past)) :
    AllOrigins m.breakpoints resumeAt past es ∧ out.2.cache.Records (·.Met (past ++ es)) := by
  have hlonger : m.cache.Records (·.Met (past ++ es)) :=
    h.mono fun _ hop => hop.mono (List.subset_append_left _ _)
  have hlookup := FragmentCache.Records.lookup hlonger m.takeInterrupt.cpu m.takeInterrupt.breakpoints
  cases ht with
  | stop _ => exact ⟨allOrigins_nil, hlonger⟩
  | breakpoint _ _ => exact ⟨allOrigins_nil, hlonger⟩
  | fatal _ hstay _ _ => exact ⟨allOrigins_interpreted (m := m.takeInterrupt) hstay, hlookup⟩
  | @interpret _ hstay _ retired cpu he =>
    let k := m.takeInterrupt.lookup.2.withTandem (interpreted cpu m.tandem.vector)
    exact ⟨allOrigins_interpreted (m := m.takeInterrupt) hstay,
      Records.drain (m := k.observe retired) (hlookup.observe k.cpu (met_of_nextExecution he · past))⟩
  | @fragmentFatal _ _ id hl f hf x t _ =>
    refine ⟨allOrigins_fragment (m := m.takeInterrupt) h hl hf resumeAt _, ?_⟩
    exact hlookup.modify id (fun f => { f with runs := f.runs + 1 }) (fun f => ⟨f.successors, f.runs + 1, rfl⟩)
      m.takeInterrupt.lookup.2.cache.lastExit
  | @fragment _ _ id hl f hf exit t _ =>
    refine ⟨allOrigins_fragment (m := m.takeInterrupt) h hl hf resumeAt _, ?_⟩
    exact Records.drain (m := { m.takeInterrupt.lookup.2.withTandem t with
      cache := m.takeInterrupt.lookup.2.cache.left id exit t }) (hlookup.left id exit t)

/-- Instructions behind others. -/
theorem AllOrigins.append {breakpoints : List UInt64} {resumeAt : Option UInt64} {es fs : List Execution}
    (h : AllOrigins breakpoints resumeAt past es) (h' : AllOrigins breakpoints none (past ++ es) fs) :
    AllOrigins breakpoints resumeAt past (es ++ fs) := by
  intro earlier e later heq
  rcases split_append_cons heq with ⟨between, hes⟩ | ⟨between, rfl, hfs⟩
  · exact h earlier e between hes
  · have horigin := h' between e later hfs
    rw [ite_self, List.append_assoc] at horigin
    exact horigin.passing _

/-- **Turns**, likewise. -/
theorem loop_origins (n : Nat) :
    ∀ (resumeAt : Option UInt64) {m : Machine} {past : List Execution}, m.cache.Records (·.Met past) →
      AllOrigins m.breakpoints resumeAt past (m.loopExecutions n resumeAt) ∧
        (loop n resumeAt m).2.cache.Records (·.Met (past ++ m.loopExecutions n resumeAt)) ∧
        (loop n resumeAt m).2.breakpoints = m.breakpoints := by
  induction n with
  | zero =>
    intro resumeAt m past h
    exact ⟨allOrigins_nil, by simpa [loopExecutions, loop] using h, rfl⟩
  | succ n ih =>
    intro resumeAt m past h
    obtain ⟨horigins, hrecords⟩ := (turn_spec m resumeAt).origins h
    have hbreakpoints := (turn_spec m resumeAt).breakpoints
    unfold loopExecutions loop
    rcases hturn : m.turn resumeAt with ⟨r, k⟩
    rw [hturn] at hrecords hbreakpoints
    cases r with
    | some x =>
      dsimp only
      rw [List.append_nil]
      exact ⟨horigins, hrecords, hbreakpoints⟩
    | none =>
      obtain ⟨hrest, hrecords', hbreakpoints'⟩ := ih none hrecords
      rw [hbreakpoints] at hrest
      refine ⟨horigins.append hrest, ?_, hbreakpoints'.trans hbreakpoints⟩
      rw [← List.append_assoc]
      exact hrecords'

/-- **A run** executes instructions that have an origin, and records what it met. -/
theorem run_origins (h : m.cache.Records (·.Met past)) (budget : UInt64) :
    AllOrigins m.breakpoints m.resumeAt past (m.executions budget) ∧
      (m.run budget).2.cache.Records (·.Met (past ++ m.executions budget)) ∧
      (m.run budget).2.breakpoints = m.breakpoints := by
  rcases eq_or_ne budget 0 with rfl | h0
  · rw [run_zero, executions_zero, List.append_nil]
    exact ⟨allOrigins_nil, h, rfl⟩
  · rw [run_eq m h0, executions_eq m h0]
    exact loop_origins (m := m.prepare budget) (m.prepare budget).turnsToEnd m.resumeAt h

/-- **Calls**, likewise. -/
theorem serve_records (calls : List Call) :
    ∀ {m : Machine} {past : List Execution}, m.cache.Records (·.Met past) →
      (m.serve calls).2.cache.Records (·.Met (past ++ m.served calls)) ∧
        (m.serve calls).2.breakpoints = m.breakpoints := by
  induction calls with
  | nil => intro m past h; exact ⟨by simpa [serve, served] using h, rfl⟩
  | cons call rest ih =>
    intro m past h
    cases call with
    | run budget =>
      obtain ⟨-, hrecords, hbreakpoints⟩ := run_origins h budget
      obtain ⟨hrest, hbreakpoints'⟩ := ih hrecords
      rw [List.append_assoc] at hrest
      exact ⟨hrest, hbreakpoints'.trans hbreakpoints⟩
    | requestHalt => exact ih (m := m.requestHalt) h

end Machine

end Vr4300
