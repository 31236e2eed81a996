import Vr4300.Proofs.FragmentChain

/-!
# `Proofs.History` — the instructions of a run

A run takes turns, and a turn executes one instruction or a fragment. `Machine.executions` lists what a
run executes, in order; it is a chain (`loop_chain`), whatever the fragment cache does.

`Machine.Turn` lists all that a turn can do, and the other proofs about runs go by its cases.

## Contents

* `drain_eq`: what looking at invalidations changes;
* `Machine.Turn`, `turn_spec`;
* `Machine.Ends`, `Turn.chain`, `loop_chain`;
* `Machine.executions`, `run_eq`.
-/

namespace Vr4300

/-! ## Dropping fragments -/

namespace FragmentCache

theorem get?_drop {s : FragmentStore} {id i : FragmentId} {f : Fragment} (h : (s.drop id).get? i = some f) :
    s.get? i = some f := by
  unfold FragmentStore.get? FragmentStore.drop at *
  rw [Std.TreeMap.getElem?_erase] at h
  split at h
  · cases h
  · exact h

/-- The fragments of a store, however often they were run and wherever they are linked to. -/
theorem get?_modify {s : FragmentStore} {id i : FragmentId} {change : Fragment → Fragment} {g : Fragment}
    (h : (⟨s.fragments.modify id change, s.fresh⟩ : FragmentStore).get? i = some g) :
    ∃ f, s.get? i = some f ∧ (g = f ∨ g = change f) := by
  unfold FragmentStore.get? at *
  rw [Std.TreeMap.getElem?_modify] at h
  split at h
  · rename_i hi
    obtain rfl : id = i := by simpa using hi
    obtain ⟨f, hf, rfl⟩ := Option.map_eq_some_iff.mp h
    exact ⟨f, hf, .inr rfl⟩
  · exact ⟨g, h, .inl rfl⟩

/-- A change that counts and links a fragment leaves the rest of it as it was. -/
theorem get?_modify_links {s : FragmentStore} {id i : FragmentId} {change : Fragment → Fragment}
    {g : Fragment}
    (hchange : ∀ f, ∃ successors runs, change f = { f with successors := successors, runs := runs })
    (h : (⟨s.fragments.modify id change, s.fresh⟩ : FragmentStore).get? i = some g) :
    ∃ f successors runs, s.get? i = some f ∧ g = { f with successors := successors, runs := runs } := by
  obtain ⟨f, hf, rfl | rfl⟩ := get?_modify h
  · exact ⟨g, g.successors, g.runs, hf, rfl⟩
  · obtain ⟨successors, runs, heq⟩ := hchange f
    exact ⟨f, successors, runs, hf, heq⟩

theorem get?_forget {x : FragmentCache} {entry : UInt64} {id : FragmentId} {f : Fragment}
    (h : (x.forget entry).store.get? id = some f) : x.store.get? id = some f := by
  unfold forget at h
  dsimp only at h
  cases hc : x.compiled? entry with
  | none => rw [hc] at h; exact h
  | some i =>
    rw [hc] at h
    dsimp only at h
    unfold dropCompiled at h
    cases hg : x.store.get? i with
    | none => rw [hg] at h; exact h
    | some g => rw [hg] at h; exact get?_drop h

/-- Finding a fragment may link the last one to it. -/
theorem store_find (x : FragmentCache) (last : Option (FragmentId × Nat)) (pc : UInt64) :
    (x.find last pc).2.store = x.store ∨
      ∃ previous exit id, (x.find last pc).2.store = x.store.link previous exit id := by
  unfold find
  cases x.linked? last pc with
  | some id => exact .inl rfl
  | none =>
    cases x.compiled? pc with
    | none => exact .inl rfl
    | some id =>
      cases last with
      | none => exact .inl rfl
      | some p => exact .inr ⟨p.1, p.2, id, rfl⟩

theorem store_lookup (x : FragmentCache) (c : Cpu) (breakpoints : List UInt64) :
    (x.lookup c breakpoints).2.store = x.store ∨
      ∃ previous exit id, (x.lookup c breakpoints).2.store = x.store.link previous exit id := by
  by_cases h : (!x.enabled || ({ x with lastExit := none } : FragmentCache).isRecording ||
      c.inDelaySlot) = true
  · refine .inl ?_
    unfold lookup
    dsimp only
    rw [if_pos h]
  · unfold lookup
    dsimp only
    rw [if_neg h]
    exact store_find { x with lastExit := none } x.lastExit c.pc

/-- Finding a fragment changes no code. -/
theorem get?_lookup {x : FragmentCache} {c : Cpu} {breakpoints : List UInt64} {id : FragmentId}
    {g : Fragment} (h : (x.lookup c breakpoints).2.store.get? id = some g) :
    ∃ f successors, x.store.get? id = some f ∧ g = { f with successors := successors } := by
  rcases x.store_lookup c breakpoints with hs | ⟨previous, exit, next, hs⟩
  · rw [hs] at h
    exact ⟨g, g.successors, h, rfl⟩
  · rw [hs] at h
    obtain ⟨f, hf, rfl | rfl⟩ := get?_modify (s := x.store) h
    · exact ⟨g, g.successors, hf, rfl⟩
    · exact ⟨f, _, hf, rfl⟩

/-- What forgetting an address preserves, forgetting addresses preserves. -/
theorem forgetAll_preserves {P : FragmentCache → Prop} (hforget : ∀ x entry, P x → P (x.forget entry))
    {x : FragmentCache} (hx : P x) (entries : List UInt64) : P (x.forgetAll entries).2 := by
  show P (entries.foldl forget x)
  induction entries generalizing x with
  | nil => exact hx
  | cons entry rest ih => exact ih (hforget x entry hx)

end FragmentCache

namespace Machine

/-- The processor with the invalidations looked at. -/
def looked (c : Cpu) (n : Nat) : Cpu :=
  { c with
    codeInvalidations := []
    tlbDirty := false
    statistics := { c.statistics with invalidatedFragments := n } }

/-- Another processor in the machine. -/
def withTandem (m : Machine) (t : Tandem) : Machine := { m with tandem := t }

/-- Dropping the fragments of some ranges counts them and forgets addresses. -/
theorem foldl_invalidateCode_eq {P : FragmentCache → Prop}
    (hforget : ∀ x entry, P x → P (x.forget entry)) (ranges : List (UInt64 × UInt64)) :
    ∀ {k : Machine}, P k.cache →
      ∃ n cache, ranges.foldl (fun m range => m.invalidateCode range.1 range.2) k =
          { k.withTandem ⟨{ k.cpu with
                statistics := { k.cpu.statistics with invalidatedFragments := n } }, k.tandem.vector⟩ with
            cache := cache } ∧ P cache := by
  induction ranges with
  | nil => intro k hk; exact ⟨_, _, rfl, hk⟩
  | cons range rest ih =>
    intro k hk
    have hcache : P (k.invalidateCode range.1 range.2).cache :=
      FragmentCache.forgetAll_preserves hforget hk _
    obtain ⟨n, cache, heq, hP⟩ := ih hcache
    refine ⟨n, cache, ?_, hP⟩
    rw [List.foldl_cons, heq]
    rfl

/-- **Looking at invalidations** resets what waits, counts dropped fragments and forgets addresses. -/
theorem drain_eq {P : FragmentCache → Prop} (hforget : ∀ x entry, P x → P (x.forget entry)) {m : Machine}
    (hm : P m.cache) :
    ∃ n cache, m.drain = { m.withTandem ⟨looked m.cpu n, m.tandem.vector⟩ with cache := cache } ∧
      P cache := by
  unfold drain
  dsimp only
  by_cases hclean : (m.cpu.codeInvalidations.isEmpty && !m.cpu.tlbDirty) = true
  -- nothing waits, and the counter stays
  · rw [if_pos hclean]
    simp only [Bool.and_eq_true, List.isEmpty_iff, Bool.not_eq_true'] at hclean
    refine ⟨m.cpu.statistics.invalidatedFragments, m.cache, ?_, hm⟩
    unfold looked
    rw [← hclean.1, ← hclean.2]
    rfl
  · rw [if_neg hclean]
    let reset := m.onCpu fun c => { c with codeInvalidations := [], tlbDirty := false }
    obtain ⟨n, cache, heq, hcache⟩ :=
      foldl_invalidateCode_eq (k := reset) hforget m.cpu.codeInvalidations hm
    rw [heq]
    split
    · exact ⟨_, _, rfl, FragmentCache.forgetAll_preserves hforget hcache _⟩
    · exact ⟨_, _, rfl, hcache⟩

end Machine

/-! ## Interrupts between turns -/

namespace Cpu

/-- The line sampled and an interrupt that is pending delivered. -/
def takePending (c : Cpu) : Cpu :=
  let c := c.updateInterrupts
  if c.interruptsPending then c.deliverInterrupt else c

theorem takePending_cases (c : Cpu) :
    (c.updateInterrupts.interruptsPending = false ∧ c.takePending = c.updateInterrupts) ∨
      c.updateInterrupts.interruptsPending = true ∧
        c.takePending = c.updateInterrupts.takeException .interrupt c.inDelaySlot := by
  unfold takePending
  dsimp only
  cases h : c.updateInterrupts.interruptsPending with
  | false => exact .inl ⟨rfl, if_neg (by simp)⟩
  | true => exact .inr ⟨rfl, if_pos rfl⟩

theorem interruptsPending_takePending (c : Cpu) : c.takePending.interruptsPending = false := by
  rcases c.takePending_cases with ⟨hp, h⟩ | ⟨-, h⟩ <;> rw [h]
  · exact hp
  · exact interruptsPending_takeException _ _ _

/-- An interrupt is taken once. -/
theorem takePending_of_settled {c : Cpu} (hs : c.Settled) (hp : c.interruptsPending = false) :
    c.takePending = c := by
  unfold takePending
  rw [hs]
  dsimp only
  rw [hp]
  rfl

/-- What is taken has been sampled. -/
theorem settled_takePending (c : Cpu) : c.takePending.Settled := by
  rcases c.takePending_cases with ⟨-, h⟩ | ⟨-, h⟩ <;> rw [h]
  · exact settled_updateInterrupts c
  · obtain ⟨vector, statistics, heq⟩ := takeException_eq c.updateInterrupts .interrupt c.inDelaySlot
    rw [heq]
    exact settled_updateInterrupts _

theorem chain_takePending (c : Cpu) : Chain c [] c.takePending := by
  rcases c.takePending_cases with ⟨-, h⟩ | ⟨-, h⟩ <;> rw [h]
  · exact .single (.sample c)
  · exact .quiet (.sample c) (.single (.interrupt _))

theorem breakout_takePending (c : Cpu) : c.takePending.breakout = c.breakout := by
  rcases c.takePending_cases with ⟨-, h⟩ | ⟨-, h⟩ <;> rw [h]
  · rfl
  · exact (Quiet.interrupt c.updateInterrupts).breakout

end Cpu

/-! ## Turns -/

namespace FragmentCache

/-- The cache behind a run of a fragment. -/
def left (x : FragmentCache) (id : FragmentId) (exit : FragmentExit) (t : Tandem) : FragmentCache :=
  let x := { x with store := x.store.countRun id }
  let x := { x with lastExit := some (id, exit.index) }
  if t.cpu.inDelaySlot then x else x.countHit t.cpu.pc

/-- A fragment that is found is in the store, may be entered, and nothing is being recorded. -/
theorem lookup_some {x : FragmentCache} {c : Cpu} {breakpoints : List UInt64} {id : FragmentId}
    (h : (x.lookup c breakpoints).1 = some id) :
    x.recorder = none ∧ c.inDelaySlot = false ∧
      ∃ f, (x.lookup c breakpoints).2.store.get? id = some f ∧ isEnterable f c breakpoints = true := by
  unfold lookup at h ⊢
  dsimp only at h ⊢
  split at h
  · cases h
  · rename_i hopen
    rw [if_neg hopen]
    simp only [Bool.or_eq_true, Bool.not_eq_true', not_or, Bool.not_eq_true] at hopen
    obtain ⟨⟨-, hidle⟩, hslot⟩ := hopen
    generalize hfind : ({ x with lastExit := none } : FragmentCache).find x.lastExit c.pc = r at h ⊢
    obtain ⟨found, y⟩ := r
    dsimp only at h ⊢
    cases hg : found.bind y.store.get? with
    | none => rw [hg] at h; cases h
    | some f =>
      rw [hg] at h
      dsimp only at h
      split at h
      · rename_i hent
        subst h
        exact ⟨Option.not_isSome_iff_eq_none.mp (by simpa [isRecording] using hidle), hslot, f, hg, hent⟩
      · cases h

end FragmentCache

namespace Machine

/-- The run stops in front of the instruction. -/
def atBreakpoint (m : Machine) (resumeAt : Option UInt64) : Bool :=
  resumeAt != some m.cpu.pc && m.breakpoints.contains m.cpu.pc

/-- The processor and the vector unit behind an interpreted instruction. -/
def interpreted (cpu : Cpu) (v : VectorUnit) : Tandem :=
  ((⟨cpu, v⟩ : Tandem).count fun s => { s with interpretedOps := s.interpretedOps + 1 }).stepVector

/-- The processor and the vector unit in front of a fragment. -/
def entered (t : Tandem) : Tandem := t.count fun s => { s with fragmentRuns := s.fragmentRuns + 1 }

/-- **All that a turn can do**, with the instructions that it executes. -/
inductive Turn (m : Machine) (resumeAt : Option UInt64) :
    List Execution → Option (Except FatalError Exit) × Machine → Prop where
  /-- The run is to end. -/
  | stop {exit : Exit} (h : m.cpu.breakout = some exit) :
      Turn m resumeAt [] (some (.ok exit), m.onCpu fun c => { c with breakout := none })
  /-- The next instruction is at a breakpoint. -/
  | breakpoint (hb : m.cpu.breakout = none) (h : m.takeInterrupt.atBreakpoint resumeAt = true) :
      Turn m resumeAt []
        (some (.ok (.breakpoint m.takeInterrupt.cpu.pc)),
          { m.takeInterrupt with resumeAt := some m.takeInterrupt.cpu.pc })
  /-- The next instruction stops the machine. -/
  | fatal (hb : m.cpu.breakout = none) (h : m.takeInterrupt.atBreakpoint resumeAt = false)
      (hl : m.takeInterrupt.lookup.1 = none) {x : FatalError} {cpu : Cpu}
      (he : m.takeInterrupt.cpu.nextExecution.outcome = (.error x, cpu)) :
      Turn m resumeAt [m.takeInterrupt.cpu.nextExecution]
        (some (.error x), m.takeInterrupt.lookup.2.withTandem ⟨cpu, m.tandem.vector⟩)
  /-- The next instruction is interpreted. -/
  | interpret (hb : m.cpu.breakout = none) (h : m.takeInterrupt.atBreakpoint resumeAt = false)
      (hl : m.takeInterrupt.lookup.1 = none) {retired : Retired} {cpu : Cpu}
      (he : m.takeInterrupt.cpu.nextExecution.outcome = (.ok retired, cpu)) :
      Turn m resumeAt [m.takeInterrupt.cpu.nextExecution]
        (none,
          ((m.takeInterrupt.lookup.2.withTandem (interpreted cpu m.tandem.vector)).observe retired).drain)
  /-- An instruction of a fragment stops the machine. -/
  | fragmentFatal (hb : m.cpu.breakout = none) (h : m.takeInterrupt.atBreakpoint resumeAt = false)
      {id : FragmentId} (hl : m.takeInterrupt.lookup.1 = some id) {f : Fragment}
      (hf : m.takeInterrupt.lookup.2.cache.store.get? id = some f) {x : FatalError} {t : Tandem}
      (he : Fragment.runOps f.usesFloat f.ops 0 ⟨0, m.takeInterrupt.cpu.pc⟩
        (entered m.takeInterrupt.tandem) = (.error x, t)) :
      Turn m resumeAt (Fragment.executions f.usesFloat f.ops (entered m.takeInterrupt.tandem))
        (some (.error x),
          { m.takeInterrupt.lookup.2.withTandem t with
            cache :=
              { m.takeInterrupt.lookup.2.cache with
                store := m.takeInterrupt.lookup.2.cache.store.countRun id } })
  /-- A fragment is run. -/
  | fragment (hb : m.cpu.breakout = none) (h : m.takeInterrupt.atBreakpoint resumeAt = false)
      {id : FragmentId} (hl : m.takeInterrupt.lookup.1 = some id) {f : Fragment}
      (hf : m.takeInterrupt.lookup.2.cache.store.get? id = some f) {exit : FragmentExit} {t : Tandem}
      (he : Fragment.runOps f.usesFloat f.ops 0 ⟨0, m.takeInterrupt.cpu.pc⟩
        (entered m.takeInterrupt.tandem) = (.ok exit, t)) :
      Turn m resumeAt (Fragment.executions f.usesFloat f.ops (entered m.takeInterrupt.tandem))
        (none,
          { m.takeInterrupt.lookup.2.withTandem t with
            cache := m.takeInterrupt.lookup.2.cache.left id exit t }.drain)

/-- The instructions that a turn executes. -/
def turnExecutions (m : Machine) (resumeAt : Option UInt64) : List Execution :=
  if m.cpu.breakout.isSome || m.takeInterrupt.atBreakpoint resumeAt then []
  else
    match m.takeInterrupt.lookup.1.bind m.takeInterrupt.lookup.2.cache.store.get? with
    | some f => Fragment.executions f.usesFloat f.ops (entered m.takeInterrupt.tandem)
    | none => [m.takeInterrupt.cpu.nextExecution]

theorem lookup_fst (m : Machine) : m.lookup.1 = (m.cache.lookup m.cpu m.breakpoints).1 := rfl

theorem lookup_snd (m : Machine) :
    m.lookup.2 = { m with cache := (m.cache.lookup m.cpu m.breakpoints).2 } := rfl

section

variable {k : Machine} {id : FragmentId} {f : Fragment} {x : FatalError} {cpu : Cpu} {t : Tandem}

theorem proceed_fatal (hl : k.lookup.1 = none) (he : k.cpu.nextExecution.outcome = (.error x, cpu)) :
    k.proceed = (.error x, k.lookup.2.withTandem ⟨cpu, k.tandem.vector⟩) := by
  have hstep : k.lookup.2.tandem.cpu.step = (.error x, cpu) := (Cpu.step_eq _).trans he
  unfold proceed
  rw [show k.lookup = (none, k.lookup.2) from Prod.ext hl rfl]
  unfold interpretObserved interpret
  dsimp only
  rw [hstep]
  rfl

theorem proceed_interpret {retired : Retired} (hl : k.lookup.1 = none)
    (he : k.cpu.nextExecution.outcome = (.ok retired, cpu)) :
    k.proceed =
      (.ok (), ((k.lookup.2.withTandem (interpreted cpu k.tandem.vector)).observe retired).drain) := by
  have hstep : k.lookup.2.tandem.cpu.step = (.ok retired, cpu) := (Cpu.step_eq _).trans he
  unfold proceed
  rw [show k.lookup = (none, k.lookup.2) from Prod.ext hl rfl]
  unfold interpretObserved interpret
  dsimp only
  rw [hstep]
  rfl

theorem proceed_fragmentFatal (hl : k.lookup.1 = some id) (hf : k.lookup.2.cache.store.get? id = some f)
    (he : Fragment.runOps f.usesFloat f.ops 0 ⟨0, k.cpu.pc⟩ (entered k.tandem) = (.error x, t)) :
    k.proceed =
      (.error x,
        { k.lookup.2.withTandem t with
          cache := { k.lookup.2.cache with store := k.lookup.2.cache.store.countRun id } }) := by
  have hrun : f.run k.lookup.2.tandem = (.error x, t) := he
  unfold proceed
  rw [show k.lookup = (some id, k.lookup.2) from Prod.ext hl rfl]
  unfold enter FragmentCache.enter
  dsimp only
  rw [hf]
  dsimp only
  rw [hrun]
  rfl

theorem proceed_fragment {exit : FragmentExit} (hl : k.lookup.1 = some id)
    (hf : k.lookup.2.cache.store.get? id = some f)
    (he : Fragment.runOps f.usesFloat f.ops 0 ⟨0, k.cpu.pc⟩ (entered k.tandem) = (.ok exit, t)) :
    k.proceed =
      (.ok (), { k.lookup.2.withTandem t with cache := k.lookup.2.cache.left id exit t }.drain) := by
  have hrun : f.run k.lookup.2.tandem = (.ok exit, t) := he
  unfold proceed
  rw [show k.lookup = (some id, k.lookup.2) from Prod.ext hl rfl]
  unfold enter FragmentCache.enter
  dsimp only
  rw [hf]
  dsimp only
  rw [hrun]
  rfl

end

section

variable {m : Machine} {resumeAt : Option UInt64}

/-- A run that is to end has nothing to execute. -/
theorem turn_stop {exit : Exit} (h : m.cpu.breakout = some exit) (resumeAt : Option UInt64) :
    m.turnExecutions resumeAt = [] ∧
      m.turn resumeAt = (some (.ok exit), m.onCpu fun c => { c with breakout := none }) := by
  unfold turnExecutions turn
  rw [h]
  exact ⟨rfl, rfl⟩

theorem turn_breakpoint (hb : m.cpu.breakout = none) (h : m.takeInterrupt.atBreakpoint resumeAt = true) :
    m.turnExecutions resumeAt = [] ∧
      m.turn resumeAt =
        (some (.ok (.breakpoint m.takeInterrupt.cpu.pc)),
          { m.takeInterrupt with resumeAt := some m.takeInterrupt.cpu.pc }) := by
  constructor
  · unfold turnExecutions
    rw [h, Bool.or_true, if_pos rfl]
  · unfold turn
    rw [hb]
    dsimp only
    exact if_pos h

/-- Without a reason to stop, the turn is what the machine does next. -/
theorem turn_proceed (hb : m.cpu.breakout = none) (h : m.takeInterrupt.atBreakpoint resumeAt = false) :
    (∀ x k, m.takeInterrupt.proceed = (.error x, k) → m.turn resumeAt = (some (.error x), k)) ∧
      ∀ k, m.takeInterrupt.proceed = (.ok (), k) → m.turn resumeAt = (none, k) := by
  have hstay : ¬ (resumeAt != some m.takeInterrupt.cpu.pc &&
      m.takeInterrupt.breakpoints.contains m.takeInterrupt.cpu.pc) = true := by
    rw [show (_ && _) = false from h]
    exact Bool.false_ne_true
  unfold turn
  rw [hb]
  dsimp only
  rw [if_neg hstay]
  constructor
  · intro x k hp
    rw [hp]
  · intro k hp
    rw [hp]

theorem turnExecutions_eq (hb : m.cpu.breakout = none)
    (h : m.takeInterrupt.atBreakpoint resumeAt = false) :
    (m.takeInterrupt.lookup.1 = none →
        m.turnExecutions resumeAt = [m.takeInterrupt.cpu.nextExecution]) ∧
      ∀ id f, m.takeInterrupt.lookup.1 = some id → m.takeInterrupt.lookup.2.cache.store.get? id = some f →
        m.turnExecutions resumeAt =
          Fragment.executions f.usesFloat f.ops (entered m.takeInterrupt.tandem) := by
  unfold turnExecutions
  rw [hb, h, if_neg (by simp)]
  constructor
  · intro hl
    rw [hl]
    rfl
  · intro id f hl hf
    rw [hl, Option.bind_some, hf]

end

theorem turn_spec (m : Machine) (resumeAt : Option UInt64) :
    Turn m resumeAt (m.turnExecutions resumeAt) (m.turn resumeAt) := by
  cases hb : m.cpu.breakout with
  | some exit =>
    rw [(turn_stop hb resumeAt).1, (turn_stop hb resumeAt).2]
    exact .stop hb
  | none =>
    cases hbp : m.takeInterrupt.atBreakpoint resumeAt with
    | true =>
      rw [(turn_breakpoint hb hbp).1, (turn_breakpoint hb hbp).2]
      exact .breakpoint hb hbp
    | false =>
      cases hl : m.takeInterrupt.lookup.1 with
      | none =>
        rw [(turnExecutions_eq hb hbp).1 hl]
        rcases he : m.takeInterrupt.cpu.nextExecution.outcome with ⟨r, cpu⟩
        cases r with
        | error x =>
          rw [(turn_proceed hb hbp).1 _ _ (proceed_fatal hl he)]
          exact .fatal hb hbp hl he
        | ok retired =>
          rw [(turn_proceed hb hbp).2 _ (proceed_interpret hl he)]
          exact .interpret hb hbp hl he
      | some id =>
        obtain ⟨-, -, f, hf, -⟩ := FragmentCache.lookup_some ((lookup_fst _).symm.trans hl)
        have hf : m.takeInterrupt.lookup.2.cache.store.get? id = some f := hf
        rw [(turnExecutions_eq hb hbp).2 id f hl hf]
        rcases he : Fragment.runOps f.usesFloat f.ops 0 ⟨0, m.takeInterrupt.cpu.pc⟩
          (entered m.takeInterrupt.tandem) with ⟨r, t⟩
        cases r with
        | error x =>
          rw [(turn_proceed hb hbp).1 _ _ (proceed_fragmentFatal hl hf he)]
          exact .fragmentFatal hb hbp hl hf he
        | ok exit =>
          rw [(turn_proceed hb hbp).2 _ (proceed_fragment hl hf he)]
          exact .fragment hb hbp hl hf he

/-! ## Turns are chains -/

theorem chain_drain (m : Machine) : Chain m.cpu [] m.drain.cpu := by
  obtain ⟨n, cache, h, -⟩ := drain_eq (P := fun _ => True) (fun _ _ _ => trivial) (m := m) trivial
  rw [h]
  exact .single (.outside m.cpu m.cpu.bus m.cpu.line [] false _)

theorem chain_observe (m : Machine) (retired : Retired) : Chain m.cpu [] (m.observe retired).cpu := by
  unfold observe
  dsimp only
  split
  · exact .single (.outside m.cpu m.cpu.bus m.cpu.line m.cpu.codeInvalidations m.cpu.tlbDirty _)
  · exact .nil _

theorem quiet_interpreted (cpu : Cpu) (v : VectorUnit) : Quiet cpu (interpreted cpu v).cpu := by
  unfold interpreted Tandem.count Tandem.onCpu Tandem.stepVector
  dsimp only
  cases v.drive (v.steps + 1) with
  | none => exact .outside cpu cpu.bus cpu.line cpu.codeInvalidations cpu.tlbDirty _
  | some level => exact .outside cpu cpu.bus level cpu.codeInvalidations cpu.tlbDirty _

end Machine

/-- A fetch changes at most a device. -/
theorem Cpu.quiet_nextExecution (c : Cpu) : Quiet c c.nextExecution.before := by
  obtain ⟨bus, h⟩ := c.exists_nextExecution_before
  rw [h]
  exact .outside c bus c.line c.codeInvalidations c.tlbDirty c.statistics

namespace Machine

/-- A fragment that is entered runs as its instructions do one at a time. -/
theorem runOps_entered {m : Machine} (hT : m.cpu.Timed) (f : Fragment) :
    Fragment.runOps f.usesFloat f.ops 0 ⟨0, m.takeInterrupt.cpu.pc⟩ (entered m.takeInterrupt.tandem) =
      Fragment.runEach f.usesFloat f.ops 0 (entered m.takeInterrupt.tandem) :=
  Fragment.runOps_eq_runEach f.usesFloat f.ops 0 ⟨0, m.takeInterrupt.cpu.pc⟩ (entered m.takeInterrupt.tandem)
    (Deferred.sound_zero (entered m.takeInterrupt.tandem).cpu)
    ((m.cpu.chain_takePending.timed hT).of_events rfl)

/-- How a run that has come to a state ends there: the turns are used up, the run was to end, or it ends
for another reason. -/
inductive Ends (c : Cpu) : Option (Except FatalError Exit) → Cpu → Prop where
  | unfinished : Ends c none c
  | stop {exit : Exit} (h : c.breakout = some exit) : Ends c (some (.ok exit)) { c with breakout := none }
  | breakpoint (h : c.breakout = none) (pc : UInt64) : Ends c (some (.ok (.breakpoint pc))) c
  | fatal (h : c.breakout = none) (x : FatalError) : Ends c (some (.error x)) c

/-- The interpreter's instruction, with the interrupt that may come before it. -/
theorem chain_nextExecution {m : Machine} (hb : m.cpu.breakout = none) :
    m.takeInterrupt.cpu.nextExecution.before.breakout = none ∧
      Chain m.cpu [m.takeInterrupt.cpu.nextExecution] m.takeInterrupt.cpu.nextExecution.after := by
  have htake : Chain m.cpu [] m.takeInterrupt.cpu := m.cpu.chain_takePending
  have hfetch := Cpu.quiet_nextExecution m.takeInterrupt.cpu
  have hbreak := hfetch.breakout.trans ((Cpu.breakout_takePending m.cpu).trans hb)
  exact ⟨hbreak, htake.append (.quiet hfetch (.execute _ hbreak (.nil _)))⟩

/-- The instructions of a fragment, with the interrupt that may come before them. -/
theorem chain_entered {m : Machine} (hT : m.cpu.Timed) (hb : m.cpu.breakout = none) (f : Fragment) :
    Chain m.cpu (Fragment.executions f.usesFloat f.ops (entered m.takeInterrupt.tandem))
      (Fragment.runEach f.usesFloat f.ops 0 (entered m.takeInterrupt.tandem)).2.cpu := by
  have htake : Chain m.cpu [] m.takeInterrupt.cpu := m.cpu.chain_takePending
  have henter : Quiet m.takeInterrupt.cpu (entered m.takeInterrupt.tandem).cpu :=
    .outside _ m.takeInterrupt.cpu.bus m.takeInterrupt.cpu.line m.takeInterrupt.cpu.codeInvalidations
      m.takeInterrupt.cpu.tlbDirty _
  have hbreak : (entered m.takeInterrupt.tandem).cpu.breakout = none :=
    (Cpu.breakout_takePending m.cpu).trans hb
  exact htake.append (.quiet henter (Fragment.chain_runEach _ _ 0 _ (henter.timed (htake.timed hT)) hbreak))

/-- **A turn is a chain.** -/
theorem Turn.chain {m : Machine} {resumeAt : Option UInt64} {es : List Execution}
    {out : Option (Except FatalError Exit) × Machine} (h : Turn m resumeAt es out) (hT : m.cpu.Timed) :
    ∃ c, Chain m.cpu es c ∧ Ends c out.1 out.2.cpu := by
  cases h with
  | stop h => exact ⟨m.cpu, .nil _, .stop h⟩
  | breakpoint hb h =>
    exact ⟨_, m.cpu.chain_takePending, .breakpoint ((Cpu.breakout_takePending m.cpu).trans hb) _⟩
  | @fatal hb h hl x cpu he =>
    -- it leaves the state that it was fetched in
    obtain rfl := Execution.eq_before_of_error he
    obtain ⟨hbreak, hchain⟩ := chain_nextExecution hb
    rw [show m.takeInterrupt.cpu.nextExecution.after = _ from congrArg Prod.snd he] at hchain
    exact ⟨_, hchain, .fatal hbreak x⟩
  | @interpret hb h hl retired cpu he =>
    obtain ⟨-, hexec⟩ := chain_nextExecution hb
    rw [show m.takeInterrupt.cpu.nextExecution.after = cpu from congrArg Prod.snd he] at hexec
    let k := m.takeInterrupt.lookup.2.withTandem (interpreted cpu m.tandem.vector)
    have hcount : Chain cpu [] k.cpu := .single (quiet_interpreted cpu m.tandem.vector)
    have hchain := ((hexec.append hcount).append (chain_observe k retired)).append
      (chain_drain (k.observe retired))
    exact ⟨_, hchain, .unfinished⟩
  | @fragmentFatal hb h id hl f hf x t he =>
    rw [runOps_entered hT] at he
    have hchain := chain_entered hT hb f
    rw [he] at hchain
    exact ⟨_, hchain, .fatal (Fragment.runEach_error ((Cpu.breakout_takePending m.cpu).trans hb) he) x⟩
  | @fragment hb h id hl f hf exit t he =>
    rw [runOps_entered hT] at he
    have hrun := chain_entered hT hb f
    rw [he] at hrun
    let k : Machine := { m.takeInterrupt.lookup.2.withTandem t with
      cache := m.takeInterrupt.lookup.2.cache.left id exit t }
    have hchain := hrun.append (chain_drain k)
    rw [List.append_nil] at hchain
    exact ⟨_, hchain, .unfinished⟩

/-! ## Runs -/

/-- The instructions of up to `limit` turns. -/
def loopExecutions : Nat → Option UInt64 → Machine → List Execution
  | 0, _, _ => []
  | limit + 1, resumeAt, m =>
    m.turnExecutions resumeAt ++
      match m.turn resumeAt with
      | (some _, _) => []
      | (none, m) => loopExecutions limit none m

theorem loop_of_some {m k : Machine} {resumeAt : Option UInt64} {x : Except FatalError Exit}
    (h : m.turn resumeAt = (some x, k)) (limit : Nat) : loop (limit + 1) resumeAt m = (some x, k) := by
  rw [loop, h]

theorem loop_of_none {m k : Machine} {resumeAt : Option UInt64} (h : m.turn resumeAt = (none, k))
    (limit : Nat) : loop (limit + 1) resumeAt m = loop limit none k := by
  rw [loop, h]

/-- What a turn preserves, turns preserve. -/
theorem loop_preserves {P : Machine → Prop} (hturn : ∀ resumeAt m, P m → P (m.turn resumeAt).2) (n : Nat) :
    ∀ (resumeAt : Option UInt64) {m : Machine}, P m → P (loop n resumeAt m).2 := by
  induction n with
  | zero => intro resumeAt m h; exact h
  | succ n ih =>
    intro resumeAt m h
    have hnext := hturn resumeAt m h
    rcases ht : m.turn resumeAt with ⟨r, k⟩
    rw [ht] at hnext
    cases r with
    | some r =>
      rw [loop_of_some ht]
      exact hnext
    | none =>
      rw [loop_of_none ht]
      exact ih none hnext

/-- A machine that goes on has nothing to clear. -/
theorem Ends.eq_of_none {c c' : Cpu} (h : Ends c none c') : c' = c := by
  cases h with
  | unfinished => rfl

/-- Where a chain ended, only the request to stop is cleared. -/
theorem Ends.same {c c' : Cpu} {r : Option (Except FatalError Exit)} (h : Ends c r c') {α : Type} (read : Cpu → α)
    (hread : ∀ b : Cpu, read { b with breakout := none } = read b) : read c' = read c := by
  cases h with
  | stop _ => exact hread c
  | _ => rfl

/-- Where a turn of a chain ended, nothing is due. -/
theorem Ends.timed {c c' : Cpu} {r : Option (Except FatalError Exit)} (h : Ends c r c') (hT : c.Timed) :
    c'.Timed := by
  cases h with
  | stop _ => exact hT.of_events rfl
  | _ => exact hT

/-- **Turns are a chain.** -/
theorem loop_chain (limit : Nat) :
    ∀ (resumeAt : Option UInt64) (m : Machine), m.cpu.Timed →
      ∃ c, Chain m.cpu (m.loopExecutions limit resumeAt) c ∧
        Ends c (loop limit resumeAt m).1 (loop limit resumeAt m).2.cpu := by
  induction limit with
  | zero => intro resumeAt m _; exact ⟨m.cpu, .nil _, .unfinished⟩
  | succ limit ih =>
    intro resumeAt m hT
    unfold loopExecutions loop
    obtain ⟨c, hchain, hends⟩ := (turn_spec m resumeAt).chain hT
    rcases hturn : m.turn resumeAt with ⟨r, k⟩
    rw [hturn] at hends
    cases r with
    | some x =>
      dsimp only
      rw [List.append_nil]
      exact ⟨c, hchain, hends⟩
    | none =>
      obtain ⟨c', hchain', hends'⟩ := ih none k (hends.timed (hchain.timed hT))
      exact ⟨c', hchain.append (hends.eq_of_none ▸ hchain'), hends'⟩

/-- The machine at the start of a run. -/
def prepare (m : Machine) (budget : UInt64) : Machine :=
  { m with resumeAt := none }.onCpu fun c =>
    c.schedule .runForCycles (min budget.toNat longestRun : Nat) .budgetSpent

/-- The instructions of a run. -/
def executions (m : Machine) (budget : UInt64) : List Execution :=
  if budget = 0 then []
  else loopExecutions (m.prepare budget).turnsToEnd m.resumeAt (m.prepare budget)

/-- A run without a budget does nothing. -/
theorem run_zero (m : Machine) : m.run 0 = (some (.ok .budgetExhausted), m) := if_pos rfl

theorem executions_zero (m : Machine) : m.executions 0 = [] := if_pos rfl

theorem executions_eq (m : Machine) {budget : UInt64} (h : budget ≠ 0) :
    m.executions budget = (m.prepare budget).loopExecutions (m.prepare budget).turnsToEnd m.resumeAt := if_neg h

theorem run_eq (m : Machine) {budget : UInt64} (h : budget ≠ 0) :
    m.run budget =
      ((loop (m.prepare budget).turnsToEnd m.resumeAt (m.prepare budget)).1,
        (loop (m.prepare budget).turnsToEnd m.resumeAt (m.prepare budget)).2.onCpu fun c =>
          { c with events := c.events.erase .runForCycles }) := by
  unfold run
  rw [if_neg h]
  rfl

end Machine

end Vr4300
