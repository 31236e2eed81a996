import Vr4300.Proofs.FragmentTurns

/-!
# `Proofs.Follows` — the recompiler follows the interpreter

Two machines start alike; one interprets, the other records and runs fragments. `Machine.Follows` relates them
between turns: they look the same, and the cache of the second is faithful to what the first is still going to
execute. A turn of the recompiler is one or more turns of the interpreter (`Follows.turn`), so the recompiler
ends its run where the interpreter does, with the same result, and never later (`Follows.loop`).

## Contents

* `Machine.Clean`, `Machine.Follows`;
* `margin_takePending`, `drain_faithful`: what is kept along a turn;
* `Follows.stop`, …, `Follows.fragment`: the cases of a turn, one by one;
* `Follows.turn`, `Follows.loop`.
-/

namespace Vr4300

namespace Cpu

/-- Interrupts touch no notes about overwritten code, and start no delay slot. -/
theorem margin_takePending (c : Cpu) :
    c.takePending.codeInvalidations = c.codeInvalidations ∧ c.takePending.tlbDirty = c.tlbDirty ∧
      (c.inDelaySlot = false → c.takePending.inDelaySlot = false) := by
  rcases c.takePending_cases with ⟨-, h⟩ | ⟨-, h⟩ <;> rw [h]
  · exact ⟨rfl, rfl, id⟩
  · have hmargin := congrArg margin
      (takeException_adorn c.updateInterrupts c.updateInterrupts.margin .interrupt c.inDelaySlot)
    refine ⟨congrArg Margin.codeInvalidations hmargin, congrArg Margin.tlbDirty hmargin, fun _ => ?_⟩
    have hslot := congrArg Margin.delaySlot hmargin
    exact congrArg Option.isSome hslot

end Cpu

namespace Machine

/-- There is no fragment yet, or everything that was overwritten has been looked at. -/
def Clean (m : Machine) : Prop :=
  (∀ id, m.cache.store.get? id = none) ∨ (m.cpu.codeInvalidations = [] ∧ m.cpu.tlbDirty = false)

/-- **The recompiler's machine `b` follows the interpreter's machine `a`**, which is going to execute `fs`. -/
structure Follows (a b : Machine) (fs : List Execution) : Prop where
  /-- They look the same. -/
  visible : a.visible = b.visible
  /-- The first one interprets. -/
  interprets : a.cache.enabled = false
  /-- It is in order. -/
  orderly : a.cpu.Orderly
  /-- The second one's cache is faithful to what is to come. -/
  faithful : b.cache.Faithful fs
  /-- Its recordings begin outside delay slots. -/
  poised : b.cache.Poised b.cpu
  /-- Nothing that was overwritten waits to be looked at. -/
  clean : b.Clean

/-- Looking at invalidations leaves the cache faithful, and nothing to look at. -/
theorem drain_faithful {k : Machine} {fs : List Execution} (hf : k.cache.Faithful fs)
    (hp : k.cache.Poised k.cpu) :
    k.drain.cache.Faithful fs ∧ k.drain.cache.Poised k.drain.cpu ∧ k.drain.Clean := by
  obtain ⟨n, cache, h, hcache⟩ := drain_eq (P := fun x => x.Faithful fs ∧ x.Poised k.cpu)
    (fun _ entry hx => ⟨hx.1.forget entry, hx.2.forget entry⟩) (m := k) ⟨hf, hp⟩
  rw [h]
  exact ⟨hcache.1, hcache.2.of_recorder rfl (fun _ => id) id, .inr ⟨rfl, rfl⟩⟩

theorem Clean.takeInterrupt {m : Machine} (h : m.Clean) : m.takeInterrupt.Clean := by
  obtain ⟨hcode, hdirty, -⟩ := m.cpu.margin_takePending
  exact h.imp id fun hc => ⟨hcode.trans hc.1, hdirty.trans hc.2⟩

theorem Clean.lookup {m : Machine} (h : m.Clean) : m.lookup.2.Clean :=
  h.imp (fun hempty id => FragmentCache.get?_lookup_of_empty hempty m.cpu m.breakpoints id) id

/-- A fetch notes nothing. -/
theorem Clean.fetched {m : Machine} (h : m.Clean) (v : VectorUnit) :
    (m.withTandem ⟨m.cpu.nextExecution.before, v⟩).Clean := by
  obtain ⟨bus, hbus⟩ := m.cpu.exists_nextExecution_before
  rw [hbus]
  exact h

/-- **A fragment that is entered** need not be left at once: invalidations were looked at before there was a
fragment to enter, interrupts before it was looked for. -/
theorem mustLeave_entered {m : Machine} (h : m.Clean) (hb : m.cpu.breakout = none) {id : FragmentId}
    {f : Fragment} (hl : m.takeInterrupt.lookup.1 = some id)
    (hf : m.takeInterrupt.lookup.2.cache.store.get? id = some f) :
    Fragment.mustLeave f.usesFloat (entered m.takeInterrupt.tandem).cpu = false := by
  obtain ⟨-, -, f', hf', henter⟩ := FragmentCache.lookup_some ((lookup_fst _).symm.trans hl)
  obtain rfl := Option.some.inj (hf'.symm.trans hf)
  unfold FragmentCache.isEnterable at henter
  simp only [Bool.and_eq_true, Bool.or_eq_true, Bool.not_eq_true'] at henter
  obtain ⟨⟨-, hfloat⟩, -⟩ := henter
  have hbreak : m.takeInterrupt.cpu.breakout = none := (Cpu.breakout_takePending m.cpu).trans hb
  have hpending : m.takeInterrupt.cpu.interruptsPending = false := Cpu.interruptsPending_takePending m.cpu
  have hclean : m.takeInterrupt.cpu.codeInvalidations = [] ∧ m.takeInterrupt.cpu.tlbDirty = false := by
    refine h.takeInterrupt.resolve_left fun hempty => ?_
    have hnone := FragmentCache.get?_lookup_of_empty hempty m.takeInterrupt.cpu m.takeInterrupt.breakpoints id
    cases hnone.symm.trans hf'
  show (m.takeInterrupt.cpu.breakout.isSome || m.takeInterrupt.cpu.interruptsPending ||
    !m.takeInterrupt.cpu.codeInvalidations.isEmpty || m.takeInterrupt.cpu.tlbDirty ||
    (f'.usesFloat && !m.takeInterrupt.cpu.statusFloatUsable)) = false
  rw [hbreak, hpending, hclean.1, hclean.2]
  rcases hfloat with hfloat | hfloat <;> rw [hfloat]
  · rfl
  · exact Bool.and_false _

namespace Follows

variable {a b : Machine} {fs gs : List Execution}

theorem mono (h : Follows a b fs) (hs : gs ⊆ fs) : Follows a b gs :=
  { h with faithful := h.faithful.mono hs }

/-- What is done to both processors, if it does not show a difference. -/
theorem onCpu (h : Follows a b fs) {f : Cpu → Cpu} (hshown : (f a.cpu).shown = (f b.cpu).shown)
    (horderly : (f a.cpu).Orderly) (hcode : (f b.cpu).codeInvalidations = b.cpu.codeInvalidations)
    (hdirty : (f b.cpu).tlbDirty = b.cpu.tlbDirty)
    (hslot : b.cpu.inDelaySlot = false → (f b.cpu).inDelaySlot = false) :
    Follows (a.onCpu f) (b.onCpu f) fs where
  visible :=
    visible_withTandem_of_visible h.visible ⟨f a.cpu, a.tandem.vector⟩ ⟨f b.cpu, b.tandem.vector⟩
      hshown (vector_of_visible h.visible)
  interprets := h.interprets
  orderly := horderly
  faithful := h.faithful
  poised := h.poised.of_recorder rfl (fun _ => id) hslot
  clean := h.clean.imp id fun hc => ⟨hcode.trans hc.1, hdirty.trans hc.2⟩

theorem takeInterrupt (h : Follows a b fs) : Follows a.takeInterrupt b.takeInterrupt fs := by
  obtain ⟨hcode, hdirty, hslot⟩ := b.cpu.margin_takePending
  exact h.onCpu (f := Cpu.takePending) (Cpu.like_takePending (shown_of_visible h.visible)).shown
    h.orderly.takePending hcode hdirty hslot

theorem like (h : Follows a b fs) : Cpu.Like a.takeInterrupt.cpu b.takeInterrupt.cpu :=
  Cpu.like_takePending (shown_of_visible h.visible)

theorem breakout (h : Follows a b fs) : b.cpu.breakout = a.cpu.breakout :=
  Cpu.same_of_shown (shown_of_visible h.visible) Cpu.breakout fun _ => rfl

theorem atBreakpoint (h : Follows a b fs) (resumeAt : Option UInt64) :
    b.takeInterrupt.atBreakpoint resumeAt = a.takeInterrupt.atBreakpoint resumeAt := by
  have hpc : b.takeInterrupt.cpu.pc = a.takeInterrupt.cpu.pc := h.like.same Cpu.pc fun _ => rfl
  have hbreakpoints : b.takeInterrupt.breakpoints = a.takeInterrupt.breakpoints :=
    (breakpoints_of_visible h.visible).symm
  unfold Machine.atBreakpoint
  rw [hpc, hbreakpoints]

end Follows

/-! ## Turns -/

/-- What the recompiler's turn is for the interpreter, which has `n` turns left and `later` to execute behind
this run: the end of the run, or turns that lead to where the recompiler is. -/
inductive Keeps (n : Nat) (resumeAt : Option UInt64) (a : Machine) (later : List Execution) :
    Option (Except FatalError Exit) × Machine → Prop where
  /-- The run ends. -/
  | ends {x : Except FatalError Exit} {a' b' : Machine} (h : loop n resumeAt a = (some x, a'))
      (hf : Follows a' b' later) : Keeps n resumeAt a later (some x, b')
  /-- The run goes on. -/
  | goes {n' : Nat} {a' b' : Machine} (hn : n' < n) (h : Reaches n resumeAt a n' none a')
      (hf : Follows a' b' (a'.loopExecutions n' none ++ later)) : Keeps n resumeAt a later (none, b')

namespace Follows

variable {a b : Machine} {later : List Execution} {n : Nat} {resumeAt : Option UInt64}

/-- A run that is to end. -/
theorem stop (h : Follows a b (a.loopExecutions (n + 1) resumeAt ++ later)) {exit : Exit}
    (hb : b.cpu.breakout = some exit) :
    Keeps (n + 1) resumeAt a later (some (.ok exit), b.onCpu fun c => { c with breakout := none }) := by
  have ha : a.cpu.breakout = some exit := h.breakout.symm.trans hb
  have hshown := congrArg (fun c : Cpu => { c with breakout := none }) (shown_of_visible h.visible)
  refine .ends (loop_of_some (turn_stop ha resumeAt).2 n) ((h.mono (List.subset_append_right _ _)).onCpu
    (f := fun c => { c with breakout := none }) hshown ?_ rfl rfl id)
  exact ⟨h.orderly.timed.of_events rfl, h.orderly.gated⟩

/-- A breakpoint. -/
theorem breakpoint (h : Follows a b (a.loopExecutions (n + 1) resumeAt ++ later))
    (hb : b.cpu.breakout = none) (hbp : b.takeInterrupt.atBreakpoint resumeAt = true) :
    Keeps (n + 1) resumeAt a later
      (some (.ok (.breakpoint b.takeInterrupt.cpu.pc)),
        { b.takeInterrupt with resumeAt := some b.takeInterrupt.cpu.pc }) := by
  have hpc : b.takeInterrupt.cpu.pc = a.takeInterrupt.cpu.pc := h.like.same Cpu.pc fun _ => rfl
  have htake := (h.mono (List.subset_append_right _ _)).takeInterrupt
  have hturn := (turn_breakpoint (h.breakout.symm.trans hb) ((h.atBreakpoint resumeAt).symm.trans hbp)).2
  rw [hpc]
  exact .ends (loop_of_some hturn n)
    { htake with
      visible := congrArg (fun m => { m with resumeAt := some a.takeInterrupt.cpu.pc }) htake.visible }

/-- The instruction that is next, executed on both sides. -/
theorem outcome (h : Follows a b later) {r : Except FatalError Retired} {cpu : Cpu}
    (he : b.takeInterrupt.cpu.nextExecution.outcome = (r, cpu)) :
    a.takeInterrupt.cpu.nextExecution.outcome = (r, a.takeInterrupt.cpu.nextExecution.after) ∧
      Cpu.Like a.takeInterrupt.cpu.nextExecution.after cpu := by
  have hstep := h.like.step
  rw [Cpu.step_eq, Cpu.step_eq, he] at hstep
  exact ⟨Prod.ext hstep.1.symm rfl, hstep.2⟩

/-- An instruction that stops the machine. -/
theorem fatal (h : Follows a b (a.loopExecutions (n + 1) resumeAt ++ later))
    (hb : b.cpu.breakout = none) (hbp : b.takeInterrupt.atBreakpoint resumeAt = false) {x : FatalError}
    {cpu : Cpu} (he : b.takeInterrupt.cpu.nextExecution.outcome = (.error x, cpu)) :
    Keeps (n + 1) resumeAt a later
      (some (.error x), b.takeInterrupt.lookup.2.withTandem ⟨cpu, b.tandem.vector⟩) := by
  obtain ⟨ha, hlike⟩ := h.outcome he
  obtain ⟨a', hturn, hshows⟩ := interpreter_fatal h.interprets h.orderly (h.breakout.symm.trans hb)
    ((h.atBreakpoint resumeAt).symm.trans hbp) ha
  have htake := (h.mono (List.subset_append_right _ _)).takeInterrupt
  have hcpu : cpu = (b.takeInterrupt.cpu.fetch b.takeInterrupt.cpu.pc).2 :=
    (Execution.eq_before_of_error he).trans (Cpu.nextExecution_before _)
  obtain ⟨bus, hbus⟩ := b.takeInterrupt.cpu.fetch_snd b.takeInterrupt.cpu.pc
  refine .ends (loop_of_some hturn n) ⟨?_, hshows.interprets, hshows.orderly, ?_, ?_, ?_⟩
  · exact hshows.visible.trans (visible_withTandem_of_visible h.visible _ ⟨cpu, b.tandem.vector⟩
      hlike.shown (vector_of_visible h.visible))
  · exact (htake.faithful.lookup _ _).1
  · refine (htake.poised.lookup b.takeInterrupt.breakpoints).of_recorder rfl (fun _ => id) ?_
    intro hslot
    show cpu.inDelaySlot = false
    rw [hcpu, hbus]
    exact hslot
  · rw [Execution.eq_before_of_error he]
    exact htake.clean.lookup.fetched b.tandem.vector

/-- An instruction that is interpreted. -/
theorem interpret (h : Follows a b (a.loopExecutions (n + 1) resumeAt ++ later))
    (hstable : CodeStable (a.loopExecutions (n + 1) resumeAt ++ later))
    (hb : b.cpu.breakout = none) (hbp : b.takeInterrupt.atBreakpoint resumeAt = false) {retired : Retired}
    {cpu : Cpu} (he : b.takeInterrupt.cpu.nextExecution.outcome = (.ok retired, cpu)) :
    Keeps (n + 1) resumeAt a later
      (none,
        ((b.takeInterrupt.lookup.2.withTandem (interpreted cpu b.tandem.vector)).observe retired).drain) := by
  obtain ⟨ha, hlike⟩ := h.outcome he
  have hrun : a.cpu.breakout = none := h.breakout.symm.trans hb
  have hstay : a.takeInterrupt.atBreakpoint resumeAt = false := (h.atBreakpoint resumeAt).symm.trans hbp
  obtain ⟨a', hturn, hshows⟩ := interpreter_turn h.interprets h.orderly hrun hstay ha
  have hfs : a.loopExecutions (n + 1) resumeAt =
      a.takeInterrupt.cpu.nextExecution :: a'.loopExecutions n none := by
    rw [loopExecutions, interpreter_executions h.interprets hrun hstay, hturn]
    rfl
  rw [hfs, List.cons_append] at hstable h
  have htake := h.takeInterrupt
  have hlook := (htake.faithful.lookup b.takeInterrupt.cpu b.takeInterrupt.breakpoints).1.mono
    (List.subset_cons_self _ _)
  let k := b.takeInterrupt.lookup.2.withTandem (interpreted cpu b.tandem.vector)
  -- what is recorded is what the interpreter fetches, and it lies there from now on
  have hfaithful : (k.observe retired).cache.Faithful (a'.loopExecutions n none ++ later) := by
    refine hlook.observe k.cpu (Cpu.current_of_nextExecution hstable ha) ?_
    intro hon r hr hempty
    have hpoised := (htake.poised.lookup b.takeInterrupt.breakpoints) hon r hr hempty
    rw [Execution.retired_eq he]
    obtain ⟨bus, hbus⟩ := b.takeInterrupt.cpu.exists_nextExecution_before
    show b.takeInterrupt.cpu.nextExecution.before.inDelaySlot = false
    rw [hbus]
    exact hpoised
  have hpoised : (k.observe retired).cache.Poised (k.observe retired).cpu := by
    refine (FragmentCache.poised_observe k.cache k.cpu retired).of_recorder rfl (fun _ => id) ?_
    intro hslot
    rw [inDelaySlot_observe]
    exact hslot
  obtain ⟨hfaithful', hpoised', hclean⟩ := drain_faithful hfaithful hpoised
  refine .goes (Nat.lt_succ_self n) (.turn hturn)
    ⟨?_, hshows.interprets, hshows.orderly, hfaithful', hpoised', hclean⟩
  obtain ⟨hcounted, -, hvector⟩ := like_counted hlike b.tandem.vector
  rw [visible_drain, visible_observe]
  refine hshows.visible.trans ?_
  rw [vector_of_visible h.visible]
  exact visible_withTandem_of_visible h.visible _ (interpreted cpu b.tandem.vector) hcounted.shown hvector

/-! ### Entering a fragment -/

/-- **A fragment that is entered** finds the interpreter abreast, and nothing in its way. -/
theorem entering (h : Follows a b later) (hb : b.cpu.breakout = none) {id : FragmentId} {f : Fragment}
    (hl : b.takeInterrupt.lookup.1 = some id) (hf : b.takeInterrupt.lookup.2.cache.store.get? id = some f) :
    b.takeInterrupt.lookup.2.cache.recorder = none ∧ Abreast a (entered b.takeInterrupt.tandem) ∧
      Fragment.mustLeave f.usesFloat (entered b.takeInterrupt.tandem).cpu = false ∧
      Fragment.Here f.ops (entered b.takeInterrupt.tandem).cpu ∧
      ∀ op ∈ f.ops, Runnable op f.usesFloat a.breakpoints later := by
  have htake := h.takeInterrupt
  obtain ⟨-, hslot, f', hf', henter⟩ := FragmentCache.lookup_some ((lookup_fst _).symm.trans hl)
  obtain rfl := Option.some.inj (hf'.symm.trans hf)
  obtain ⟨hfaithful, hentry⟩ := htake.faithful.lookup b.takeInterrupt.cpu b.takeInterrupt.breakpoints
  have hcode := hfaithful.code id f' hf
  have hblocked : FragmentCache.blocked b.takeInterrupt.breakpoints f'.ranges = false := by
    unfold FragmentCache.isEnterable at henter
    simp only [Bool.and_eq_true, Bool.not_eq_true'] at henter
    exact henter.2
  refine ⟨FragmentCache.recorder_lookup_of_some ((lookup_fst _).symm.trans hl), ?_,
    mustLeave_entered h.clean hb hl hf, ?_, ?_⟩
  · exact ⟨h.like, vector_of_visible h.visible, h.interprets, h.orderly, h.breakout.symm.trans hb⟩
  · obtain ⟨op, rest, hops, haddress, hopslot⟩ := hcode.first
    refine ⟨op, by rw [hops]; rfl, ?_, ?_⟩
    · exact (hentry id f' ((lookup_fst _).symm.trans hl) hf).symm.trans haddress.symm
    · exact hslot.trans hopslot.symm
  · intro op hop
    have hbreakpoints : b.takeInterrupt.breakpoints = a.breakpoints := (breakpoints_of_visible h.visible).symm
    exact ⟨hcode.current op hop, hbreakpoints ▸ hcode.unbroken hblocked hop, hcode.float op hop⟩

/-- The interpreter arrives where the fragment ends. -/
theorem arrives (h : Follows a b (a.loopExecutions n resumeAt ++ later))
    (hends : (loop n resumeAt a).1 ≠ none) (hb : b.cpu.breakout = none) {id : FragmentId} {f : Fragment}
    (hl : b.takeInterrupt.lookup.1 = some id) (hf : b.takeInterrupt.lookup.2.cache.store.get? id = some f) :
    Arrives n resumeAt a f.usesFloat
      (Fragment.runOps f.usesFloat f.ops 0 ⟨0, b.takeInterrupt.cpu.pc⟩ (entered b.takeInterrupt.tandem)) := by
  obtain ⟨-, habreast, hstay, hhere, hrun⟩ := h.entering hb hl hf
  have hT : b.cpu.Timed := (h.orderly.of_shown (shown_of_visible h.visible)).timed
  rw [runOps_entered hT f]
  exact habreast.fragment f.ops 0 n resumeAt a _ hstay hhere
    (fun op hop => (hrun op hop).mono (List.subset_append_left _ _)) hends

/-- A fragment. -/
theorem fragment (h : Follows a b (a.loopExecutions n resumeAt ++ later))
    (hends : (loop n resumeAt a).1 ≠ none) (hb : b.cpu.breakout = none) {id : FragmentId} {f : Fragment}
    (hl : b.takeInterrupt.lookup.1 = some id) (hf : b.takeInterrupt.lookup.2.cache.store.get? id = some f)
    {exit : FragmentExit} {t : Tandem}
    (he : Fragment.runOps f.usesFloat f.ops 0 ⟨0, b.takeInterrupt.cpu.pc⟩ (entered b.takeInterrupt.tandem) =
      (.ok exit, t)) :
    Keeps n resumeAt a later
      (none,
        { b.takeInterrupt.lookup.2.withTandem t with
          cache := b.takeInterrupt.lookup.2.cache.left id exit t }.drain) := by
  have harrives := h.arrives hends hb hl hf
  rw [he] at harrives
  cases harrives with
  | @exit _ _ n' a' hn hr hs =>
    have hsub : a'.loopExecutions n' none ++ later ⊆ a.loopExecutions n resumeAt ++ later :=
      List.append_subset.mpr ⟨List.Subset.trans hr.executions.subset (List.subset_append_left _ _),
        List.subset_append_right _ _⟩
    have hidle := (h.entering hb hl hf).1
    have hlook := (h.takeInterrupt.faithful.lookup b.takeInterrupt.cpu b.takeInterrupt.breakpoints).1.mono hsub
    let k : Machine := { b.takeInterrupt.lookup.2.withTandem t with
      cache := b.takeInterrupt.lookup.2.cache.left id exit t }
    obtain ⟨hfaithful, hpoised, hclean⟩ := drain_faithful (k := k) (hlook.left id exit t)
      (FragmentCache.poised_left hidle id exit t)
    refine .goes hn hr ⟨?_, hs.interprets, hs.orderly, hfaithful, hpoised, hclean⟩
    rw [visible_drain]
    exact hs.visible.trans (visible_withTandem_of_visible h.visible t t rfl rfl)

/-- A fragment with an operation that stops the machine. -/
theorem fragmentFatal (h : Follows a b (a.loopExecutions n resumeAt ++ later))
    (hends : (loop n resumeAt a).1 ≠ none) (hb : b.cpu.breakout = none) {id : FragmentId} {f : Fragment}
    (hl : b.takeInterrupt.lookup.1 = some id) (hf : b.takeInterrupt.lookup.2.cache.store.get? id = some f)
    {x : FatalError} {t : Tandem}
    (he : Fragment.runOps f.usesFloat f.ops 0 ⟨0, b.takeInterrupt.cpu.pc⟩ (entered b.takeInterrupt.tandem) =
      (.error x, t)) :
    Keeps n resumeAt a later
      (some (.error x),
        { b.takeInterrupt.lookup.2.withTandem t with
          cache :=
            { b.takeInterrupt.lookup.2.cache with
              store := b.takeInterrupt.lookup.2.cache.store.countRun id } }) := by
  have harrives := h.arrives hends hb hl hf
  rw [he] at harrives
  cases harrives with
  | fatal hloop hs hstay =>
    -- the run ends without a look at invalidations, but there are none
    have hidle := (h.entering hb hl hf).1
    have hlook := (h.takeInterrupt.faithful.lookup b.takeInterrupt.cpu b.takeInterrupt.breakpoints).1.mono
      (List.subset_append_right (a.loopExecutions n resumeAt) later)
    unfold Fragment.mustLeave at hstay
    simp only [Bool.or_eq_false_iff, Bool.not_eq_false', List.isEmpty_iff] at hstay
    refine .ends hloop ⟨?_, hs.interprets, hs.orderly, hlook.countRun id _, FragmentCache.poised_of_idle hidle,
      .inr ⟨hstay.1.1.2, hstay.1.2⟩⟩
    exact hs.visible.trans (visible_withTandem_of_visible h.visible t t rfl rfl)

/-! ### All turns -/

/-- **A turn of the recompiler** is turns of the interpreter. -/
theorem turn (h : Follows a b (a.loopExecutions (n + 1) resumeAt ++ later))
    (hstable : CodeStable (a.loopExecutions (n + 1) resumeAt ++ later))
    (hends : (loop (n + 1) resumeAt a).1 ≠ none) : Keeps (n + 1) resumeAt a later (b.turn resumeAt) := by
  have hturn := turn_spec b resumeAt
  generalize b.turnExecutions resumeAt = es at hturn
  generalize b.turn resumeAt = out at hturn ⊢
  cases hturn with
  | stop hb => exact h.stop hb
  | breakpoint hb hbp => exact h.breakpoint hb hbp
  | fatal hb hbp _ he => exact h.fatal hb hbp he
  | interpret hb hbp _ he => exact h.interpret hstable hb hbp he
  | fragmentFatal hb _ hl hf he => exact h.fragmentFatal hends hb hl hf he
  | fragment hb _ hl hf he => exact h.fragment hends hb hl hf he

end Follows

/-- **The recompiler's run ends where the interpreter's does**, with the same result and in no more turns. -/
theorem Follows.loop (n : Nat) :
    ∀ (limit : Nat) (resumeAt : Option UInt64) (a b : Machine) (later : List Execution), n ≤ limit →
      Follows a b (a.loopExecutions n resumeAt ++ later) → CodeStable (a.loopExecutions n resumeAt ++ later) →
      (loop n resumeAt a).1 ≠ none →
      (Machine.loop limit resumeAt b).1 = (Machine.loop n resumeAt a).1 ∧
        Follows (Machine.loop n resumeAt a).2 (Machine.loop limit resumeAt b).2 later := by
  -- a fragment is several turns of the interpreter at once
  induction n using Nat.strongRecOn with
  | ind n ih =>
    intro limit resumeAt a b later hlimit h hstable hends
    obtain ⟨n, rfl⟩ : ∃ k, n = k + 1 := by
      cases n with
      | zero => exact absurd rfl hends
      | succ k => exact ⟨k, rfl⟩
    obtain ⟨limit, rfl⟩ : ∃ k, limit = k + 1 := ⟨limit - 1, by omega⟩
    have hkeeps := h.turn hstable hends
    rcases hturn : b.turn resumeAt with ⟨r, b'⟩
    rw [hturn] at hkeeps
    cases hkeeps with
    | ends hloop hf =>
      rw [hloop, loop_of_some hturn]
      exact ⟨rfl, hf⟩
    | @goes n' a' _ hn hr hf =>
      have hstable' : CodeStable (a'.loopExecutions n' none ++ later) := by
        obtain ⟨earlier, hearlier⟩ := hr.executions
        exact hstable.suffix ⟨earlier, by rw [← List.append_assoc, hearlier]⟩
      rw [hr.loop] at hends ⊢
      rw [loop_of_none hturn]
      exact ih n' hn limit none a' b' later (by omega) hf hstable' hends

end Machine

end Vr4300
