import Vr4300.Proofs.Follows

/-!
# `Proofs.Rooted` — fragments that begin outside delay slots

A fragment is looked for outside delay slots only, and it executes nothing unless its first operation was
recorded outside one, too. `FragmentCache.Rooted` says that every fragment was. A recording that has begun
keeps its first operation; so all depends on the moment in which it begins. A run begins recordings outside
delay slots, and executes the next instruction at once (`Turn.rooted`). What is left to the host is not to
execute instructions in between (`FragmentCache.Poised`).

## Contents

* `FragmentCache.Rooted`, with one lemma for each operation of the cache;
* `Machine.Rooted`: along the turns of a run, and a run.
-/

namespace Vr4300

namespace FragmentCache

/-- **Fragments begin outside delay slots.** -/
structure Rooted (x : FragmentCache) : Prop where
  /-- The first operation of a fragment is in no delay slot. -/
  code : ∀ id f, x.store.get? id = some f → ∀ op, f.ops.head? = some op → op.inDelaySlot = false
  /-- The first instruction of the trace in progress is in none. -/
  trace : ∀ r, x.recorder = some r → ∀ op, r.reversed.getLast? = some op → op.inDelaySlot = false

/-- A cache that has nothing is rooted. -/
theorem rooted_of_empty {x : FragmentCache} (hstore : ∀ id, x.store.get? id = none)
    (hrecorder : x.recorder = none) : x.Rooted := by
  constructor
  · intro id f hf
    rw [hstore id] at hf
    cases hf
  · intro r hr
    rw [hrecorder] at hr
    cases hr

/-- The first operation of a fragment is the first instruction of its trace. -/
theorem head?_compile {r : Recorder} {op : FragmentOp}
    (h : (Fragment.compile r.entry r.reversed.reverse).ops.head? = some op) :
    ∃ first, r.reversed.getLast? = some first ∧ op.inDelaySlot = first.inDelaySlot := by
  change (r.reversed.reverse.map FragmentOp.ofRecorded).head? = some op at h
  rw [List.head?_map, List.head?_reverse, Option.map_eq_some_iff] at h
  obtain ⟨first, hfirst, rfl⟩ := h
  exact ⟨first, hfirst, rfl⟩

namespace Rooted

variable {x : FragmentCache}

/-- Fragments may be counted and linked. -/
theorem modify (h : x.Rooted) (id : FragmentId) (change : Fragment → Fragment)
    (hchange : ∀ f, (change f).ops = f.ops) (last : Option (FragmentId × Nat)) :
    ({ x with
        store := ⟨x.store.fragments.modify id change, x.store.fresh⟩
        lastExit := last } : FragmentCache).Rooted := by
  constructor
  · intro i g hg op hop
    obtain ⟨f, hf, rfl | rfl⟩ := get?_modify (s := x.store) hg
    · exact h.code i g hf op hop
    · rw [hchange] at hop
      exact h.code i f hf op hop
  · exact h.trace

theorem lookup (h : x.Rooted) (c : Cpu) (breakpoints : List UInt64) : (x.lookup c breakpoints).2.Rooted := by
  constructor
  · intro id g hg op hop
    obtain ⟨f, successors, hf, rfl⟩ := get?_lookup hg
    exact h.code id f hf op hop
  · intro r hr
    rw [(x.recorder_lookup c breakpoints).1] at hr
    exact h.trace r hr

theorem forget (h : x.Rooted) (entry : UInt64) : (x.forget entry).Rooted := by
  constructor
  · intro id f hf
    exact h.code id f (get?_forget hf)
  · intro r hr
    exact h.trace r (recorder_forget hr)

/-- **A landing** may start a recording, which is empty. -/
theorem countHit (h : x.Rooted) (pc : UInt64) : (x.countHit pc).Rooted := by
  unfold FragmentCache.countHit
  split
  · exact h
  dsimp only
  split
  · exact ⟨h.code, h.trace⟩
  refine ⟨h.code, ?_⟩
  intro r hr op hop
  obtain rfl := Option.some.inj hr
  cases hop

theorem left (h : x.Rooted) (id : FragmentId) (exit : FragmentExit) (t : Tandem) :
    (x.left id exit t).Rooted := by
  have hcount := h.modify id (fun f => { f with runs := f.runs + 1 }) (fun _ => rfl) (some (id, exit.index))
  unfold FragmentCache.left
  dsimp only
  split
  · exact hcount
  · exact hcount.countHit t.cpu.pc

/-- **The end of a recording**: its fragment begins where it began. -/
theorem close (h : x.Rooted) {r : Recorder}
    (hr : ∀ op, r.reversed.getLast? = some op → op.inDelaySlot = false) : (x.close r).2.Rooted := by
  unfold FragmentCache.close
  dsimp only
  split
  · exact ⟨h.code, fun _ hr => by cases hr⟩
  split
  · exact ⟨h.code, fun _ hr => by cases hr⟩
  refine ⟨?_, fun _ hr => by cases hr⟩
  intro id f hf op hop
  rcases get?_add hf with ⟨-, rfl⟩ | ⟨-, hf⟩
  · obtain ⟨first, hfirst, heq⟩ := head?_compile hop
    exact heq.trans (hr first hfirst)
  · exact h.code id f hf op hop

/-- **Looking at an instruction.** If a recording begins with it, it had better be in no delay slot. -/
theorem observe (h : x.Rooted) (c : Cpu) {retired : Retired}
    (hfirst : x.enabled = true → ∀ r, x.recorder = some r → r.reversed = [] → retired.inDelaySlot = false) :
    (x.observe c retired).2.Rooted := by
  unfold FragmentCache.observe
  split
  · exact h
  rename_i hon
  cases hrecorder : x.recorder with
  | none =>
    dsimp only
    split
    · exact h.countHit c.pc
    · exact h
  | some r =>
    dsimp only
    have hlonger : ∀ op, (⟨retired.address, retired.word, retired.inDelaySlot⟩ :: r.reversed).getLast? =
        some op → op.inDelaySlot = false := by
      intro op hop
      cases hempty : r.reversed with
      | nil =>
        rw [hempty] at hop
        obtain rfl := Option.some.inj hop
        exact hfirst (by simpa using hon) r hrecorder hempty
      | cons other rest =>
        rw [hempty, List.getLast?_cons_cons, ← hempty] at hop
        exact h.trace r hrecorder op hop
    split
    · exact h.close (h.trace r hrecorder)
    split
    · exact h.close hlonger
    refine ⟨h.code, ?_⟩
    intro r' hr'
    obtain rfl := Option.some.inj hr'
    exact hlonger

end Rooted

end FragmentCache

/-! ## Along the turns of a run -/

namespace Machine

/-- Fragments begin outside delay slots, and so will the trace that is about to begin. -/
structure Rooted (m : Machine) : Prop where
  /-- Fragments do. -/
  rooted : m.cache.Rooted
  /-- The next trace will. -/
  poised : m.cache.Poised m.cpu

variable {m : Machine}

theorem Rooted.drain (h : m.Rooted) : m.drain.Rooted := by
  obtain ⟨n, cache, heq, hrooted, hpoised⟩ := drain_eq (P := fun x => x.Rooted ∧ x.Poised m.cpu)
    (fun _ entry hx => ⟨hx.1.forget entry, hx.2.forget entry⟩) (m := m) ⟨h.rooted, h.poised⟩
  rw [heq]
  exact ⟨hrooted, hpoised.of_recorder rfl (fun _ => id) id⟩

theorem Rooted.takeInterrupt (h : m.Rooted) : m.takeInterrupt.Rooted :=
  ⟨h.rooted, h.poised.of_recorder rfl (fun _ => id) m.cpu.margin_takePending.2.2⟩

theorem Rooted.lookup (h : m.Rooted) : m.lookup.2.Rooted :=
  ⟨h.rooted.lookup m.cpu m.breakpoints, h.poised.lookup m.breakpoints⟩

/-- A fetch enters no delay slot. -/
theorem inDelaySlot_nextExecution (c : Cpu) : c.nextExecution.before.inDelaySlot = c.inDelaySlot := by
  obtain ⟨bus, h⟩ := c.exists_nextExecution_before
  rw [h]
  rfl

/-- **A turn** leaves fragments that begin outside delay slots. -/
theorem Turn.rooted {resumeAt : Option UInt64} {es : List Execution}
    {out : Option (Except FatalError Exit) × Machine} (ht : Turn m resumeAt es out) (h : m.Rooted) :
    out.2.Rooted := by
  have hlookup : m.takeInterrupt.lookup.2.Rooted := h.takeInterrupt.lookup
  cases ht with
  | stop _ => exact ⟨h.rooted, h.poised.of_recorder rfl (fun _ => id) id⟩
  | breakpoint _ _ => exact ⟨h.takeInterrupt.rooted, h.takeInterrupt.poised⟩
  | @fatal _ _ _ _ cpu he =>
    refine ⟨hlookup.rooted, hlookup.poised.of_recorder rfl (fun _ => id) ?_⟩
    intro hslot
    show cpu.inDelaySlot = false
    rw [Execution.eq_before_of_error he, inDelaySlot_nextExecution]
    exact hslot
  | @interpret _ _ _ retired cpu he =>
    let k := m.takeInterrupt.lookup.2.withTandem (interpreted cpu m.tandem.vector)
    refine Rooted.drain (m := k.observe retired) ⟨?_, ?_⟩
    · refine FragmentCache.Rooted.observe (x := k.cache) hlookup.rooted k.cpu ?_
      intro hon r hr hempty
      rw [Execution.retired_eq he]
      exact (inDelaySlot_nextExecution _).trans (hlookup.poised hon r hr hempty)
    · refine (FragmentCache.poised_observe k.cache k.cpu retired).of_recorder rfl (fun _ => id) ?_
      intro hslot
      rw [inDelaySlot_observe]
      exact hslot
  | @fragmentFatal _ _ id hl _ _ _ _ _ =>
    refine ⟨?_, FragmentCache.poised_of_idle (FragmentCache.recorder_lookup_of_some ((lookup_fst _).symm.trans hl))⟩
    exact hlookup.rooted.modify id (fun f => { f with runs := f.runs + 1 }) (fun _ => rfl)
      m.takeInterrupt.lookup.2.cache.lastExit
  | @fragment _ _ id hl _ _ exit t _ =>
    refine Rooted.drain ⟨hlookup.rooted.left id exit t, ?_⟩
    exact FragmentCache.poised_left (FragmentCache.recorder_lookup_of_some ((lookup_fst _).symm.trans hl)) id exit t

/-- **Turns**, likewise. -/
theorem Rooted.loop (h : m.Rooted) (n : Nat) (resumeAt : Option UInt64) : (loop n resumeAt m).2.Rooted :=
  loop_preserves (P := Rooted) (fun r m hm => (turn_spec m r).rooted hm) n resumeAt h

/-- A deadline is set outside delay slots, if the machine is outside them. -/
theorem Rooted.prepare (h : m.Rooted) (budget : UInt64) : (m.prepare budget).Rooted := by
  refine ⟨h.rooted, h.poised.of_recorder rfl (fun _ => id) ?_⟩
  intro hslot
  show (m.cpu.schedule _ _ _).inDelaySlot = false
  unfold Cpu.schedule
  split <;> exact hslot

end Machine

end Vr4300
