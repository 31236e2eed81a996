import Vr4300.Proofs.Notes
import Vr4300.Proofs.Overwriting
import Vr4300.Proofs.Progress

/-!
# `Proofs.MappedCode` — what a TLB write drops

An instruction that writes a TLB entry leaves a note, and behind the instruction the machine looks at it: a
fragment is left at once, and what the cache has for mapped addresses is forgotten. An address is what a trace
was entered at, and a trace may go on across segments. So behind a TLB write no fragment and no trace in progress
is left that was entered at a mapped address (`tlb_write_drops_entered`); one that was entered through an unmapped
window stays, with the mapped instructions that it went on to (`mapped_code_stays`).

## Contents

* `Execution.writesTlb`, `tlbDirty_after`: the note that a TLB write leaves;
* `FragmentCache.Unmapped`: what was entered through an unmapped window, and `unmapped_invalidateMapped`;
* `Operation.Orderly`: between runs nothing is due and there is no deadline;
* `Machine.Turn.unmapped`, `tlb_write_drops_entered`;
* `crossing`: a loop that crosses segments, entered at either side.
-/

namespace Vr4300

/-! ## The note of a TLB write -/

/-- The instruction writes a TLB entry. -/
def Execution.writesTlb (e : Execution) : Bool :=
  match e.planned with
  | .ok ⟨.tlbEntry _ _, _⟩ => true
  | _ => false

namespace Execution

variable {e : Execution}

theorem exists_of_writesTlb (h : e.writesTlb = true) : ∃ i entry flow, e.planned = .ok ⟨.tlbEntry i entry, flow⟩ := by
  unfold writesTlb at h
  split at h
  · rename_i i entry flow hplanned
    exact ⟨i, entry, flow, hplanned⟩
  · cases h

theorem leavesNote_of_writesTlb (h : e.writesTlb = true) : e.leavesNote = true := by
  obtain ⟨i, entry, flow, hplanned⟩ := exists_of_writesTlb h
  unfold leavesNote
  rw [hplanned]
  rfl

/-- It leaves the note. -/
theorem tlbDirty_after (h : e.writesTlb = true) : e.after.tlbDirty = true := by
  obtain ⟨i, entry, flow, hplanned⟩ := exists_of_writesTlb h
  exact (Prod.mk.inj (notes_after hplanned)).2

end Execution

/-! ## What was entered through an unmapped window -/

namespace FragmentCache

/-- **Everything was entered through an unmapped window.** -/
structure Unmapped (x : FragmentCache) : Prop where
  /-- The cache has something for unmapped addresses only. -/
  entries : ∀ k s, x.entries[k]? = some s → (Address.segment k).isMapped = false
  /-- The first operation of a fragment is at one, and it is entered there. -/
  code : ∀ id f, x.store.get? id = some f →
    ∃ op rest, f.ops = op :: rest ∧ op.address = f.entry ∧ (Address.segment op.address).isMapped = false
  /-- So is the first instruction of the trace in progress. -/
  trace : ∀ r, x.recorder = some r → (Address.segment r.entry).isMapped = false ∧
    ∀ op, r.reversed.getLast? = some op → op.address = r.entry
  /-- Nothing else is indexed. -/
  indexed : ∀ line k, k ∈ x.index.entriesOf line → (Address.segment k).isMapped = false

/-- The parts of a cache agree, so that it is enough to look at the addresses that it has something for. -/
theorem Consistent.unmapped {x : FragmentCache} {limit : Nat} (h : x.Consistent limit)
    (hentries : ∀ k s, x.entries[k]? = some s → (Address.segment k).isMapped = false) : x.Unmapped := by
  refine ⟨hentries, ?_, ?_, ?_⟩
  · intro id f hf
    obtain ⟨op, rest, hops, haddress⟩ := (h.formed hf).first
    exact ⟨op, rest, hops, haddress, haddress ▸ hentries _ _ (h.stored id f hf)⟩
  · intro r hr
    exact ⟨hentries _ _ ((h.recording r.entry).mpr ⟨r, hr, rfl⟩), (h.trace r hr).1.first⟩
  · intro line k hk
    obtain ⟨id, hid⟩ := h.indexed line k hk
    exact hentries k _ hid

/-- What is left when addresses are forgotten is what the other addresses have. -/
theorem entries_forgetAll_iff (entries : List UInt64) :
    ∀ {x : FragmentCache} {k : UInt64} {s : FragmentState},
      (x.forgetAll entries).2.entries[k]? = some s ↔ x.entries[k]? = some s ∧ k ∉ entries := by
  induction entries with
  | nil => intro x k s; simp [forgetAll]
  | cons entry rest ih =>
    intro x k s
    show ((x.forget entry).forgetAll rest).2.entries[k]? = some s ↔ _
    rw [ih, (x.forget_parts entry).1, getElem?_erase_eq_some_iff, List.mem_cons, not_or]
    tauto

/-- **Forgetting what is mapped** leaves what was entered through an unmapped window. -/
theorem unmapped_invalidateMapped {x : FragmentCache} {limit : Nat} (h : x.Consistent limit) :
    x.invalidateMapped.2.Unmapped := by
  have hconsistent : x.invalidateMapped.2.Consistent limit :=
    forgetAll_preserves (P := (·.Consistent limit)) (fun _ entry hx => hx.forget entry) h _
  refine hconsistent.unmapped fun k s hk => ?_
  obtain ⟨hold, hkept⟩ := (entries_forgetAll_iff _).mp hk
  by_contra hmapped
  have hmem : k ∈ x.entries := by
    rw [← Std.TreeMap.isSome_getElem?_iff_mem, hold]
    rfl
  refine hkept (List.mem_filter.mpr ⟨Std.TreeMap.mem_keys.mpr hmem, ?_⟩)
  simpa using hmapped

end FragmentCache

namespace Machine

variable {m : Machine} {limit : Nat}

/-- **The machine looks at the note.** -/
theorem unmapped_drain (h : m.cache.Consistent limit) (hdirty : m.cpu.tlbDirty = true) : m.drain.cache.Unmapped := by
  unfold drain
  dsimp only
  rw [hdirty, if_neg (by simp), if_pos rfl]
  obtain ⟨n, cache, heq, hcache⟩ :=
    foldl_invalidateCode_eq (P := (·.Consistent limit)) (fun _ entry hx => hx.forget entry)
      m.cpu.codeInvalidations (k := m.onCpu fun c => { c with codeInvalidations := [], tlbDirty := false }) h
  rw [heq]
  exact FragmentCache.unmapped_invalidateMapped hcache

/-- **A turn with a TLB write** goes on, and leaves only what was entered through an unmapped window. -/
theorem Turn.unmapped {resumeAt : Option UInt64} {es : List Execution}
    {out : Option (Except FatalError Exit) × Machine} (ht : Turn m resumeAt es out) (hT : m.cpu.Timed)
    (h : m.cache.Consistent limit) {e : Execution} (he : e ∈ es) (hw : e.writesTlb = true) :
    out.1 = none ∧ out.2.cache.Unmapped := by
  obtain ⟨hout, k, hk, hnotes, hconsistent⟩ := ht.noted hT h he (Execution.leavesNote_of_writesTlb hw)
  have hdirty : k.cpu.tlbDirty = true := (Prod.mk.inj hnotes).2.trans (Execution.tlbDirty_after hw)
  exact ⟨hout, hk ▸ unmapped_drain hconsistent hdirty⟩

end Machine

/-! ## Between runs -/

/-- Nothing is due, and there is no deadline. -/
structure Cpu.Free (c : Cpu) : Prop where
  /-- Nothing is due. -/
  timed : c.Timed
  /-- There is no deadline. -/
  unbounded : c.deadline? = none

/-- A change of the processor from outside leaves the events alone. -/
def Operation.Orderly : Operation → Prop
  | changeProcessor change => ∀ c : Cpu, c.Free → (change c).Free
  | _ => True

namespace Machine

variable {m : Machine}

theorem free_of_events {c c' : Cpu} (h : c.Free) (he : c'.events = c.events) : c'.Free :=
  ⟨h.timed.of_events he, by unfold Cpu.deadline?; rw [he]; exact h.unbounded⟩

/-- A chain in which nothing is executed. -/
theorem free_of_chain {c c' : Cpu} (h : c.Free) (hchain : Chain c [] c') : c'.Free :=
  ⟨hchain.timed h.timed, (hchain.deadline?_nil rfl).trans h.unbounded⟩

theorem free_run (h : m.cpu.Free) (budget : UInt64) : (m.run budget).2.cpu.Free := by
  rcases eq_or_ne budget 0 with rfl | h0
  · rw [run_zero]
    exact h
  · obtain ⟨c, c', hchain, hends, hcpu⟩ := run_chain h0 h.timed h.unbounded
    obtain ⟨htimed, hfree⟩ := timed_finish (hends.timed (hchain.timed (timed_prepare h0 h.timed h.unbounded)))
    rw [hcpu]
    exact ⟨htimed, hfree⟩

theorem free_step (h : m.cpu.Free) : m.step.2.cpu.Free := by
  have htake : m.takeInterrupt.cpu.Free := free_of_chain h m.cpu.chain_takePending
  have hbefore := free_of_events htake (Cpu.quiet_nextExecution m.takeInterrupt.cpu).events
  exact free_of_chain ⟨Execution.timed_after hbefore.timed,
    Execution.deadline?_after_of_none hbefore.timed hbefore.unbounded⟩ m.chain_step

/-- **Every operation** leaves nothing due and no deadline. -/
theorem free_perform (h : m.cpu.Free) {o : Operation} (ho : o.Orderly) : (o.perform m).cpu.Free := by
  cases o with
  | run budget => exact free_run h budget
  | step => exact free_step h
  | reset => exact ⟨(Cpu.ticking_reset m.cpu []).timed, deadline?_reset m.cpu⟩
  | drain => exact free_of_chain h (chain_drain m)
  | changeProcessor change => exact ho m.cpu h
  | _ => exact free_of_events h rfl

theorem free_operate (operations : List Operation) :
    ∀ {m : Machine}, m.cpu.Free → (∀ o ∈ operations, o.Orderly) → (m.operate operations).cpu.Free := by
  induction operations with
  | nil => intro m h _; exact h
  | cons o rest ih =>
    intro m h horderly
    exact ih (free_perform h (horderly o List.mem_cons_self)) fun o ho => horderly o (List.mem_cons_of_mem _ ho)

end Machine

/-! ## Behind a TLB write -/

/-- **A TLB write drops what was entered at mapped addresses**, whatever was done to the machine before, and
after any number of turns of a run. The run goes on behind it; and what the cache has then, it has for unmapped
addresses, at which each fragment and the trace in progress begin. -/
theorem tlb_write_drops_entered (config : Configuration) (bus : Bus) (vector : VectorUnit)
    (operations : List Operation) (horderly : ∀ o ∈ operations, o.Orderly) (budget : UInt64) (h0 : budget ≠ 0)
    (turns : Nat) (resumeAt : Option UInt64) :
    let k := (Machine.create config bus vector).operate operations
    let m := (Machine.loop turns k.resumeAt (k.prepare budget)).2
    (m.turnExecutions resumeAt).any Execution.writesTlb = true →
      (m.turn resumeAt).1 = none ∧ (m.turn resumeAt).2.cache.Unmapped := by
  intro k m hany
  obtain ⟨e, he, hw⟩ := List.any_eq_true.mp hany
  have hcreate := Machine.atRest_create config bus vector
  have hk : k.cpu.Free := Machine.free_operate operations ⟨hcreate.ticking.timed, hcreate.free⟩ horderly
  obtain ⟨c, hchain, hends⟩ := Machine.loop_chain turns k.resumeAt (k.prepare budget)
    (Machine.timed_prepare h0 hk.timed hk.unbounded)
  have hT : m.cpu.Timed := hends.timed (hchain.timed (Machine.timed_prepare h0 hk.timed hk.unbounded))
  have hconsistent : k.cache.Consistent (max 1 config.recompiler.maxFragmentOps.toNat) :=
    Machine.consistent_operate operations (FragmentCache.Consistent.create config.recompiler)
  exact (Machine.turn_spec m resumeAt).unmapped hT
    (Machine.consistent_loop (m := k.prepare budget) turns k.resumeAt hconsistent) he hw

/-- A machine with main memory alone, in which each landing starts a recording. -/
def barren : Machine :=
  Machine.create { memory := { ramSize := 32 }, recompiler := { hotThreshold := 0 } } {} {}

/-- It is taken around a loop through `kseg0` and a page that the TLB maps to the same memory, from an address
on. The fragment of the loop is entered at the first landing. Then the processor is made to leave the loop for
an instruction that writes a TLB entry. -/
def crossing (startPc : UInt64) : List Operation :=
  [.changeProcessor fun c =>
      { c with
        pc := startPc
        tlb := c.tlb.set 0 (.ofRegisters 0 0 2 1)
        regs := (c.regs.set 2 0x14).set 3 0xFFFFFFFF80000004 },
    .loadProgram 4 [0x00400008, 0x24210001, 0x42000002, 0, 0x00600008, 0],
    .run 10,
    .changeProcessor fun c => { c with regs := c.regs.set 2 0xFFFFFFFF8000000C }]

theorem orderly_crossing (startPc : UInt64) : ∀ o ∈ crossing startPc, o.Orderly := by
  intro o ho
  simp only [crossing, List.mem_cons, List.not_mem_nil, or_false] at ho
  rcases ho with rfl | rfl | rfl | rfl
  · exact fun c h => Machine.free_of_events h rfl
  · trivial
  · trivial
  · exact fun c h => Machine.free_of_events h rfl

/-- If the fragment is entered in the page, it is dropped behind the TLB write, which comes in the second turn. -/
theorem tlb_write_drops_entered_crossing :
    let k := barren.operate (crossing 0xFFFFFFFF80000004)
    let m := (Machine.loop 1 k.resumeAt (k.prepare 7)).2
    (m.compiledWords 0x14).map Prod.fst = [0x14, 0x18, 0xFFFFFFFF80000004, 0xFFFFFFFF80000008] ∧
      (m.turnExecutions none).any Execution.writesTlb = true ∧
      (m.turn none).1 = none ∧ (m.turn none).2.cache.Unmapped :=
  ⟨by decide +kernel, by decide +kernel,
    tlb_write_drops_entered _ _ _ (crossing 0xFFFFFFFF80000004) (orderly_crossing _) 7 (by decide) 1 none
      (by decide +kernel)⟩

/-- **A fragment that goes on to mapped code.** If it is entered in `kseg0`, the fragment stays behind the TLB
write, with the instructions in the page. -/
theorem mapped_code_stays :
    let k := barren.operate (crossing 0x14)
    let m := (Machine.loop 1 k.resumeAt (k.prepare 7)).2
    (m.turnExecutions none).any Execution.writesTlb = true ∧
      ((m.turn none).2.compiledWords 0xFFFFFFFF80000004).map Prod.fst =
        [0xFFFFFFFF80000004, 0xFFFFFFFF80000008, 0x14, 0x18] ∧
      (Address.segment 0x14).isMapped = true := by
  decide +kernel

end Vr4300
