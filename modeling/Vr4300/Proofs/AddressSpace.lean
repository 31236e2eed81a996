import Vr4300.Proofs.MappedCode
import Vr4300.Proofs.Recorded

/-!
# `Proofs.AddressSpace` — fragments and the address space that they were recorded in

A fragment is found by a virtual address. In an unmapped window the address says where the code is; elsewhere
that is decided by the TLB and by the address space in EntryHi, and a program can change the address space
without a note that the machine would look at. So an operation of a fragment is what a fetch finds at its
address, as long as no instruction is overwritten and the TLB and the address space are what they were when it
was recorded (`executed_as_fetched`). When the address space has changed, a fragment goes on where a fetch would
raise an exception (`executed_elsewhere`).

## Contents

* `Execution.AsFetched`, `Execution.Unwritten`: an instruction was fetched, and is still where it was fetched from;
* `Cpu.resolve_congr`: what decides where an address leads;
* `ramSize_served`, `origin_served`: along calls;
* `FetchedOrMoved`, `executed_as_fetched`, and `switching`: a loop that leaves its address space.
-/

namespace Vr4300

namespace Execution

/-- What is executed is what was fetched: the word, or the exception that was raised in place of one. Or it is what a
fetch finds at the address. -/
def AsFetched (e : Execution) : Prop :=
  e.Fetched ∨ (e.before.fetch e.before.pc).1 = .ok e.word ∨
    e.word = 0 ∧ ∃ (c : Cpu) (t : Trap), c.pc = e.before.pc ∧ c.fetch c.pc = (.error t, e.before) ∧
      e.planned = .error (.trap t)

/-- Where the address of the instruction leads, its word is read when another one is executed. -/
def Keeps (e e' : Execution) : Prop :=
  ∀ l, e.before.resolve .word .fetch e.before.pc = .ok l → (e'.before.readAt .word l).1.toUInt32 = e.word

instance (e e' : Execution) : Decidable (e.Keeps e') :=
  match h : e.before.resolve .word .fetch e.before.pc with
  | .error _ => .isTrue fun _ hl => by rw [h] at hl; cases hl
  | .ok l =>
    decidable_of_iff ((e'.before.readAt .word l).1.toUInt32 = e.word)
      ⟨fun hr l' hl => by rw [← Except.ok.inj (h.symm.trans hl)]; exact hr, fun hu => hu l h⟩

/-- Where the instruction was fetched from, its word is still read when another one is executed. -/
def Unwritten (e e' : Execution) : Prop := e.Fetched → e.Keeps e'

end Execution

namespace Cpu

/-- **Where an address leads** is decided by the size of main memory and, unless it is unmapped, by the TLB and
the address space. -/
theorem resolve_congr {a b : Cpu} {address : UInt64} (hram : a.ram.size = b.ram.size)
    (h : (Address.segment address).isMapped = true → a.tlb = b.tlb ∧ a.asid = b.asid) (w : Width) (access : Access) :
    a.resolve w access address = b.resolve w access address := by
  have hphysical : a.tlb.physical address access a.asid = b.tlb.physical address access b.asid := by
    cases hm : (Address.segment address).isMapped with
    | true => rw [(h hm).1, (h hm).2]
    | false =>
      unfold Tlb.physical Address.unmappedPhysical?
      rw [hm, if_neg Bool.false_ne_true]
  unfold resolve
  rw [hram, hphysical]

/-- What is fetched is what is read where the address leads. -/
theorem fetch_fst (c : Cpu) (address : UInt64) :
    (c.fetch address).1 =
      (c.resolve .word .fetch address).map fun l => (c.readAt .word l).1.toUInt32 := by
  unfold fetch
  cases c.resolve .word .fetch address <;> rfl

end Cpu

/-- What is fetched has a place. -/
theorem Execution.Fetched.exists_location {e : Execution} (h : e.Fetched) :
    ∃ l, e.before.resolve .word .fetch e.before.pc = .ok l := by
  obtain ⟨c, hpc, hfetch⟩ := h
  have hfst := c.fetch_fst c.pc
  obtain ⟨bus, hsnd⟩ := c.fetch_snd c.pc
  rw [hfetch] at hfst hsnd
  have hresolve : e.before.resolve .word .fetch e.before.pc = c.resolve .word .fetch c.pc := by
    rw [← hpc, show e.before = { c with bus := bus } from hsnd]
    rfl
  rw [hresolve]
  cases hr : c.resolve .word .fetch c.pc with
  | error t => rw [hr] at hfst; cases hfst
  | ok l => exact ⟨l, rfl⟩

/-- **An instruction that was fetched before** is fetched again, if nothing was overwritten and its address leads
to the same place. -/
theorem Execution.Fetched.again {e e' : Execution} (h : e.Fetched) (hu : e.Unwritten e')
    (hresolve : e'.before.resolve .word .fetch e.before.pc = e.before.resolve .word .fetch e.before.pc) :
    (e'.before.fetch e.before.pc).1 = .ok e.word := by
  obtain ⟨l, hl⟩ := h.exists_location
  rw [Cpu.fetch_fst, hresolve, hl]
  exact congrArg Except.ok (hu h l hl)

/-! ## The size of main memory -/

/-- Nothing is due, and main memory has a size. -/
structure Cpu.Sized (c : Cpu) (size : Nat) : Prop where
  /-- Nothing is due. -/
  timed : c.Timed
  /-- Main memory has the size. -/
  ramSize : c.ram.size = size

namespace Cpu.Sized

variable {c c' : Cpu} {size : Nat}

theorem quiet (h : c.Sized size) (hq : Quiet c c') : c'.Sized size := by
  refine ⟨hq.timed h.timed, ?_⟩
  rw [← h.ramSize]
  cases hq with
  | sample => rfl
  | interrupt => exact congrArg Surround.ramSize (surround_takeException c .interrupt c.inDelaySlot)
  | outside => rfl

theorem retire (h : c.Sized size) : c.retire.Sized size :=
  ⟨h.timed.retire, Timed.advance_one_rule (P := fun s => s.ram.size = size)
    (c := { c with opsExecuted := c.opsExecuted + 1 }) (h.timed.of_events rfl) h.ramSize
    (fun s rest hs hdue => by rw [compareMatched_eq _ hdue.free]; exact hs) (fun _ _ hs _ => hs)⟩

theorem execute {e : Execution} (h : e.before.Sized size) : e.after.Sized size := by
  refine ⟨Execution.timed_after h.timed, ?_⟩
  rw [e.after_eq]
  cases hw : e.worked with
  | none => exact h.ramSize
  | some b =>
    have hb : b.Sized size :=
      ⟨Execution.timed_worked hw h.timed,
        (congrArg Surround.ramSize (Execution.surround_worked hw)).trans h.ramSize⟩
    dsimp only
    split
    · rw [skipIdle_eq]
      split <;> exact hb.retire.ramSize
    · exact hb.retire.ramSize

end Cpu.Sized

namespace Machine

variable {m : Machine}

/-- **A run** leaves the size of main memory, at each instruction and at its end. -/
theorem ramSize_run {past : List TimerEvent} (h : m.AtRest past) (budget : UInt64) :
    (∀ e ∈ m.executions budget, e.before.ram.size = m.cpu.ram.size) ∧
      (m.run budget).2.cpu.ram.size = m.cpu.ram.size := by
  rcases eq_or_ne budget 0 with rfl | h0
  · rw [run_zero, executions_zero]
    exact ⟨fun e he => absurd he List.not_mem_nil, rfl⟩
  · obtain ⟨c, c', hchain, hends, hcpu⟩ := run_chain h0 h.ticking.timed h.free
    have hstart : (m.prepare budget).cpu.Sized m.cpu.ram.size :=
      ⟨timed_prepare h0 h.ticking.timed h.free, by rw [cpu_prepare h0 h.free]⟩
    have hend := hchain.preserves (P := fun c => c.Sized m.cpu.ram.size) (fun _ _ hq hc => hc.quiet hq)
      (fun _ _ hc => hc.execute) hstart
    refine ⟨?_, ?_⟩
    · intro e he
      exact (hchain.before (P := fun c => c.Sized m.cpu.ram.size) (fun _ _ hq hc => hc.quiet hq)
        (fun _ hc => hc.execute) hstart e he).ramSize
    · rw [hcpu]
      exact (hends.same (fun c => c.ram.size) fun _ => rfl).trans hend.ramSize

/-- **Calls**, likewise. -/
theorem ramSize_served (calls : List Call) :
    ∀ {m : Machine} {past : List TimerEvent}, m.AtRest past →
      ∀ e ∈ m.served calls, e.before.ram.size = m.cpu.ram.size := by
  induction calls with
  | nil => intro m past _ e he; cases he
  | cons call rest ih =>
    intro m past h e he
    cases call with
    | run budget =>
      obtain ⟨hrun, hend⟩ := ramSize_run h budget
      rcases List.mem_append.mp he with he | he
      · exact hrun e he
      · exact (ih (atRest_run h budget).1 e he).trans hend
    | requestHalt => exact ih (atRest_perform h .requestHalt).1 e he

/-- **Each instruction that calls execute** has an origin in what was executed before. -/
theorem origin_served (calls : List Call) :
    ∀ {m : Machine} {past : List Execution}, m.cache.Records (·.Met past) →
      ∀ earlier e later, m.served calls = earlier ++ e :: later →
        ∃ resumeAt, Origin m.breakpoints resumeAt (past ++ earlier) e := by
  induction calls with
  | nil =>
    intro m past _ earlier e later heq
    cases List.append_eq_nil_iff.mp heq.symm |>.2
  | cons call rest ih =>
    intro m past h earlier e later heq
    cases call with
    | run budget =>
      obtain ⟨horigins, hrecords, hbreakpoints⟩ := run_origins h budget
      rcases split_append_cons heq with ⟨between, hrun⟩ | ⟨between, rfl, hrest⟩
      · exact ⟨_, horigins earlier e between hrun⟩
      · obtain ⟨resumeAt, horigin⟩ := ih hrecords between e later hrest
        rw [hbreakpoints, List.append_assoc] at horigin
        exact ⟨resumeAt, horigin⟩
    | requestHalt => exact ih (m := m.requestHalt) h earlier e later heq

end Machine

/-! ## Fragments follow the code -/

/-- Each instruction is as fetched; or at a mapped address it is what was fetched before, when the TLB or the address
space was another one. -/
def FetchedOrMoved (es : List Execution) : Prop :=
  ∀ earlier e later, es = earlier ++ e :: later →
    e.AsFetched ∨
      (Address.segment e.before.pc).isMapped = true ∧
        ∃ e' ∈ earlier, e'.before.pc = e.before.pc ∧ e'.word = e.word ∧ e'.Fetched ∧
          (e'.before.tlb ≠ e.before.tlb ∨ e'.before.asid ≠ e.before.asid)

/-- **What is executed is what a fetch finds**, as long as no executed instruction is overwritten, and as long as
mapped addresses keep their meaning: with any settings of the recompiler and any calls, from any state that a host
can reach, with nothing learned yet. -/
theorem executed_as_fetched (config : Configuration) (bus : Bus) (vector : VectorUnit) (past : List HostAction)
    (s : RecompilerSettings) (calls : List Call)
    (hunwritten : ((((Machine.create config bus vector).performAll past).withRecompiler s).served calls).Pairwise
      Execution.Unwritten) :
    FetchedOrMoved ((((Machine.create config bus vector).performAll past).withRecompiler s).served calls) := by
  intro earlier e later heq
  let m := ((Machine.create config bus vector).performAll past).withRecompiler s
  have hrest : m.AtRest _ := { (Machine.atRest_of_actions config bus vector past).1 with }
  have hempty : m.cache.Records (·.Met []) := .of_empty (FragmentCache.get?_create s) rfl
  have hsize := Machine.ramSize_served calls hrest
  obtain ⟨_, horigin⟩ := Machine.origin_served calls hempty earlier e later heq
  rw [heq] at hunwritten hsize
  cases horigin with
  | interpreted c _ =>
    exact .inl (c.fetched_nextExecution.imp_right fun ⟨hword, t, hfetch, hplanned⟩ =>
      .inr ⟨hword, c, t, c.pc_nextExecution.symm, hfetch, hplanned⟩)
  | fragment f op c hop hpc hmade _ =>
    obtain ⟨e', he', hpc', hword, hfetched⟩ := hmade.ops op hop
    rw [List.nil_append] at he'
    have hsame : e'.before.pc = c.pc := hpc'.trans hpc.symm
    have hu : e'.Unwritten (Fragment.execution op c) :=
      (List.pairwise_append.mp hunwritten).2.2 e' he' _ List.mem_cons_self
    -- either the address leads where it led, or the translation has changed
    by_cases hspace : (Address.segment c.pc).isMapped = true →
        c.tlb = e'.before.tlb ∧ c.asid = e'.before.asid
    · refine .inl (.inr (.inl ?_))
      have hram : c.ram.size = e'.before.ram.size :=
        (hsize (Fragment.execution op c) (by simp)).trans (hsize e' (by simp [he'])).symm
      have hagain := hfetched.again hu (Cpu.resolve_congr (b := e'.before) hram (hsame ▸ hspace) _ _)
      rw [hsame, hword] at hagain
      exact hagain
    · rw [Classical.not_imp, not_and_or] at hspace
      refine .inr ⟨hspace.1, e', he', hsame, hword, hfetched, ?_⟩
      exact hspace.2.imp Ne.symm Ne.symm

/-- Writes a TLB entry. -/
def Edit.setTlbEntry (i : TlbIndex) (entry : TlbEntry) : Edit where
  perform m := m.onCpu fun c => { c with tlb := c.tlb.set i entry }
  events _ := rfl
  timing _ := rfl
  gated _ h := h

/-- What the host does: it maps a page for address space one, enters that address space, and loads a loop into
the page. The third time around, the loop leaves the address space. -/
def leaving : List HostAction :=
  [.edit (.setTlbEntry 0 (.ofRegisters 0 1 2 0)), .writeControl Control.entryHi 1,
    .edit (.loadProgram 32 [0x24420001, 0x2C410003, 0x40815000, 0x1000FFFC, 0])]

/-- A machine in front of the loop, with a recompiler that records at each landing. -/
def switching : Machine :=
  ((Machine.create { general := { startPc := 32 }, memory := { ramSize := 64 } } {} {}).performAll
    leaving).withRecompiler { hotThreshold := 0 }

/-- Nothing is overwritten in it. -/
theorem unwritten_switching : (switching.served [.run 16]).Pairwise Execution.Unwritten := by
  have hkept : (switching.served [.run 16]).Pairwise Execution.Keeps := by decide +kernel
  exact hkept.imp (S := Execution.Unwritten) fun h _ => h

/-- The loop runs as a fragment. -/
theorem executed_as_fetched_switching :
    (switching.run 16).2.cpu.statistics.fragmentRuns ≠ 0 ∧
      (switching.served [.run 16]).Pairwise Execution.Unwritten ∧
      FetchedOrMoved (switching.served [.run 16]) :=
  ⟨by decide +kernel, unwritten_switching,
    executed_as_fetched _ _ _ leaving { hotThreshold := 0 } [.run 16] unwritten_switching⟩

/-- **An instruction of another address space.** Nothing is overwritten and no TLB entry is written. The branch of
the loop is executed from the fragment behind the instruction that leaves the address space, where a fetch would
raise an exception. -/
theorem executed_elsewhere :
    (switching.served [.run 16]).Pairwise Execution.Unwritten ∧
      (∀ e ∈ switching.served [.run 16], e.writesTlb = false) ∧
      ∃ e ∈ switching.served [.run 16], e.before.pc = 0x2C ∧ e.word = 0x1000FFFC ∧
        (e.before.fetch e.before.pc).1 = .error (.tlbInvalidLoad 0x2C) ∧
        e.outcome.1 = .ok ⟨0x2C, 0x1000FFFC, false, false⟩ :=
  ⟨unwritten_switching, by decide +kernel, by decide +kernel⟩

end Vr4300
