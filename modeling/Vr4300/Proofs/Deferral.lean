import Vr4300.Proofs.Execution

/-!
# `Proofs.Deferral` — deferred instructions, accounted for at once

A fragment does not account for trivial instructions one by one: it remembers their number and settles
the account before anything can look. `Fragment.runEach` is the same loop without the postponement. The
main statement, `runOps_eq_runEach`, is that nobody can tell the difference: the deferred loop ends as the
plain one does from the state in which the account is settled.

The invariant is `Deferred.Sound`: the deferred cycles reach no event, so settling the account is a quiet
passage of time (`flush_eq`), and quiet passages commute with everything that a trivial
instruction, the vector unit and the sampling of the line do.

## Contents

* `trivial_spec`: what a trivial instruction does;
* `Cpu.account`: a quiet passage of time behind executed instructions;
* `Deferred.Sound`, `execute_deferred`: one deferred instruction is one executed instruction;
* `Fragment.runEach`, `runOps_eq_runEach`, `runOps_eq_runEach_of_ahead`.
-/

namespace Vr4300

/-! ## Trivial instructions -/

/-- The plan of a trivial instruction depends on the general registers and the multiply/divide pair. -/
theorem plan_congr_of_trivial {i : Instruction} (h : i.kind = .trivial) {c c' : Cpu}
    (hr : c'.regs = c.regs) (hh : c'.hilo = c.hilo) : c'.plan i = c.plan i := by
  cases i with
  | shift op rd rt amount =>
    have hamount : c'.shiftAmount amount = c.shiftAmount amount := by
      cases amount with
      | constant n => rfl
      | register rs => show (c'.regs.get rs).toUInt32 = (c.regs.get rs).toUInt32; rw [hr]
    simp only [Cpu.plan, hr, hamount]
  | readHiLo half rd => cases half <;> simp only [Cpu.plan, hh]
  | writeHiLo half rs => cases half <;> simp only [Cpu.plan, hr, hh]
  | immediate | register | multiply | sync => simp only [Cpu.plan, hr]
  | load op rt base offset => cases op <;> exact absurd h (by simp [Instruction.kind])
  | store op rt base offset => cases op <;> exact absurd h (by simp [Instruction.kind])
  | _ => exact absurd h (by simp [Instruction.kind])

/-- A trivial instruction completes and writes at most one of them. -/
theorem plan_of_trivial {i : Instruction} (h : i.kind = .trivial) (c : Cpu) :
    ∃ e, c.plan i = .ok { effect := e } ∧
      (e = .none ∨ (∃ rd v, e = .register rd v) ∨ ∃ v, e = .hilo v) := by
  cases i with
  | immediate op rt rs value =>
    cases op with
    | addi | daddi => exact absurd h (by simp [Instruction.kind])
    | _ => exact ⟨_, rfl, .inr (.inl ⟨_, _, rfl⟩)⟩
  | register op rd rs rt =>
    cases op with
    | add | sub | dadd | dsub => exact absurd h (by simp [Instruction.kind])
    | _ => exact ⟨_, rfl, .inr (.inl ⟨_, _, rfl⟩)⟩
  | shift op rd rt amount => exact ⟨_, rfl, .inr (.inl ⟨_, _, rfl⟩)⟩
  | multiply op rs rt => exact ⟨_, rfl, .inr (.inr ⟨_, rfl⟩)⟩
  | readHiLo half rd => cases half <;> exact ⟨_, rfl, .inr (.inl ⟨_, _, rfl⟩)⟩
  | writeHiLo half rs => cases half <;> exact ⟨_, rfl, .inr (.inr ⟨_, rfl⟩)⟩
  | sync => exact ⟨_, rfl, .inl rfl⟩
  | load op rt base offset => cases op <;> exact absurd h (by simp [Instruction.kind])
  | store op rt base offset => cases op <;> exact absurd h (by simp [Instruction.kind])
  | _ => exact absurd h (by simp [Instruction.kind])

/-- **A trivial instruction** completes, computes from the general registers and the multiply/divide
pair, and writes only these. -/
theorem trivial_spec {i : Instruction} (h : i.kind = .trivial) (c : Cpu) :
    ∃ e regs hilo, ∀ c' : Cpu, c'.regs = c.regs → c'.hilo = c.hilo →
      c'.plan i = .ok { effect := e } ∧ c'.apply e = { c' with regs := regs, hilo := hilo } := by
  obtain ⟨e, hplan, he⟩ := plan_of_trivial h c
  have happly : ∃ regs hilo, ∀ c' : Cpu, c'.regs = c.regs → c'.hilo = c.hilo →
      c'.apply e = { c' with regs := regs, hilo := hilo } := by
    rcases he with rfl | ⟨rd, v, rfl⟩ | ⟨v, rfl⟩
    · exact ⟨c.regs, c.hilo, by intro c' hr hh; rw [← hr, ← hh]; rfl⟩
    · exact ⟨c.regs.set rd v, c.hilo, by intro c' hr hh; rw [← hr, ← hh]; rfl⟩
    · exact ⟨c.regs, v, by intro c' hr hh; rw [← hr]; rfl⟩
  obtain ⟨regs, hilo, happly⟩ := happly
  refine ⟨e, regs, hilo, ?_⟩
  intro c' hr hh
  exact ⟨(plan_congr_of_trivial h hr hh).trans hplan, happly c' hr hh⟩

namespace Cpu

/-! ## Settled accounts -/

/-- The state after `n` instructions and their cycles, with the next one at `pc`, when nothing falls due
among them. -/
def account (c : Cpu) (n : Nat) (pc : UInt64) : Cpu :=
  { c.passCycles (UInt64.ofNat n) with
    pc := pc
    opsExecuted := c.opsExecuted + n
    events := c.events.advance n }

/-- Accounts add up. -/
theorem account_account (c : Cpu) (m n : Nat) (p q : UInt64) :
    (c.account m p).account n q = c.account (m + n) q := by
  have hpass := passCycles_passCycles c (UInt64.ofNat m) (UInt64.ofNat n)
  rw [← UInt64.ofNat_add] at hpass
  show { (c.passCycles (UInt64.ofNat m)).passCycles (UInt64.ofNat n) with
          pc := q
          opsExecuted := c.opsExecuted + m + n
          events := (c.events.advance m).advance n } = _
  rw [hpass, Schedule.advance_advance, Nat.add_assoc, ← Int.natCast_add]
  rfl

/-- The line may be sampled before or after an account is settled. -/
theorem updateInterrupts_account (c : Cpu) (n : Nat) (pc : UInt64) :
    (c.account n pc).updateInterrupts = c.updateInterrupts.account n pc := by
  have h := updateInterrupts_passCycles c (UInt64.ofNat n)
  show { (c.passCycles (UInt64.ofNat n)).updateInterrupts with
          pc := pc, opsExecuted := c.opsExecuted + n, events := c.events.advance n } = _
  rw [h]
  rfl

/-- While nothing falls due, passing cycles settles an account. -/
theorem advance_eq_account (c : Cpu) {n : Nat} (pc : UInt64) (hn : (n : Int) ≤ horizon)
    (hquiet : ∀ left ∈ c.events.untilNext?, (n : Int) < left) :
    Cpu.advance { c with pc := pc, opsExecuted := c.opsExecuted + n } (UInt64.ofNat n) =
      c.account n pc :=
  advance_of_quiet { c with pc := pc, opsExecuted := c.opsExecuted + n } hn hquiet

/-- An instruction that continues behind itself, when its cycle is quiet. -/
theorem retire_follow_sequential (c : Cpu) (hslot : c.delaySlot = none)
    (hquiet : ∀ left ∈ c.events.untilNext?, 1 < left) (regs : GeneralRegisters) (hilo : HiLo) :
    (({ c with regs := regs, hilo := hilo } : Cpu).follow c.successor .sequential).retire =
      { c with regs := regs, hilo := hilo }.account 1 (c.pc + 4) := by
  have hsucc : c.successor = c.pc + 4 := by unfold successor; rw [hslot]; rfl
  have h := advance_eq_account { c with regs := regs, hilo := hilo } (n := 1) (c.pc + 4) (by decide) hquiet
  rw [hsucc, ← h]
  unfold retire follow
  rw [← hslot]
  rfl

end Cpu

/-! ## The invariant of deferral -/

open Fragment

namespace Deferred

/-- The deferred instructions lie behind each other, outside delay slots, and before every event. -/
structure Sound (d : Deferred) (c : Cpu) : Prop where
  /-- Nothing deferred: the next instruction is where the processor is. -/
  here : d.count = 0 → d.pc = c.pc
  /-- The next instruction is in no delay slot. -/
  slot : d.count ≠ 0 → c.delaySlot = none
  /-- No event falls due among them. -/
  quiet : d.count ≠ 0 → ∀ left ∈ c.events.untilNext?, (d.count : Int) < left
  /-- They fit in a distance. -/
  bound : (d.count : Int) ≤ horizon

theorem sound_zero (c : Cpu) : Sound ⟨0, c.pc⟩ c :=
  ⟨fun _ => rfl, fun h => absurd rfl h, fun h => absurd rfl h, show (0 : Int) ≤ horizon by decide⟩

/-- The processor with its account settled. -/
def settle (d : Deferred) (c : Cpu) : Cpu :=
  if d.count = 0 then c else c.account d.count d.pc

/-- **Settling an account is a quiet passage of time.** -/
theorem flush_eq {d : Deferred} {t : Tandem} (h : d.Sound t.cpu) :
    d.flush t = ⟨d.settle t.cpu, t.vector⟩ := by
  unfold flush settle
  by_cases hz : d.count = 0
  · rw [if_pos hz, if_pos hz]
  · rw [if_neg hz, if_neg hz, ← Cpu.advance_eq_account t.cpu d.pc h.bound (h.quiet hz)]
    rfl

/-- Settling is about the clock, and leaves what a trivial instruction depends on alone. -/
theorem settle_registers (d : Deferred) (c : Cpu) :
    (d.settle c).regs = c.regs ∧ (d.settle c).hilo = c.hilo ∧ (d.settle c).delaySlot = c.delaySlot := by
  unfold settle
  split
  · exact ⟨rfl, rfl, rfl⟩
  · exact ⟨rfl, rfl, rfl⟩

/-- One more instruction, accounted for behind a settled account. -/
theorem account_settle (d : Deferred) (c : Cpu) (regs : GeneralRegisters) (hilo : HiLo) (pc : UInt64) :
    ({ d.settle c with regs := regs, hilo := hilo } : Cpu).account 1 pc =
      ({ c with regs := regs, hilo := hilo } : Cpu).account (d.count + 1) pc := by
  unfold settle
  by_cases hz : d.count = 0
  · rw [if_pos hz, hz]
  · rw [if_neg hz]
    exact Cpu.account_account { c with regs := regs, hilo := hilo } d.count 1 d.pc pc

theorem settle_pc {d : Deferred} {c : Cpu} (h : d.Sound c) : (d.settle c).pc = d.pc := by
  unfold settle
  by_cases hz : d.count = 0
  · rw [if_pos hz, h.here hz]
  · rw [if_neg hz]
    rfl

/-- The condition to leave a fragment does not change while an account is open. -/
theorem mustLeave_settle (d : Deferred) (c : Cpu) (usesFloat : Bool) :
    mustLeave usesFloat (d.settle c) = mustLeave usesFloat c := by
  have hstatus (n : Nat) (pc : UInt64) : (c.account n pc).statusFloatUsable = c.statusFloatUsable :=
    ControlRegisters.hasStatus_put _ _ _ (by decide)
  unfold settle
  by_cases hz : d.count = 0
  · rw [if_pos hz]
  · rw [if_neg hz]
    unfold mustLeave
    rw [hstatus]
    rfl

theorem interruptsPending_settle (d : Deferred) (c : Cpu) :
    (d.settle c).interruptsPending = c.interruptsPending := by
  unfold settle
  split <;> rfl

theorem settle_events (d : Deferred) (c : Cpu) : (d.settle c).events = c.events.advance d.count := by
  unfold settle
  by_cases hz : d.count = 0
  · rw [if_pos hz, hz, Int.natCast_zero, Schedule.advance_zero]
  · rw [if_neg hz]
    rfl

/-- Nothing is due when a sound account is settled. -/
theorem timed_settle {d : Deferred} {c : Cpu} (hd : d.Sound c) (hc : c.Timed) : (d.settle c).Timed := by
  by_cases hz : d.count = 0
  · unfold settle
    rw [if_pos hz]
    exact hc
  · obtain ⟨left, hleft, -, -⟩ := hc.untilNext?
    have hquiet := hd.quiet hz left hleft
    have hahead : Agenda c.events (d.count + 1) :=
      { hc.agenda with
        ahead := by
          intro p hp
          have hle := hc.agenda.ordered.head_le hleft hp
          exact ⟨by omega, (hc.agenda.ahead p hp).2⟩ }
    constructor
    · rw [settle_events]
      exact (hahead.advance (n := d.count) (by omega)).weaken (by omega)
    · rw [settle_events, Schedule.until?_advance, ne_eq, Option.map_eq_none_iff]
      exact hc.armed

end Deferred

namespace Fragment

/-- An operation that was executed, with the vector unit's step and the sampling of the line. -/
def settled (cpu : Cpu) (v : VectorUnit) : Tandem := (countOp ⟨cpu, v⟩).onCpu Cpu.updateInterrupts

/-- Counting an operation touches a counter and the interrupt line, and sees neither. -/
theorem countOp_eq (v : VectorUnit) :
    ∃ line : Bool → Bool, ∀ c, countOp ⟨c, v⟩ =
      ⟨{ c with
          statistics := { c.statistics with compiledOps := c.statistics.compiledOps + 1 }
          line := line c.line },
        { v with steps := v.steps + 1 }⟩ := by
  cases hd : v.drive (v.steps + 1) with
  | none =>
    refine ⟨id, ?_⟩
    intro c
    unfold countOp Tandem.count Tandem.onCpu Tandem.stepVector
    dsimp only
    rw [hd]
    rfl
  | some level =>
    refine ⟨fun _ => level, ?_⟩
    intro c
    unfold countOp Tandem.count Tandem.onCpu Tandem.stepVector
    dsimp only
    rw [hd]

/-- Counting an operation leaves everything else alone. -/
theorem settled_same {α : Type} (f : Cpu → α)
    (hf : ∀ (c : Cpu) (s : Statistics) (line : Bool),
      f ({ c with statistics := s, line := line } : Cpu).updateInterrupts = f c)
    (c : Cpu) (v : VectorUnit) : f (settled c v).cpu = f c := by
  obtain ⟨line, hcount⟩ := countOp_eq v
  show f (countOp ⟨c, v⟩).cpu.updateInterrupts = f c
  rw [hcount]
  exact hf c _ _

/-- The vector unit's step commutes with settling an account. -/
theorem settled_account (c : Cpu) (v : VectorUnit) (n : Nat) (pc : UInt64) :
    settled (c.account n pc) v = ⟨(settled c v).cpu.account n pc, (settled c v).vector⟩ := by
  obtain ⟨line, hcount⟩ := countOp_eq v
  let counted : Cpu :=
    { c with
      statistics := { c.statistics with compiledOps := c.statistics.compiledOps + 1 }
      line := line c.line }
  have h := Cpu.updateInterrupts_account counted n pc
  unfold settled
  rw [hcount, hcount c]
  exact congrArg (Tandem.mk · _) h

theorem timed_settled {c : Cpu} (h : c.Timed) (v : VectorUnit) : (settled c v).cpu.Timed :=
  h.of_events (settled_same Cpu.events (fun _ _ _ => rfl) c v)

end Fragment

namespace Deferred

/-- What makes an operation join the deferred ones. -/
theorem admits_of_plan {d : Deferred} {c : Cpu} {op : FragmentOp} {p : Plan}
    (h : deferredPlan? d c op = some p) :
    op.instruction.kind = .trivial ∧ op.inDelaySlot = false ∧ c.delaySlot = none ∧
      d.pc = op.address ∧ (∀ left ∈ c.events.untilNext?, (d.count : Int) + 1 < left) ∧
      c.plan op.instruction = .ok p := by
  unfold deferredPlan? at h
  by_cases ha : d.admits c op = true
  · rw [if_pos ha] at h
    unfold admits at ha
    simp only [Bool.and_eq_true, beq_iff_eq, Bool.not_eq_true'] at ha
    obtain ⟨⟨⟨⟨hkind, hop⟩, hslot⟩, hpc⟩, hfits⟩ := ha
    refine ⟨hkind, hop, ?_, hpc, ?_, ?_⟩
    · simpa [Cpu.inDelaySlot] using hslot
    · intro left hl
      unfold fits at hfits
      rw [Option.mem_def.mp hl] at hfits
      simpa using hfits
    · cases hplan : c.plan op.instruction with
      | error f => rw [hplan] at h; cases h
      | ok q => rw [hplan] at h; cases h; rfl
  · rw [if_neg ha] at h
    cases h

/-- An operation that joins the deferred ones completes, and writes general registers or the multiply/divide
pair. -/
theorem joins_of_plan {d : Deferred} {c : Cpu} {op : FragmentOp} {p : Plan}
    (h : deferredPlan? d c op = some p) :
    ∃ regs hilo, ∀ c' : Cpu, c'.regs = c.regs → c'.hilo = c.hilo →
      c'.plan op.instruction = .ok { effect := p.effect } ∧
        c'.apply p.effect = { c' with regs := regs, hilo := hilo } := by
  obtain ⟨hkind, -, -, -, -, hplan⟩ := admits_of_plan h
  obtain ⟨e, regs, hilo, hspec⟩ := trivial_spec hkind c
  obtain rfl : p = { effect := e } := Except.ok.inj (hplan.symm.trans (hspec c rfl rfl).1)
  exact ⟨regs, hilo, hspec⟩

/-- Where events are within the horizon, there is room for an operation that joins. -/
theorem room_of_timed {d : Deferred} {c : Cpu} {op : FragmentOp} {p : Plan} (hT : c.Timed)
    (h : deferredPlan? d c op = some p) : (d.count : Int) + 1 ≤ horizon := by
  obtain ⟨-, -, -, -, hfits, -⟩ := admits_of_plan h
  obtain ⟨left, hleft, -, hhorizon⟩ := hT.untilNext?
  have := hfits left hleft
  omega

/-- With the operation, the account is sound. -/
theorem sound_joined {d : Deferred} {t : Tandem} {op : FragmentOp} {p : Plan}
    (hroom : (d.count : Int) + 1 ≤ horizon) (h : deferredPlan? d t.cpu op = some p) :
    Sound ⟨d.count + 1, op.address + 4⟩ (settled (t.cpu.apply p.effect) t.vector).cpu := by
  obtain ⟨-, -, hslot, -, hfits, -⟩ := admits_of_plan h
  obtain ⟨regs, hilo, hspec⟩ := joins_of_plan h
  have hevents : (settled (t.cpu.apply p.effect) t.vector).cpu.events = t.cpu.events := by
    rw [settled_same Cpu.events fun _ _ _ => rfl, (hspec t.cpu rfl rfl).2]
  refine ⟨fun hz => absurd hz (Nat.succ_ne_zero _), fun _ => ?_, fun _ => ?_, ?_⟩
  · rw [settled_same Cpu.delaySlot fun _ _ _ => rfl, (hspec t.cpu rfl rfl).2]
    exact hslot
  · rw [hevents]
    intro l hl
    have := hfits l hl
    push_cast
    omega
  · push_cast
    exact hroom

/-- **One deferred instruction is one executed instruction.** From the settled state the operation
completes, and the state it leaves is the one in which it has joined the account. -/
theorem execute_deferred {d : Deferred} {t : Tandem} {op : FragmentOp} {p : Plan} (hd : d.Sound t.cpu)
    (h : deferredPlan? d t.cpu op = some p) :
    (d.settle t.cpu).pc = op.address ∧ (d.settle t.cpu).inDelaySlot = op.inDelaySlot ∧
      ∃ retired cpu, (d.settle t.cpu).execute op.word ((d.settle t.cpu).plan op.instruction) =
          (.ok retired, cpu) ∧ retired.trapped = false ∧
        settled cpu t.vector =
          ⟨settle ⟨d.count + 1, op.address + 4⟩ (settled (t.cpu.apply p.effect) t.vector).cpu,
            (countOp t).vector⟩ := by
  obtain ⟨c, v⟩ := t
  obtain ⟨-, hop, hslot, hpc, hfits, -⟩ := admits_of_plan h
  obtain ⟨regs, hilo, hspec⟩ := joins_of_plan h
  -- the settled state has the same registers, so it computes the same
  obtain ⟨hregs, hhilo, hsettled⟩ := d.settle_registers c
  have hsslot : (d.settle c).delaySlot = none := hsettled.trans hslot
  have hspc : (d.settle c).pc = op.address := (settle_pc hd).trans hpc
  obtain ⟨huplan, huapply⟩ := hspec (d.settle c) hregs hhilo
  have huquiet : ∀ left ∈ (d.settle c).events.untilNext?, 1 < left := by
    rw [settle_events, Schedule.untilNext?_advance]
    intro left hl
    obtain ⟨l, hl', rfl⟩ := Option.mem_map.mp hl
    have := hfits l hl'
    omega
  refine ⟨hspc, ?_, ⟨(d.settle c).pc, op.word, (d.settle c).inDelaySlot, false⟩,
    ({ d.settle c with regs := regs, hilo := hilo } : Cpu).account 1 ((d.settle c).pc + 4), ?_, rfl, ?_⟩
  · unfold Cpu.inDelaySlot
    rw [hsslot, hop]
    rfl
  · rw [huplan]
    show (Except.ok _, (((d.settle c).apply p.effect).follow (d.settle c).successor .sequential).retire) = _
    rw [huapply, Cpu.retire_follow_sequential _ hsslot huquiet]
  -- and the account commutes with the vector unit's step
  · have hjoin (b : Cpu) : settle ⟨d.count + 1, op.address + 4⟩ b = b.account (d.count + 1) (op.address + 4) :=
      if_neg (Nat.succ_ne_zero _)
    rw [hspc, account_settle, settled_account, hjoin, (hspec c rfl rfl).2]
    rfl

/-- Whether an operation can be deferred is seen in the settled state as well. -/
theorem isSome_deferredPlan?_settle {d : Deferred} {c : Cpu} (hd : d.Sound c) (op : FragmentOp) :
    (deferredPlan? ⟨0, (d.settle c).pc⟩ (d.settle c) op).isSome = (deferredPlan? d c op).isSome := by
  obtain ⟨hregs, hhilo, hdelay⟩ := d.settle_registers c
  have hslot : (d.settle c).inDelaySlot = c.inDelaySlot := congrArg Option.isSome hdelay
  have hfits : fits ⟨0, (d.settle c).pc⟩ (d.settle c) = d.fits c := by
    unfold fits
    rw [settle_events, Schedule.untilNext?_advance]
    cases c.events.untilNext? with
    | none => rfl
    | some left =>
      show decide (((0 : Nat) : Int) + 1 < left - d.count) = decide ((d.count : Int) + 1 < left)
      exact decide_eq_decide.mpr (by omega)
  have hadmits : admits ⟨0, (d.settle c).pc⟩ (d.settle c) op = d.admits c op := by
    unfold admits
    rw [hfits, hslot, settle_pc hd]
  unfold deferredPlan?
  rw [hadmits]
  by_cases ha : d.admits c op = true
  · have hkind : op.instruction.kind = .trivial := by
      unfold admits at ha
      simp only [Bool.and_eq_true, beq_iff_eq] at ha
      exact ha.1.1.1.1
    obtain ⟨e, regs, hilo, hspec⟩ := trivial_spec hkind c
    rw [if_pos ha, if_pos ha, (hspec _ hregs hhilo).1, (hspec c rfl rfl).1]
  · rw [if_neg ha, if_neg ha]

end Deferred

namespace Fragment

/-! ## The loop without deferral -/

/-- The machine has to look between an operation and the next. Behind one that can be deferred it looks for
an interrupt only. -/
def looksAfter (usesFloat : Bool) (op : FragmentOp) (before after : Cpu) : Bool :=
  if (deferredPlan? ⟨0, before.pc⟩ before op).isSome then after.interruptsPending
  else mustLeave usesFloat after

/-- Runs the operations from number `index` on, accounting for each at once. -/
def runEach (usesFloat : Bool) :
    List FragmentOp → Nat → Tandem → Except FatalError FragmentExit × Tandem
  | [], index, t => (.ok ⟨index, true⟩, t)
  | op :: rest, index, t =>
    if t.cpu.pc != op.address || t.cpu.inDelaySlot != op.inDelaySlot then leave index t
    else
      match t.cpu.execute op.word (t.cpu.plan op.instruction) with
      | (.error e, cpu) => (.error e, ⟨cpu, t.vector⟩)
      | (.ok retired, cpu) =>
        let done := countOp ⟨cpu, t.vector⟩
        if retired.trapped then leave (index + 1) done
        else
          let done := done.onCpu Cpu.updateInterrupts
          if looksAfter usesFloat op t.cpu done.cpu then leave (index + 1) done
          else runEach usesFloat rest (index + 1) done

/-- Behind an operation that is deferred, the machine looks for an interrupt; else for any reason. -/
theorem looksAfter_settle {d : Deferred} {c : Cpu} (hd : d.Sound c) (usesFloat : Bool) (op : FragmentOp)
    (after : Cpu) :
    looksAfter usesFloat op (d.settle c) after =
      if (deferredPlan? d c op).isSome then after.interruptsPending else mustLeave usesFloat after := by
  unfold looksAfter
  rw [Deferred.isSome_deferredPlan?_settle hd op]

/-- **Deferral is invisible.** Running operations with an open account ends as running them one at a time
from the settled state, as long as there is room in the account. -/
theorem runOps_eq_runEach_rule {P : List FragmentOp → Deferred → Cpu → Prop}
    (hroom : ∀ {op rest d} {t : Tandem} {p}, P (op :: rest) d t.cpu → deferredPlan? d t.cpu op = some p →
      (d.count : Int) + 1 ≤ horizon)
    (hjoin : ∀ {op rest d} {t : Tandem} {p}, P (op :: rest) d t.cpu → deferredPlan? d t.cpu op = some p →
      P rest ⟨d.count + 1, op.address + 4⟩ (settled (t.cpu.apply p.effect) t.vector).cpu)
    (hnext : ∀ {op rest d} {t : Tandem} {retired cpu}, P (op :: rest) d t.cpu → d.Sound t.cpu →
      (d.settle t.cpu).execute op.word ((d.settle t.cpu).plan op.instruction) = (.ok retired, cpu) →
      P rest ⟨0, (settled cpu t.vector).cpu.pc⟩ (settled cpu t.vector).cpu)
    (usesFloat : Bool) (ops : List FragmentOp) :
    ∀ (index : Nat) (d : Deferred) (t : Tandem), d.Sound t.cpu → P ops d t.cpu →
      runOps usesFloat ops index d t = runEach usesFloat ops index ⟨d.settle t.cpu, t.vector⟩ := by
  induction ops with
  | nil =>
    intro index d t hd _
    rw [runOps, runEach, Deferred.flush_eq hd]
  | cons op rest ih =>
    intro index d t hd hP
    have hlook := looksAfter_settle hd usesFloat op
    unfold runOps runEach
    cases hp : deferredPlan? d t.cpu op with
    -- the operation joins the account, which stays open
    | some p =>
      let joined : Tandem := (countOp (t.onCpu (·.apply p.effect))).onCpu Cpu.updateInterrupts
      let open' : Deferred := ⟨d.count + 1, op.address + 4⟩
      obtain ⟨hpc, hslot, retired, cpu, hexec, htrap, hstate⟩ := Deferred.execute_deferred hd hp
      have hsound : open'.Sound joined.cpu := Deferred.sound_joined (hroom hP hp) hp
      have hstate : (countOp ⟨cpu, t.vector⟩).onCpu Cpu.updateInterrupts =
        ⟨open'.settle joined.cpu, (countOp t).vector⟩ := hstate
      rw [hp] at hlook
      dsimp only
      rw [hpc, hslot, hexec]
      simp only [bne_self_eq_false, Bool.or_self, Bool.false_eq_true, if_false, htrap, hlook, hstate,
        Option.isSome_some, if_true]
      rw [Deferred.interruptsPending_settle, Deferred.flush_eq hsound]
      split
      · rfl
      · exact ih _ _ _ hsound (hjoin hP hp)
    -- the account is settled first, and another one opened behind the operation
    | none =>
      dsimp only
      rw [Deferred.flush_eq hd]
      dsimp only
      split
      · rfl
      · rcases hexec : (d.settle t.cpu).execute op.word ((d.settle t.cpu).plan op.instruction) with ⟨r, cpu⟩
        cases r with
        | error e => rfl
        | ok retired =>
          simp only [hlook, hp, Option.isSome_none, Bool.false_eq_true, if_false]
          split
          · rfl
          · split
            · rfl
            · exact ih _ _ _ (Deferred.sound_zero _) (hnext hP hd hexec)

/-- Events within the horizon leave room. -/
theorem runOps_eq_runEach (usesFloat : Bool) (ops : List FragmentOp) (index : Nat) (d : Deferred) (t : Tandem)
    (hd : d.Sound t.cpu) (hT : t.cpu.Timed) :
    runOps usesFloat ops index d t = runEach usesFloat ops index ⟨d.settle t.cpu, t.vector⟩ := by
  refine runOps_eq_runEach_rule (P := fun _ _ c => c.Timed) Deferred.room_of_timed
    (fun hT _ => timed_settled (hT.apply _) _) ?_ usesFloat ops index d t hd hT
  intro op _ d t retired cpu hT hd hexec
  let e : Execution := ⟨d.settle t.cpu, op.word, (d.settle t.cpu).plan op.instruction⟩
  have hafter : e.after.Timed := Execution.timed_after (Deferred.timed_settle hd hT)
  rw [show e.after = cpu from congrArg Prod.snd hexec] at hafter
  exact timed_settled hafter t.vector

/-- So does the address space, where it goes on behind every operation: deferred operations lie behind each
other, so there are no more of them than words below the last one. -/
theorem runOps_eq_runEach_of_ahead (usesFloat : Bool) (ops : List FragmentOp) (index : Nat) (t : Tandem)
    (hahead : ∀ op ∈ ops, (op.address + 4).toNat = op.address.toNat + 4) :
    runOps usesFloat ops index ⟨0, t.cpu.pc⟩ t = runEach usesFloat ops index t := by
  let P (ops : List FragmentOp) (d : Deferred) (_ : Cpu) : Prop :=
    4 * d.count ≤ d.pc.toNat ∧ ∀ op ∈ ops, (op.address + 4).toNat = op.address.toNat + 4
  refine runOps_eq_runEach_rule (P := P) ?_ ?_ ?_ usesFloat ops index ⟨0, t.cpu.pc⟩ t
    (Deferred.sound_zero t.cpu) ⟨Nat.zero_le _, hahead⟩
  · intro _ _ d _ _ h _
    have hbelow := h.1
    have hlt := d.pc.toNat_lt
    unfold horizon
    omega
  · intro op _ d t p h hp
    obtain ⟨-, -, -, hpc, -, -⟩ := Deferred.admits_of_plan hp
    have hbelow : 4 * d.count ≤ op.address.toNat := hpc ▸ h.1
    have hnext := h.2 op List.mem_cons_self
    exact ⟨show 4 * (d.count + 1) ≤ (op.address + 4).toNat by omega,
      fun op' hop' => h.2 op' (List.mem_cons_of_mem _ hop')⟩
  · intro op _ d t retired cpu h _ _
    exact ⟨Nat.zero_le _, fun op' hop' => h.2 op' (List.mem_cons_of_mem _ hop')⟩

/-! ## Looking -/

/-- While a fragment that needs the floating-point unit need not be left, Status has it usable. -/
theorem statusFloatUsable_of_stay {usesFloat : Bool} {c : Cpu} (h : mustLeave usesFloat c = false)
    (huses : usesFloat = true) : c.statusFloatUsable = true := by
  unfold mustLeave at h
  simp only [huses, Bool.or_eq_false_iff, Bool.true_and, Bool.not_eq_eq_eq_not, Bool.not_false] at h
  exact h.2

/-- A trivial instruction gives no other reason to leave than an interrupt. -/
theorem mustLeave_deferred {d : Deferred} {t : Tandem} {op : FragmentOp} {p : Plan} {usesFloat : Bool}
    (h : deferredPlan? d t.cpu op = some p) (hstay : mustLeave usesFloat t.cpu = false) :
    mustLeave usesFloat (settled (t.cpu.apply p.effect) t.vector).cpu =
      (settled (t.cpu.apply p.effect) t.vector).cpu.interruptsPending := by
  obtain ⟨regs, hilo, hspec⟩ := Deferred.joins_of_plan h
  -- what can be a reason, interrupts apart, is what it was
  have hsame {α : Type} (f : Cpu → α) (hf : ∀ (c : Cpu) (s : Statistics) (line : Bool),
      f ({ c with statistics := s, line := line } : Cpu).updateInterrupts = f c)
      (hwrite : ∀ (c : Cpu), f { c with regs := regs, hilo := hilo } = f c) :
      f (settled (t.cpu.apply p.effect) t.vector).cpu = f t.cpu := by
    rw [settled_same f hf, (hspec t.cpu rfl rfl).2, hwrite]
  unfold mustLeave at hstay ⊢
  simp only [Bool.or_eq_false_iff] at hstay
  obtain ⟨⟨⟨⟨hbreak, -⟩, hcode⟩, hdirty⟩, hfloat⟩ := hstay
  rw [hsame Cpu.breakout (fun _ _ _ => rfl) fun _ => rfl,
    hsame Cpu.codeInvalidations (fun _ _ _ => rfl) fun _ => rfl,
    hsame Cpu.tlbDirty (fun _ _ _ => rfl) fun _ => rfl,
    hsame Cpu.statusFloatUsable (fun _ _ _ => ControlRegisters.hasStatus_sample _ _ _) fun _ => rfl,
    hbreak, hcode, hdirty, hfloat]
  simp

/-- If there was no reason to leave before an operation, looking for an interrupt is looking. -/
theorem looksAfter_eq_mustLeave {t : Tandem} {op : FragmentOp} {usesFloat : Bool} {retired : Retired}
    {cpu : Cpu} (hstay : mustLeave usesFloat t.cpu = false)
    (h : t.cpu.execute op.word (t.cpu.plan op.instruction) = (.ok retired, cpu)) :
    looksAfter usesFloat op t.cpu (settled cpu t.vector).cpu =
      mustLeave usesFloat (settled cpu t.vector).cpu := by
  unfold looksAfter
  cases hp : deferredPlan? ⟨0, t.cpu.pc⟩ t.cpu op with
  | none => rfl
  | some p =>
    obtain ⟨-, -, retired', cpu', hexec, -, hstate⟩ :=
      Deferred.execute_deferred (Deferred.sound_zero t.cpu) hp
    obtain ⟨-, rfl⟩ := Prod.mk.inj (h.symm.trans hexec)
    rw [hstate, Deferred.mustLeave_settle, mustLeave_deferred hp hstay]
    exact Deferred.interruptsPending_settle _ _

/-- An operation behind which the machine need not look does not end the run. -/
theorem breakout_of_not_looksAfter {t : Tandem} {op : FragmentOp} {usesFloat : Bool} {retired : Retired}
    {cpu : Cpu} (hbreak : t.cpu.breakout = none)
    (h : t.cpu.execute op.word (t.cpu.plan op.instruction) = (.ok retired, cpu))
    (hlook : looksAfter usesFloat op t.cpu (settled cpu t.vector).cpu = false) :
    (settled cpu t.vector).cpu.breakout = none := by
  unfold looksAfter at hlook
  cases hp : deferredPlan? ⟨0, t.cpu.pc⟩ t.cpu op with
  | none =>
    rw [hp] at hlook
    unfold mustLeave at hlook
    simp only [Option.isSome_none, Bool.false_eq_true, if_false, Bool.or_eq_false_iff] at hlook
    simpa using hlook.1.1.1.1
  | some p =>
    obtain ⟨-, -, retired', cpu', hexec, -, hstate⟩ :=
      Deferred.execute_deferred (Deferred.sound_zero t.cpu) hp
    obtain ⟨-, rfl⟩ := Prod.mk.inj (h.symm.trans hexec)
    rw [hstate]
    show (settled (t.cpu.apply p.effect) t.vector).cpu.breakout = none
    rw [settled_same Cpu.breakout fun _ _ _ => rfl]
    exact (congrArg Surround.breakout (Cpu.surround_apply t.cpu p.effect)).trans hbreak

end Fragment

end Vr4300
