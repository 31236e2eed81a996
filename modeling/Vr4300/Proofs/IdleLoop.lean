import Vr4300.Proofs.BusRouting
import Vr4300.Proofs.Transfers
import Vr4300.Proofs.Veil

/-!
# `Proofs.IdleLoop` — a processor that goes round

A branch to itself with nothing in its delay slot goes round for ever, if it does not change what it depends
on: two instructions in turn, and a cycle for each. `Cpu.Loops` says so of a state, and it depends on a few
fields only, `Cpu.footing`, that neither a cycle nor an event changes. Between two events going round is
nothing but the passing of time, `Cpu.later`, and that is what forwarding does at once.

## Contents

* `Cpu.tick`, `Cpu.later`: cycles in which nothing falls due; `retire_of_quiet`, `skipIdle_eq_later`;
* `plan_branch`: what a branch depends on, and what it changes;
* `Cpu.footing`, `Cpu.Loops`, `Loops.of_footing`;
* `Cpu.WaitsAt`, `Loops.round`: each of the two instructions leads to the other;
* `Execution.GoesRound`, `GoesRound.loops`: an instruction behind which time may be forwarded.
-/

namespace Vr4300

open Control

namespace Cpu

/-! ## Cycles in which nothing falls due -/

/-- A cycle passes, and nothing falls due. -/
def tick (c : Cpu) : Cpu := { c.passCycles 1 with events := c.events.advance 1 }

/-- Some cycles pass, and nothing falls due. -/
def later : Nat → Cpu → Cpu
  | 0, c => c
  | n + 1, c => later n c.tick

/-- Cycles pass one after the other as they do at once. -/
theorem later_succ (n : Nat) :
    ∀ c : Cpu, later (n + 1) c =
      { c.passCycles (UInt64.ofNat (n + 1)) with events := c.events.advance (n + 1 : Nat) } := by
  induction n with
  | zero => exact fun c => rfl
  | succ n ih =>
    intro c
    have hcycles : (1 : UInt64) + UInt64.ofNat (n + 1) = UInt64.ofNat (n + 1 + 1) := by
      rw [UInt64.add_comm]
      exact (UInt64.ofNat_add (n + 1) 1).symm
    have hpass := passCycles_passCycles c 1 (UInt64.ofNat (n + 1))
    have hadvance : (c.events.advance 1).advance (n + 1 : Nat) = c.events.advance (n + 1 + 1 : Nat) := by
      rw [Schedule.advance_advance]
      congr 1
      omega
    rw [hcycles] at hpass
    rw [show later (n + 1 + 1) c = later (n + 1) c.tick from rfl, ih]
    show ({ (c.passCycles 1).passCycles (UInt64.ofNat (n + 1)) with
      events := (c.events.advance 1).advance (n + 1 : Nat) } : Cpu) = _
    rw [hpass, hadvance]

theorem events_later (n : Nat) (c : Cpu) : (later n c).events = c.events.advance n := by
  cases n with
  | zero => exact (Schedule.advance_zero c.events).symm
  | succ n => rw [later_succ]

/-- What a cycle leaves alone, cycles leave alone. -/
theorem later_preserves {α : Type} (f : Cpu → α) (hf : ∀ c : Cpu, f c.tick = f c) (n : Nat) :
    ∀ c, f (later n c) = f c := by
  induction n with
  | zero => exact fun c => rfl
  | succ n ih => exact fun c => (ih c.tick).trans (hf c)

/-- What commutes with a cycle, commutes with cycles. -/
theorem later_comm {g : Cpu → Cpu} (hg : ∀ c, (g c).tick = g c.tick) (n : Nat) :
    ∀ c, later n (g c) = g (later n c) := by
  induction n with
  | zero => exact fun c => rfl
  | succ n ih =>
    intro c
    show later n (g c).tick = g (later n c.tick)
    rw [hg, ih]

theorem tick_veiled (c : Cpu) (doubt : Bool) : (c.veiled doubt).tick = c.tick.veiled doubt := by
  unfold tick
  rw [passCycles_veiled]
  rfl

theorem tick_updateInterrupts (c : Cpu) : c.updateInterrupts.tick = c.tick.updateInterrupts := by
  unfold tick
  rw [← updateInterrupts_passCycles]
  rfl

/-- **An instruction's cycle** in which nothing falls due. -/
theorem retire_of_quiet {c : Cpu} (h : ∀ left ∈ c.events.untilNext?, 1 < left) :
    c.retire = { c.tick with opsExecuted := c.opsExecuted + 1 } :=
  advance_of_quiet (n := 1) { c with opsExecuted := c.opsExecuted + 1 } (by decide) h

/-- **Forwarding** lets cycles pass. -/
theorem skipIdle_eq_later (c : Cpu) :
    c.skipIdle =
      { later c.idleCycles c with
        statistics :=
          { c.statistics with idleCyclesSkipped := c.statistics.idleCyclesSkipped + c.idleCycles } } := by
  rw [skipIdle_eq]
  cases c.idleCycles with
  | zero => exact if_neg (Nat.lt_irrefl 0)
  | succ n =>
    rw [if_pos (Nat.succ_pos n), later_succ]

/-! ## Branches -/

/-- The plan does not branch. -/
def Straight (planned : Except Fault Plan) : Prop := ∀ p, planned = .ok p → ∀ target, p.flow ≠ .branch target

theorem straight_plan (c : Cpu) {i : Instruction} (h : i.transfers = false) : Straight (c.plan i) := by
  intro p hp target hflow
  rw [c.level_plan h p hp] at hflow
  cases hflow

/-- **A branch** depends on its place, the general registers and the floating-point condition, and changes at
most a general register. -/
theorem plan_branch {c : Cpu} {i : Instruction} {p : Plan} {target : UInt64} (h : c.plan i = .ok p)
    (hflow : p.flow = .branch target) :
    (∃ link, p.effect = c.linkEffect link) ∧
      ∀ c' : Cpu, c'.pc = c.pc → c'.regs = c.regs → c'.fcr31 = c.fcr31 → c'.plan i = .ok p := by
  have htransfers : i.transfers = true := by
    rw [← Bool.not_eq_false]
    exact fun hs => c.straight_plan hs p h target hflow
  cases i with
  | jump link offset =>
    obtain rfl := Except.ok.inj h
    refine ⟨⟨_, rfl⟩, fun c' hpc _ _ => ?_⟩
    unfold plan linkEffect linkAddress
    rw [hpc]
  | jumpRegister rs link =>
    obtain rfl := Except.ok.inj h
    refine ⟨⟨_, rfl⟩, fun c' hpc hregs _ => ?_⟩
    unfold plan linkEffect linkAddress
    rw [hpc, hregs]
  | branch test likely link offset =>
    obtain rfl := Except.ok.inj h
    refine ⟨⟨_, rfl⟩, fun c' hpc hregs hfcr => ?_⟩
    have htest : c'.testHolds test = c.testHolds test := by
      unfold testHolds
      rw [hregs, hfcr]
    show Except.ok (c'.planBranch test likely link offset) = Except.ok (c.planBranch test likely link offset)
    unfold planBranch linkEffect linkAddress
    rw [htest, hpc]
  | system op =>
    cases op with
    -- the return from a handler resumes, and does not branch
    | eret =>
      obtain rfl := Except.ok.inj h
      cases hflow
    | _ => cases htransfers
  | _ => cases htransfers

end Cpu

/-! ## Footing -/

namespace Bus

/-- The device that answers an address. -/
def answering? (b : Bus) (address : UInt64) : Option Device := (b.route? address).bind (b.devices[·]?)

/-- A device that answered last, and stays as it is when it is read, leaves the bus as it was. -/
theorem unlogged_read_of_still {b : Bus} {w : Width} {address : UInt64}
    (hrecent : ∀ i, b.route? address = some i → b.recent = i)
    (hstill : ∀ d ∈ b.answering? address, (d.respond d.state w (address - d.base)).2 = d.state) :
    (b.read w address).2.unlogged = b.unlogged := by
  unfold answering? at hstill
  unfold read
  cases hr : b.route? address with
  | none => rfl
  | some i =>
    dsimp only
    cases hd : b.devices[i]? with
    | none => rfl
    | some d =>
      have hstate : (d.respond d.state w (address - d.base)).2 = d.state := hstill d (by rw [hr]; exact hd)
      dsimp only
      rw [hstate, setIfInBounds_self hd]
      unfold unlogged
      rw [hrecent i hr]

end Bus

/-- What it takes to go round a loop. -/
structure Footing where
  /-- The general registers. -/
  regs : GeneralRegisters
  /-- The floating-point control register. -/
  fcr31 : FloatingPoint.Fcr31
  /-- Status makes the floating-point unit usable. -/
  floatUsable : Bool
  /-- The entries that map addresses. -/
  tlb : Tlb
  /-- The address space. -/
  asid : UInt64
  /-- Main memory. -/
  ram : Ram
  /-- The devices, without the record of accesses. -/
  bus : Bus

namespace Cpu

/-- What the processor stands on. -/
def footing (c : Cpu) : Footing := ⟨c.regs, c.fcr31, c.floatUsable, c.tlb, c.asid, c.ram, c.bus.unlogged⟩

variable {c c' : Cpu} {word : UInt32} {p : Plan}

theorem resolve_of_footing (h : c'.footing = c.footing) (w : Width) (access : Access) (address : UInt64) :
    c'.resolve w access address = c.resolve w access address := by
  have htlb : c'.tlb = c.tlb := congrArg Footing.tlb h
  have hasid : c'.asid = c.asid := congrArg Footing.asid h
  have hram : c'.ram = c.ram := congrArg Footing.ram h
  unfold resolve
  rw [htlb, hasid, hram]

theorem peek?_of_footing (h : c'.footing = c.footing) (address : UInt64) : c'.peek? address = c.peek? address := by
  have hram : c'.ram = c.ram := congrArg Footing.ram h
  unfold peek?
  rw [resolve_of_footing h, hram]

theorem fetch_of_footing (h : c'.footing = c.footing) (address : UInt64) :
    (c'.fetch address).1 = (c.fetch address).1 ∧
      (c'.fetch address).2.bus.unlogged = (c.fetch address).2.bus.unlogged := by
  have hbus : c'.bus.unlogged = c.bus.unlogged := congrArg Footing.bus h
  have hram : c'.ram = c.ram := congrArg Footing.ram h
  unfold fetch
  rw [resolve_of_footing h]
  cases c.resolve .word .fetch address with
  | error t => exact ⟨rfl, hbus⟩
  | ok l =>
    cases l with
    | ram offset =>
      refine ⟨?_, hbus⟩
      show Except.ok (c'.ram.read .word offset).toUInt32 = Except.ok (c.ram.read .word offset).toUInt32
      rw [hram]
    | bus a =>
      obtain ⟨hvalue, hleft⟩ := c.bus.read_unlogged .word a
      obtain ⟨hvalue', hleft'⟩ := c'.bus.read_unlogged .word a
      rw [hbus] at hvalue' hleft'
      exact ⟨congrArg (fun v : UInt64 => Except.ok v.toUInt32) (hvalue'.symm.trans hvalue), hleft'.symm.trans hleft⟩

/-- **The branch at `pc` goes round**: it is a branch to itself with nothing in its delay slot, and neither
fetching it nor carrying it out changes anything. -/
structure Loops (c : Cpu) (word : UInt32) (p : Plan) : Prop where
  /-- The branch is there. -/
  fetched : (c.fetch c.pc).1 = .ok word
  /-- Fetching it again leaves the devices as they are. -/
  quiet : (c.fetch c.pc).2.bus.unlogged = c.bus.unlogged
  /-- Nothing is in the delay slot. -/
  slot : c.peek? (c.pc + 4) = some 0
  /-- The branch is taken. -/
  planned : c.planGuarded (.decode word) = .ok p
  /-- It leads to itself. -/
  goes : p.flow = .branch c.pc
  /-- It changes nothing where the registers are these. -/
  still : ∀ b : Cpu, b.regs = c.regs → b.apply p.effect = b

theorem planGuarded_of_footing {i : Instruction} {target : UInt64} (h : c.planGuarded i = .ok p)
    (hflow : p.flow = .branch target) (hf : c'.footing = c.footing) (hpc : c'.pc = c.pc) :
    c'.planGuarded i = .ok p := by
  have husable : c'.floatUsable = c.floatUsable := congrArg Footing.floatUsable hf
  unfold planGuarded at h ⊢
  rw [husable]
  split at h
  · cases h
  · rename_i hopen
    rw [if_neg hopen]
    exact (plan_branch h hflow).2 c' hpc (congrArg Footing.regs hf) (congrArg Footing.fcr31 hf)

/-- **Going round depends on the footing only.** -/
theorem Loops.of_footing (h : c.Loops word p) (hf : c'.footing = c.footing) (hpc : c'.pc = c.pc) :
    c'.Loops word p := by
  obtain ⟨hword, hbus⟩ := fetch_of_footing hf c.pc
  have hregs : c'.regs = c.regs := congrArg Footing.regs hf
  constructor
  · rw [hpc, hword]
    exact h.fetched
  · rw [hpc, hbus]
    exact h.quiet.trans (congrArg Footing.bus hf).symm
  · rw [hpc, peek?_of_footing hf]
    exact h.slot
  · exact planGuarded_of_footing h.planned h.goes hf hpc
  · rw [hpc]
    exact h.goes
  · intro b hb
    exact h.still b (hb.trans hregs)

/-! ### What leaves the footing alone -/

theorem asid_of_get {b : Cpu} (h : b.cp0.get entryHi = c.cp0.get entryHi) : b.asid = c.asid :=
  congrArg (· &&& TlbEntry.asidBits) h

theorem footing_veiled (c : Cpu) (doubt : Bool) : (c.veiled doubt).footing = c.footing := by
  unfold footing
  rw [asid_of_get (b := c.veiled doubt) (c.cp0.get_unmarked doubt (by decide))]
  rfl

theorem footing_updateInterrupts (c : Cpu) : c.updateInterrupts.footing = c.footing := by
  unfold footing
  rw [asid_of_get (b := c.updateInterrupts) (c.cp0.get_sample c.line (by decide))]
  rfl

theorem footing_tick (c : Cpu) : c.tick.footing = c.footing := by
  unfold footing
  rw [asid_of_get (b := c.tick) (c.cp0.get_put_of_ne _ (by decide))]
  rfl

theorem footing_retire (hc : c.Timed) : c.retire.footing = c.footing := by
  let b : Cpu := { c with opsExecuted := c.opsExecuted + 1 }
  have hb : b.Timed := hc.of_events rfl
  refine hb.advance_one_rule (P := fun s => s.footing = c.footing) ?_ ?_ fun _ _ hs _ => hs
  · exact footing_tick b
  · intro s rest hs hdue
    have hcause : ({ s with cp0 := s.cp0.setBits cause causeIP7 } : Cpu).footing = s.footing := by
      unfold footing
      rw [asid_of_get (b := { s with cp0 := s.cp0.setBits cause causeIP7 }) (s.cp0.get_put_of_ne _ (by decide))]
    rw [compareMatched_eq _ hdue.free, footing_updateInterrupts]
    exact hcause.trans hs

/-! ## Going round -/

/-- The processor in front of an instruction outside a delay slot. -/
def standing (c : Cpu) (place : UInt64) : Cpu := { c with pc := place, delaySlot := none }

/-- The processor is at one of the two instructions of a loop. -/
def WaitsAt (c : Cpu) (place : UInt64) : Prop :=
  c.pc = place ∧ c.delaySlot = none ∨ c.pc = place + 4 ∧ c.delaySlot = some place

theorem retire_standing (c : Cpu) (place : UInt64) : (c.standing place).retire = c.retire.standing place := by
  have hschedule (c : Cpu) (kind : EventKind) (n : Int) (action : TimerAction) :
      (c.standing place).schedule kind n action = (c.schedule kind n action).standing place := by
    unfold schedule
    rw [show (c.standing place).events = c.events from rfl]
    cases c.events.add kind n action <;> rfl
  exact fireDue_map (g := (standing · place)) (fun _ => rfl) (fun _ _ => rfl)
    (fun c => congrArg Cpu.updateInterrupts (hschedule
      { c with cp0 := c.cp0.setBits cause causeIP7 } .compare comparePeriod .compareMatch))
    (fun _ => rfl) _ { c.passCycles 1 with opsExecuted := c.opsExecuted + 1, events := c.events.advance _ }

theorem pc_retire {c : Cpu} (hc : c.Timed) : c.retire.pc = c.pc ∧ c.retire.delaySlot = c.delaySlot := by
  let b : Cpu := { c with opsExecuted := c.opsExecuted + 1 }
  have hb : b.Timed := hc.of_events rfl
  refine hb.advance_one_rule (P := fun s => s.pc = c.pc ∧ s.delaySlot = c.delaySlot) ⟨rfl, rfl⟩ ?_
    fun _ _ hs _ => hs
  intro s rest hs hdue
  rw [compareMatched_eq _ hdue.free]
  exact hs

theorem WaitsAt.of_eq {c c' : Cpu} {place : UInt64} (h : c.WaitsAt place) (hpc : c'.pc = c.pc)
    (hslot : c'.delaySlot = c.delaySlot) : c'.WaitsAt place := by
  unfold WaitsAt
  rw [hpc, hslot]
  exact h

/-- Fetching depends on what is mapped, main memory and the bus. -/
theorem fetch_of_eq (htlb : c'.tlb = c.tlb) (hasid : c'.asid = c.asid) (hram : c'.ram = c.ram) (hbus : c'.bus = c.bus)
    (address : UInt64) :
    (c'.fetch address).1 = (c.fetch address).1 ∧ (c'.fetch address).2.bus = (c.fetch address).2.bus := by
  have hresolve : c'.resolve .word .fetch address = c.resolve .word .fetch address := by
    unfold resolve
    rw [htlb, hasid, hram]
  unfold fetch
  rw [hresolve]
  cases c.resolve .word .fetch address with
  | error t => exact ⟨rfl, hbus⟩
  | ok l =>
    unfold readAt
    cases l with
    | ram offset =>
      rw [hram]
      exact ⟨rfl, hbus⟩
    | bus a =>
      rw [hbus]
      exact ⟨rfl, rfl⟩

/-- Fetching does not depend on the place. -/
theorem fetch_standing (c : Cpu) (place address : UInt64) :
    ((c.standing place).fetch address).1 = (c.fetch address).1 ∧
      ((c.standing place).fetch address).2.bus = (c.fetch address).2.bus :=
  @fetch_of_eq c (c.standing place) rfl rfl rfl rfl address

/-- What was fetched from a device is fetched from it again. -/
theorem recent_fetch (c : Cpu) {address a : UInt64} (h : c.resolve .word .fetch address = .ok (.bus a)) {i : Nat}
    (hroute : (c.fetch address).2.bus.route? a = some i) : (c.fetch address).2.bus.recent = i := by
  have hfetch : (c.fetch address).2.bus = c.bus.handle (.read .word a) := by
    unfold fetch
    rw [h]
    rfl
  rw [hfetch] at hroute ⊢
  exact Bus.recent_of_route?_handle (r := .read .word a) hroute

/-- Nothing is what the word zero does. -/
theorem planGuarded_nop (c : Cpu) :
    ∃ v, c.planGuarded (.decode 0) = .ok { effect := .register 0 v } :=
  ⟨_, rfl⟩

/-- The branch of the loop is fetched and taken again. -/
theorem Loops.nextExecution {c : Cpu} {place : UInt64} {word : UInt32} {p : Plan}
    (h : (c.standing place).Loops word p) (hpc : c.pc = place) :
    ∃ bus : Bus, bus.unlogged = c.bus.unlogged ∧ c.nextExecution = ⟨{ c with bus := bus }, word, .ok p⟩ := by
  have hword : (c.fetch c.pc).1 = .ok word := by
    rw [hpc, ← (c.fetch_standing place place).1]
    exact h.fetched
  have hquiet : (c.fetch c.pc).2.bus.unlogged = c.bus.unlogged := by
    rw [hpc, ← (c.fetch_standing place place).2]
    exact h.quiet
  obtain ⟨bus, hbefore⟩ := c.fetch_snd c.pc
  rw [hbefore] at hquiet
  have hfooting : ({ c with bus := bus } : Cpu).footing = (c.standing place).footing := by
    show Footing.mk _ _ _ _ _ _ bus.unlogged = _
    rw [show bus.unlogged = c.bus.unlogged from hquiet]
    rfl
  have hplan := planGuarded_of_footing h.planned h.goes hfooting hpc
  refine ⟨bus, hquiet, ?_⟩
  unfold Cpu.nextExecution
  rw [show c.fetch c.pc = (.ok word, { c with bus := bus }) from Prod.ext hword hbefore, ← hplan]

/-- **Each instruction of the loop leads to the other**, and nothing else changes. -/
theorem Loops.round {c : Cpu} {place : UInt64} {word : UInt32} {p : Plan}
    (h : (c.standing place).Loops word p) (hat : c.WaitsAt place) :
    ∃ q w, c.nextExecution.planned = .ok q ∧ c.nextExecution.worked = some w ∧ w.WaitsAt place ∧
      Alike false (c.standing place) (w.standing place) := by
  rcases hat with ⟨hpc, hslot⟩ | ⟨hpc, hslot⟩
  -- the branch changes nothing, and its delay slot comes next
  · obtain ⟨bus, hquiet, hexecution⟩ := h.nextExecution hpc
    let b : Cpu := { c with bus := bus }
    have hbase : b.successor = place + 4 := by
      show c.delaySlot.getD (c.pc + 4) = _
      rw [hslot, hpc]
      rfl
    refine ⟨p, b.follow (place + 4) (.branch place), ?_, ?_, .inr ⟨rfl, rfl⟩, ?_⟩
    · rw [hexecution]
    · rw [hexecution]
      show some ((b.apply p.effect).follow b.successor p.flow) = _
      rw [h.still b rfl, hbase, show p.flow = .branch place from h.goes]
    · exact (veiled_bus (c.standing place) false hquiet).symm
  -- nothing is in the delay slot, and the branch comes next
  · obtain ⟨v, hnop⟩ := c.planGuarded_nop
    have hpeek : c.peek? c.pc = some 0 := by
      rw [hpc]
      exact h.slot
    have hexecution : c.nextExecution = ⟨c, 0, c.planGuarded (.decode 0)⟩ := nextExecution_of_peek? hpeek
    refine ⟨{ effect := .register 0 v }, c.standing place, ?_, ?_, .inl ⟨rfl, rfl⟩, rfl⟩
    · rw [hexecution]
      exact hnop
    · rw [hexecution, hnop]
      show some ((c.setRegister 0 v).follow c.successor .sequential) = some (c.standing place)
      unfold successor setRegister
      rw [hslot, GeneralRegisters.set_zero]
      rfl

end Cpu

namespace Execution

/-- A device that the instruction is fetched from gives it again, and stays as it is. -/
def Refetched (e : Execution) : Prop :=
  ∀ a, e.before.resolve .word .fetch e.before.pc = .ok (.bus a) →
    (e.before.bus.read .word a).1.toUInt32 = e.word ∧
      ∀ d ∈ e.before.bus.answering? a, (d.respond d.state .word (a - d.base)).2 = d.state

instance (e : Execution) : Decidable e.Refetched :=
  match h : e.before.resolve .word .fetch e.before.pc with
  | .error _ => .isTrue fun _ ha => by cases h.symm.trans ha
  | .ok (.ram _) => .isTrue fun _ ha => by cases h.symm.trans ha
  | .ok (.bus a) =>
    have (d : Device) : Decidable ((d.respond d.state .word (a - d.base)).2 = d.state) :=
      ByteArray.instDecidableEq _ _
    decidable_of_iff ((e.before.bus.read .word a).1.toUInt32 = e.word ∧
        ∀ d ∈ e.before.bus.answering? a, (d.respond d.state .word (a - d.base)).2 = d.state)
      ⟨fun hr a' ha => by cases h.symm.trans ha; exact hr, fun hr => hr a h⟩

/-- The instruction may wait: the word in its delay slot is the one behind it, it is fetched and branches again from
the state that it leaves, and no interrupt is pending then. -/
structure GoesRound (e : Execution) : Prop where
  /-- Its delay slot is behind it. -/
  slot : e.before.successor = e.before.pc + 4
  /-- It is fetched again. -/
  refetched : e.Refetched
  /-- It does the same again. -/
  again : ∀ p, e.planned = .ok p → (e.before.apply p.effect).planGuarded (.decode e.word) = .ok p
  /-- Nothing is pending that would leave the loop. -/
  calm : e.after.updateInterrupts.interruptsPending = false

instance (e : Execution) : Decidable e.GoesRound :=
  match hp : e.planned with
  | .ok p =>
    decidable_of_iff
      (e.before.successor = e.before.pc + 4 ∧ e.Refetched ∧
        (e.before.apply p.effect).planGuarded (.decode e.word) = .ok p ∧
        e.after.updateInterrupts.interruptsPending = false)
      ⟨fun ⟨hslot, hfetch, hagain, hcalm⟩ =>
          ⟨hslot, hfetch, fun q hq => by cases hp.symm.trans hq; exact hagain, hcalm⟩,
        fun ⟨hslot, hfetch, hagain, hcalm⟩ => ⟨hslot, hfetch, hagain p hp, hcalm⟩⟩
  | .error f =>
    decidable_of_iff
      (e.before.successor = e.before.pc + 4 ∧ e.Refetched ∧ e.after.updateInterrupts.interruptsPending = false)
      ⟨fun ⟨hslot, hfetch, hcalm⟩ => ⟨hslot, hfetch, fun q hq => (by cases hp.symm.trans hq), hcalm⟩,
        fun ⟨hslot, hfetch, _, hcalm⟩ => ⟨hslot, hfetch, hcalm⟩⟩

/-- **Behind an execution** the cycles have passed by which it forwards time. -/
theorem after_eq_later {e : Execution} {w : Cpu} (hw : e.worked = some w) :
    ∃ statistics, e.after = { Cpu.later e.idleCycles w.retire with statistics := statistics } := by
  rw [e.after_eq, idleCycles, hw]
  dsimp only
  cases e.idle with
  | false =>
    rw [if_neg Bool.false_ne_true, if_neg Bool.false_ne_true]
    exact ⟨_, rfl⟩
  | true =>
    rw [if_pos rfl, if_pos rfl, Cpu.skipIdle_eq_later]
    exact ⟨_, rfl⟩

theorem idle_of_idleCycles {e : Execution} (h : e.idleCycles ≠ 0) : e.idle = true := by
  unfold idleCycles at h
  cases hw : e.worked with
  | none => rw [hw] at h; exact absurd rfl h
  | some w =>
    rw [hw] at h
    cases hi : e.idle with
    | true => rfl
    | false => rw [hi] at h; exact absurd rfl h

end Execution

namespace Cpu

/-- An instruction that waits is a branch to itself with nothing in its delay slot. -/
theorem branch_of_idle {c : Cpu} (h : c.nextExecution.idle = true) :
    ∃ p, (c.fetch c.pc).1 = .ok c.nextExecution.word ∧ c.nextExecution.before = (c.fetch c.pc).2 ∧
      c.nextExecution.planned = .ok p ∧
      (c.fetch c.pc).2.planGuarded (.decode c.nextExecution.word) = .ok p ∧ p.flow = .branch c.pc ∧
      (c.fetch c.pc).2.peek? (c.pc + 4) = some 0 := by
  have hpc := c.pc_fetch c.pc
  rcases hf : c.fetch c.pc with ⟨r, b⟩
  rw [hf] at hpc
  cases r with
  | error t =>
    have hexecution : c.nextExecution = ⟨b, 0, .error (.trap t)⟩ := by
      unfold nextExecution
      rw [hf]
    rw [hexecution] at h
    cases h
  | ok word =>
    have hexecution : c.nextExecution = ⟨b, word, b.planGuarded (.decode word)⟩ := by
      unfold nextExecution
      rw [hf]
    rw [hexecution] at h ⊢
    cases hp : b.planGuarded (.decode word) with
    | error f => rw [hp] at h; cases h
    | ok p =>
      rw [hp] at h
      have h : b.idles p.flow = true := h
      refine ⟨p, rfl, rfl, rfl, rfl, ?_⟩
      unfold idles at h
      rw [show b.pc = c.pc from hpc] at h
      split at h
      · rename_i target hflow
        simp only [Bool.and_eq_true, beq_iff_eq] at h
        obtain ⟨⟨-, rfl⟩, hpeek⟩ := h
        exact ⟨hflow, hpeek⟩
      · cases h

end Cpu

namespace Execution

/-- **What is fetched again** is the same, and leaves the devices as they were. -/
theorem Refetched.fetch {c : Cpu} (h : c.nextExecution.Refetched) {word : UInt32} (hword : (c.fetch c.pc).1 = .ok word)
    (hexecuted : c.nextExecution.word = word) (hbefore : c.nextExecution.before = (c.fetch c.pc).2) :
    ((c.fetch c.pc).2.fetch c.pc).1 = .ok word ∧
      ((c.fetch c.pc).2.fetch c.pc).2.bus.unlogged = (c.fetch c.pc).2.bus.unlogged := by
  unfold Refetched at h
  rw [hexecuted, hbefore, c.pc_fetch] at h
  have hresolve : (c.fetch c.pc).2.resolve .word .fetch c.pc = c.resolve .word .fetch c.pc := by
    obtain ⟨bus, hsnd⟩ := c.fetch_snd c.pc
    rw [hsnd]
    rfl
  cases hr : c.resolve .word .fetch c.pc with
  | error t =>
    unfold Cpu.fetch at hword
    rw [hr] at hword
    cases hword
  | ok l =>
    cases l with
    | ram offset =>
      -- nothing is changed by a fetch from main memory
      have hsame : (c.fetch c.pc).2 = c := by unfold Cpu.fetch; rw [hr]; rfl
      rw [hsame, hsame]
      exact ⟨hword, rfl⟩
    | bus a =>
      have hrecent {i : Nat} := c.recent_fetch (i := i) hr
      rw [hr] at hresolve
      obtain ⟨hread, hstill⟩ := h a hresolve
      generalize (c.fetch c.pc).2 = b at *
      have hfetch : b.fetch c.pc =
          (.ok (b.bus.read .word a).1.toUInt32, { b with bus := (b.bus.read .word a).2 }) := by
        unfold Cpu.fetch
        rw [hresolve]
        rfl
      rw [hfetch]
      exact ⟨congrArg Except.ok hread, Bus.unlogged_read_of_still (fun i hi => hrecent hi) hstill⟩

/-- **An instruction that waits**, and may, leads into a loop. -/
theorem GoesRound.loops {c w : Cpu} (h : c.nextExecution.GoesRound) (hidle : c.nextExecution.idle = true)
    (hw : c.nextExecution.worked = some w) :
    ∃ p, (w.standing c.pc).Loops c.nextExecution.word p ∧ w.WaitsAt c.pc := by
  obtain ⟨p, hword, hbefore, hplanned, hguarded, hflow, hpeek⟩ := Cpu.branch_of_idle hidle
  obtain ⟨hslot, hfetched, hagain, -⟩ := h
  have hagain := hagain p hplanned
  obtain ⟨hrefetch, hdevices⟩ := hfetched.fetch hword rfl hbefore
  have hpc := c.pc_fetch c.pc
  rw [hbefore] at hslot hagain
  rw [hpc] at hslot
  generalize hb : (c.fetch c.pc).2 = b at *
  obtain rfl : w = (b.apply p.effect).follow (c.pc + 4) (.branch c.pc) := by
    unfold worked at hw
    rw [hplanned] at hw
    dsimp only at hw
    rw [hbefore, hslot, hflow] at hw
    exact (Option.some.inj hw).symm
  -- the effect writes at most the register of the return address, and writes it again
  have heffect : ∃ regs : GeneralRegisters, b.apply p.effect = { b with regs := regs } ∧
      ∀ s : Cpu, s.regs = regs → s.apply p.effect = s := by
    have hplan : b.plan (.decode c.nextExecution.word) = .ok p := by
      unfold Cpu.planGuarded at hguarded
      split at hguarded
      · cases hguarded
      · exact hguarded
    obtain ⟨⟨link, hlink⟩, -⟩ := Cpu.plan_branch hplan hflow
    rw [hlink]
    cases link with
    | none => exact ⟨b.regs, rfl, fun s _ => rfl⟩
    | some rd =>
      refine ⟨b.regs.set rd b.linkAddress, rfl, fun s hs => ?_⟩
      show s.setRegister rd b.linkAddress = s
      have hset : s.regs.set rd b.linkAddress = s.regs := by
        rw [hs]
        unfold GeneralRegisters.set
        split
        · rfl
        · rw [RegisterFile.write_write]
      unfold Cpu.setRegister
      rw [hset]
  obtain ⟨regs, happly, hstill⟩ := heffect
  rw [happly] at hagain ⊢
  let s : Cpu := { b with regs := regs }
  have hfetch : ((s.standing c.pc).fetch c.pc).1 = (b.fetch c.pc).1 ∧
      ((s.standing c.pc).fetch c.pc).2.bus = (b.fetch c.pc).2.bus :=
    @Cpu.fetch_of_eq b (s.standing c.pc) rfl rfl rfl rfl c.pc
  refine ⟨p, ?_, .inr ⟨rfl, rfl⟩⟩
  show (s.standing c.pc).Loops c.nextExecution.word p
  constructor
  · exact hfetch.1.trans hrefetch
  · exact (congrArg Bus.unlogged hfetch.2).trans hdevices
  · exact hpeek
  · exact Cpu.planGuarded_of_footing hagain hflow rfl hpc.symm
  · exact hflow
  · exact hstill

end Execution

end Vr4300
