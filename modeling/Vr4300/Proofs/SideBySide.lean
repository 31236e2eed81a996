import Vr4300.Proofs.Firings

/-!
# `Proofs.SideBySide` — with and without forwarding

Two interpreters run side by side, and only the first forwards time through idle loops. They are abreast, or
both are in an idle loop and the second is some cycles behind (`Related`). As long as it is behind it takes
turns alone, in which nothing falls due (`Pair.catchUp`). When they are abreast both take a turn, see the same
events, and are related again (`Pair.joint_of_alike`, `Pair.joint_of_loop`).

## Contents

* `Alike.takePending`, `Alike.takePending_of_loop`: interrupts;
* `Related`, `Execution.related_after`;
* `Machine.Pair`, `Joint`, `Alone`, `Pair.step`: the next turn.
-/

namespace Vr4300

open Control

/-! ## Alike -/

namespace Alike

variable {doubt : Bool} {c c' : Cpu}

theorem standing (h : Alike doubt c c') (place : UInt64) : Alike doubt (c.standing place) (c'.standing place) := by
  show (c.veiled doubt).standing place = (c'.veiled doubt).standing place
  rw [show c.veiled doubt = c'.veiled doubt from h]

theorem later (h : Alike doubt c c') (n : Nat) : Alike doubt (Cpu.later n c) (Cpu.later n c') := by
  have hcomm (b : Cpu) := Cpu.later_comm (g := (·.veiled doubt)) (Cpu.tick_veiled · doubt) n b
  unfold Alike
  rw [← hcomm c, ← hcomm c', show c.veiled doubt = c'.veiled doubt from h]

/-- What looks the same is alike. -/
theorem of_shown (h : c.shown = c'.shown) : Alike doubt c.updateInterrupts c'.updateInterrupts := by
  show c.shown.veiled doubt = c'.shown.veiled doubt
  rw [h]

end Alike

/-- Processors that differ at most in their places agree, if their places are those of an idle loop. -/
theorem Firing.agrees_of_alike {doubt : Bool} {x y : Firing} {place : UInt64} (hkinds : x.kinds = y.kinds)
    (htraps : x.traps = y.traps) (h : Alike doubt (x.cpu.standing place) (y.cpu.standing place))
    (hplace : x.cpu.pc = y.cpu.pc ∨ ∃ place word p, (x.cpu.standing place).Loops word p ∧
      x.cpu.WaitsAt place ∧ y.cpu.WaitsAt place) : x.Agrees y where
  kinds := hkinds
  cycles := h.symm.same Cpu.cycles fun _ => rfl
  regs := h.symm.same Cpu.regs fun _ => rfl
  hilo := h.symm.same Cpu.hilo fun _ => rfl
  fpr := h.symm.same Cpu.fpr fun _ => rfl
  fcr31 := h.symm.same Cpu.fcr31 fun _ => rfl
  ram := h.symm.same Cpu.ram fun _ => rfl
  control _ hr := h.symm.get hr
  traps := htraps
  place := hplace

/-! ## Interrupts in an idle loop -/

theorem ControlRegisters.hasStatus_of_interruptPending {b : ControlRegisters} (h : b.interruptPending = true) :
    b.hasStatus statusEXL = false := by
  unfold interruptPending at h
  simp only [Bool.and_eq_true, Bool.not_eq_true'] at h
  exact hasStatus_of_clear h.1.2 (by decide)

namespace Cpu

variable {c c' : Cpu} {doubt : Bool} {place : UInt64} {word : UInt32} {p : Plan}

/-- A processor that waits is in an idle loop. -/
theorem Loops.inIdleLoop (h : (c.standing place).Loops word p) (hat : c.WaitsAt place)
    (hskips : c.settings.idleLoopSkip = true) : c.inIdleLoop = true := by
  unfold Cpu.inIdleLoop
  rcases hat with ⟨hpc, hslot⟩ | ⟨hpc, hslot⟩
  · obtain ⟨bus, -, hexecution⟩ := h.nextExecution hpc
    have hidle : c.nextExecution.idle = true := by
      rw [hexecution]
      show idles { c with bus := bus } p.flow = true
      rw [show p.flow = .branch place from h.goes]
      show (c.settings.idleLoopSkip && place == c.pc && c.peek? (c.pc + 4) == some 0) = true
      rw [hskips, hpc, show c.peek? (place + 4) = some 0 from h.slot]
      simp
    rw [hidle, Bool.or_true]
  · have hback : place + 4 - 4 = place := UInt64.add_sub_cancel place 4
    rw [hslot, hpc, hback, show c.peek? (place + 4) = some 0 from h.slot]
    simp

/-- **An interrupt in an idle loop** leaves only the mark of the delay slot in doubt, whichever of the two
instructions it comes before. -/
theorem veiled_interrupt (hat : c.WaitsAt place) (hlevel : c.cp0.hasStatus statusEXL = false) :
    (c.takeException .interrupt c.inDelaySlot).veiled true =
      ((c.standing place).takeException .interrupt false).veiled true := by
  rcases hat with ⟨hpc, hslot⟩ | ⟨hpc, hslot⟩
  · have hstanding : c.standing place = c := by
      unfold standing
      rw [← hpc, ← hslot]
    have hdelay : c.inDelaySlot = false := by
      unfold inDelaySlot
      rw [hslot]
      rfl
    rw [hstanding, hdelay]
  · have hdelay : c.inDelaySlot = true := by
      unfold inDelaySlot
      rw [hslot]
      rfl
    have hback : c.pc - 4 = place := by
      rw [hpc]
      exact UInt64.add_sub_cancel place 4
    -- the return address is that of the branch, and the mark is veiled
    have hbank (b : ControlRegisters) :
        (b.setBits cause causeBD).unmarked true = (b.clearBits cause causeBD).unmarked true := by
      unfold ControlRegisters.setBits ControlRegisters.clearBits
      rw [ControlRegisters.unmarked_put_cause, ControlRegisters.unmarked_put_cause]
      show b.put cause ((b.values.read cause ||| causeBD) &&& ~~~causeBD) =
        b.put cause ((b.values.read cause &&& ~~~causeBD) &&& ~~~causeBD)
      rw [or_clear, UInt64.and_assoc, UInt64.and_self]
    have hreturn :
        ((c.saveReturn true).standing place).veiled true = ((c.standing place).saveReturn false).veiled true := by
      show ({ c with
          pc := place, delaySlot := none, cp0 := (c.cp0.put epc (c.pc - 4)).setBits cause causeBD } : Cpu).veiled true =
        ({ c with
          pc := place, delaySlot := none, cp0 := (c.cp0.put epc place).clearBits cause causeBD } : Cpu).veiled true
      unfold veiled
      dsimp only
      rw [hback, hbank]
    have henter (b : Cpu) (hb : b.cp0.hasStatus statusEXL = false) (inDelay : Bool) :
        b.takeException .interrupt inDelay =
          (((b.saveReturn inDelay).standing place).recordCause .interrupt).enterHandler .interrupt
            (b.handlerAddress .interrupt) := by
      have hsave : b.enterException .interrupt inDelay = (b.saveReturn inDelay).recordCause .interrupt := by
        unfold enterException
        rw [hb]
        rfl
      rw [takeException_eq_enterHandler, hsave]
      rfl
    rw [hdelay, henter c hlevel true, henter (c.standing place) hlevel false, ← veiled_enterHandler,
      ← recordCause_veiled, hreturn, recordCause_veiled, veiled_enterHandler]
    rfl

end Cpu

namespace Alike

variable {doubt after : Bool} {c c' : Cpu} {place : UInt64}

/-- Processors that are abreast take the same interrupt, which lifts a doubt. -/
theorem takePending (h : Alike doubt c.updateInterrupts c'.updateInterrupts)
    (hafter : c.updateInterrupts.interruptsPending = false → after = doubt) :
    Alike after c.takePending c'.takePending := by
  have hpending : c'.updateInterrupts.interruptsPending = c.updateInterrupts.interruptsPending :=
    h.same Cpu.interruptsPending fun _ => rfl
  have hslot : c'.inDelaySlot = c.inDelaySlot := h.same Cpu.inDelaySlot fun _ => rfl
  rcases c.takePending_cases with ⟨hp, htake⟩ | ⟨hp, htake⟩ <;>
    rcases c'.takePending_cases with ⟨hp', htake'⟩ | ⟨hp', htake'⟩ <;> rw [hpending, hp] at hp'
  · rw [htake, htake', hafter hp]
    exact h
  · cases hp'
  · cases hp'
  · rw [htake, htake', hslot]
    exact h.takeException .interrupt _ (.inr (ControlRegisters.hasStatus_of_interruptPending hp))

/-- **Processors in an idle loop** take the same interrupt, and leave the mark in doubt. -/
theorem takePending_of_loop (h : Alike doubt (c.updateInterrupts.standing place) (c'.updateInterrupts.standing place))
    (hat : c.WaitsAt place) (hat' : c'.WaitsAt place) (hp : c.updateInterrupts.interruptsPending = true) :
    Alike true c.takePending c'.takePending := by
  have hp' : c'.updateInterrupts.interruptsPending = true := (h.same Cpu.interruptsPending fun _ => rfl).trans hp
  have htake {b : Cpu} (hb : b.updateInterrupts.interruptsPending = true) (hw : b.WaitsAt place) :
      b.takePending.veiled true = ((b.updateInterrupts.standing place).takeException .interrupt false).veiled true := by
    have hlevel : b.updateInterrupts.cp0.hasStatus statusEXL = false :=
      ControlRegisters.hasStatus_of_interruptPending hb
    have htaken : b.takePending = b.updateInterrupts.takeException .interrupt b.updateInterrupts.inDelaySlot := by
      unfold Cpu.takePending
      dsimp only
      rw [hb, if_pos rfl]
      rfl
    rw [htaken]
    exact Cpu.veiled_interrupt (hw.of_eq rfl rfl) hlevel
  have hlevel : (c.updateInterrupts.standing place).cp0.hasStatus statusEXL = false :=
    ControlRegisters.hasStatus_of_interruptPending hp
  unfold Alike
  rw [htake hp hat, htake hp' hat']
  exact h.takeException .interrupt false (.inr hlevel)

end Alike

/-! ## Side by side -/

/-- How far two processors have come, of which the first forwards time through idle loops. -/
inductive Related (doubt : Bool) (c c' : Cpu) : Prop where
  /-- They are abreast. -/
  | abreast (h : Alike doubt c.updateInterrupts c'.updateInterrupts)
  /-- Both are in an idle loop, and the second is some cycles behind. -/
  | behind (lag : Nat) (place : UInt64) {word : UInt32} {p : Plan} (loops : (c.standing place).Loops word p)
      (first : c.WaitsAt place) (second : c'.WaitsAt place)
      (late : Alike doubt (c.updateInterrupts.standing place) (Cpu.later lag (c'.updateInterrupts.standing place)))
      (calm : 0 < lag → c.breakout = none ∧ c.updateInterrupts.interruptsPending = false)
  /-- Both runs are to end. -/
  | done {exit : Exit} (first : c.breakout = some exit) (second : c'.breakout = some exit)

namespace Related

variable {doubt : Bool} {c c' k k' : Cpu}

theorem of_shown (h : Related doubt c c') (hk : c.shown = k.shown) (hk' : c'.shown = k'.shown) :
    Related doubt k k' := by
  have hfirst : Alike doubt k.updateInterrupts c.updateInterrupts := .of_shown hk.symm
  have hsecond : Alike doubt c'.updateInterrupts k'.updateInterrupts := .of_shown hk'
  have hpc : k.pc = c.pc := Cpu.same_of_shown hk Cpu.pc fun _ => rfl
  have hslot : k.delaySlot = c.delaySlot := Cpu.same_of_shown hk Cpu.delaySlot fun _ => rfl
  have hbreak : k.breakout = c.breakout := Cpu.same_of_shown hk Cpu.breakout fun _ => rfl
  cases h with
  | abreast h => exact .abreast (hfirst.trans (h.trans hsecond))
  | behind lag place loops first second late calm =>
    have hfooting : (k.standing place).footing = (c.standing place).footing :=
      Cpu.same_of_shown hk (fun c => (c.standing place).footing) fun c =>
        Cpu.footing_updateInterrupts (c.standing place)
    refine .behind lag place (loops.of_footing hfooting rfl) (first.of_eq hpc hslot)
      (second.of_eq (Cpu.same_of_shown hk' Cpu.pc fun _ => rfl) (Cpu.same_of_shown hk' Cpu.delaySlot fun _ => rfl))
      ((hfirst.standing place).trans (late.trans ((hsecond.standing place).later lag))) ?_
    intro hlag
    rw [hbreak, hfirst.symm.same Cpu.interruptsPending fun _ => rfl]
    exact calm hlag
  | done first second =>
    exact .done (hbreak.trans first) ((Cpu.same_of_shown hk' Cpu.breakout fun _ => rfl).trans second)

/-- Both runs end, or neither. -/
theorem breakout (h : Related doubt c c') : c'.breakout = c.breakout := by
  cases h with
  | abreast h => exact h.same Cpu.breakout fun _ => rfl
  | behind lag place loops first second late calm =>
    have hlater := Cpu.later_preserves Cpu.breakout (fun _ => rfl) lag (c'.updateInterrupts.standing place)
    exact hlater.symm.trans (late.same Cpu.breakout fun _ => rfl)
  | done first second => rw [first, second]

end Related

namespace Execution

variable {doubt : Bool} {e ea eb : Execution} {w wa wb : Cpu}

/-- Behind an instruction only counters tell that time was forwarded. -/
theorem alike_after (hw : e.worked = some w) : Alike doubt e.after (Cpu.later e.idleCycles w.retire) := by
  obtain ⟨statistics, h⟩ := after_eq_later hw
  rw [h]
  rfl

/-- An instruction that does not forward time. -/
theorem alike_retire (hw : e.worked = some w) (hstays : e.idleCycles = 0) : Alike doubt e.after w.retire := by
  have h : Alike doubt e.after (Cpu.later e.idleCycles w.retire) := alike_after hw
  rw [hstays] at h
  exact h

/-- A processor that does not forward time. -/
theorem idleCycles_of_stays (h : e.before.settings.idleLoopSkip = false) : e.idleCycles = 0 := by
  have hidle : e.idle = false := by
    unfold idle
    cases e.planned with
    | error f => rfl
    | ok p =>
      dsimp only
      unfold Cpu.idles
      rw [h]
      cases p.flow <;> rfl
  unfold idleCycles
  rw [hidle]
  cases e.worked <;> rfl

/-- **Behind two instructions of an idle loop** the processor that forwarded time is ahead. -/
theorem related_after {place : UInt64} {word : UInt32} {p : Plan} (hwa : ea.worked = some wa)
    (hwb : eb.worked = some wb) (hTa : wa.Timed) (hTb : wb.Timed) (hstays : eb.idleCycles = 0)
    (hloops : (wa.standing place).Loops word p) (hfirst : wa.WaitsAt place) (hsecond : wb.WaitsAt place)
    (halike : Alike doubt (wa.standing place) (wb.standing place))
    (hcalm : ea.idleCycles ≠ 0 → ea.after.breakout = none →
      ea.after.updateInterrupts.interruptsPending = false) : Related doubt ea.after eb.after := by
  have hea : Alike doubt ea.after (Cpu.later ea.idleCycles wa.retire) := alike_after hwa
  have heb : Alike doubt eb.after wb.retire := alike_retire hwb hstays
  have hretire : Alike doubt (wa.retire.standing place) (wb.retire.standing place) := by
    rw [← Cpu.retire_standing, ← Cpu.retire_standing]
    exact halike.retire
  have hlater {α : Type} (f : Cpu → α) (hveil : ∀ c : Cpu, f (c.veiled doubt) = f c)
      (htick : ∀ c : Cpu, f c.tick = f c) : f ea.after = f wa.retire :=
    (hea.symm.same f hveil).trans (Cpu.later_preserves f htick _ _)
  have hbreak : eb.after.breakout = ea.after.breakout := by
    rw [heb.symm.same Cpu.breakout fun _ => rfl, hlater Cpu.breakout (fun _ => rfl) fun _ => rfl]
    exact hretire.same Cpu.breakout fun _ => rfl
  cases hstop : ea.after.breakout with
  | some exit => exact .done hstop (hbreak.trans hstop)
  | none =>
    obtain ⟨hpca, hslota⟩ := Cpu.pc_retire hTa
    obtain ⟨hpcb, hslotb⟩ := Cpu.pc_retire hTb
    have hfooting : (ea.after.standing place).footing = (wa.standing place).footing :=
      (hlater (fun c => (c.standing place).footing) (fun c => (c.standing place).footing_veiled doubt)
        fun c => (c.standing place).footing_tick).trans (Cpu.footing_retire hTa)
    refine .behind ea.idleCycles place (hloops.of_footing hfooting rfl)
      (hfirst.of_eq ((hlater Cpu.pc (fun _ => rfl) fun _ => rfl).trans hpca)
        ((hlater Cpu.delaySlot (fun _ => rfl) fun _ => rfl).trans hslota))
      (hsecond.of_eq ((heb.symm.same Cpu.pc fun _ => rfl).trans hpcb)
        ((heb.symm.same Cpu.delaySlot fun _ => rfl).trans hslotb)) ?_ ?_
    · have hcomm := Cpu.later_comm (g := fun c => c.updateInterrupts.standing place)
        (fun c => congrArg (·.standing place) c.tick_updateInterrupts) ea.idleCycles
      rw [hcomm]
      refine (hea.updateInterrupts.standing place).trans ?_
      rw [← hcomm, ← hcomm]
      exact Alike.later (Alike.updateInterrupts (hretire.trans (heb.symm.standing place))) ea.idleCycles
    · exact fun hlag => ⟨hstop, hcalm (Nat.pos_iff_ne_zero.mp hlag) hstop⟩

/-- **Behind two instructions alike** the processors are abreast, or the one that forwarded time is ahead. -/
theorem related_after_alike {c : Cpu} (hwa : c.nextExecution.worked = some wa) (hwb : eb.worked = some wb)
    (hTa : wa.Timed) (hTb : wb.Timed) (hstays : eb.idleCycles = 0) (halike : Alike doubt wa wb)
    (hround : c.nextExecution.idleCycles ≠ 0 → c.nextExecution.after.breakout = none →
      c.nextExecution.GoesRound) :
    Related doubt c.nextExecution.after eb.after := by
  have heb : Alike doubt eb.after wb.retire := alike_retire hwb hstays
  have hea : Alike doubt c.nextExecution.after (Cpu.later c.nextExecution.idleCycles wa.retire) := alike_after hwa
  by_cases hzero : c.nextExecution.idleCycles = 0
  · rw [hzero] at hea
    exact .abreast ((hea.trans (halike.retire.trans heb.symm)).updateInterrupts)
  · cases hstop : c.nextExecution.after.breakout with
    | some exit =>
      refine .done hstop ?_
      rw [← hstop, heb.symm.same Cpu.breakout fun _ => rfl, hea.symm.same Cpu.breakout fun _ => rfl,
        Cpu.later_preserves Cpu.breakout fun _ => rfl]
      exact halike.retire.same Cpu.breakout fun _ => rfl
    | none =>
      have hgoes := hround hzero hstop
      obtain ⟨p, hloops, hfirst⟩ := hgoes.loops (idle_of_idleCycles hzero) hwa
      have hsecond : wb.WaitsAt c.pc := hfirst.of_eq (halike.same Cpu.pc fun _ => rfl)
        (halike.same Cpu.delaySlot fun _ => rfl)
      exact related_after hwa hwb hTa hTb hstays hloops hfirst hsecond (halike.standing c.pc)
        fun _ _ => hgoes.calm

end Execution

namespace Machine

/-! ## Turns side by side -/

/-- A machine that forwards time through idle loops, and one that does not. -/
structure Pair (a b : Machine) : Prop where
  /-- The first is an interpreter, -/
  first : a.Plain
  /-- and so is the second. -/
  second : b.Plain
  /-- The first forwards time. -/
  skips : a.cpu.settings.idleLoopSkip = true
  /-- The second does not. -/
  stays : b.cpu.settings.idleLoopSkip = false

/-- Both machines take a turn. -/
structure Joint (doubt : Bool) (ra rb : Option UInt64) (a b : Machine) : Prop where
  /-- They take the same exceptions. -/
  traps : a.turnTraps ra = b.turnTraps rb
  /-- They agree if an event falls due. -/
  firings : ∀ traps, List.Forall₂ Firing.Agrees ((a.turnExecutions ra).filterMap (·.firing? traps))
    ((b.turnExecutions rb).filterMap (·.firing? traps))
  /-- Both are stopped, or both go on. -/
  next :
    (∃ x k l, a.turn ra = (some (.error x), k) ∧ b.turn rb = (some (.error x), l)) ∨
      ∃ k l, a.turn ra = (none, k) ∧ b.turn rb = (none, l) ∧ Pair k l ∧ Related doubt k.cpu l.cpu ∧
        ∀ n, (Suffices (n + 1) a.cpu → Suffices n k.cpu) ∧ (Suffices (n + 1) b.cpu → Suffices n l.cpu)

/-- The second machine takes a turn alone. -/
structure Alone (doubt : Bool) (rb : Option UInt64) (a b : Machine) : Prop where
  /-- It takes no exception. -/
  traps : b.turnTraps rb = []
  /-- Nothing falls due. -/
  firings : ∀ traps, (b.turnExecutions rb).filterMap (·.firing? traps) = []
  /-- It goes on. -/
  next : ∃ l, b.turn rb = (none, l) ∧ Pair a l ∧ Related doubt a.cpu l.cpu ∧
    ∀ n, Suffices (n + 1) b.cpu → Suffices n l.cpu

namespace Pair

variable {a b : Machine} {doubt : Bool} {wa wb : Cpu}

/-- The second machine never forwards time. -/
theorem idleCycles (h : Pair a b) : b.cpu.takePending.nextExecution.idleCycles = 0 :=
  Execution.idleCycles_of_stays <|
    (congrArg (fun s : GeneralSettings × Bool => s.1.idleLoopSkip) b.cpu.fixed_before).trans h.stays

/-- Both go on behind instructions that work. -/
theorem turn (h : Pair a b) (ha : a.cpu.breakout = none) (hb : b.cpu.breakout = none) (ra rb : Option UInt64)
    (hwa : a.cpu.takePending.nextExecution.worked = some wa) (hwb : b.cpu.takePending.nextExecution.worked = some wb)
    (hrelated : Related doubt a.cpu.takePending.nextExecution.after b.cpu.takePending.nextExecution.after) :
    ∃ k l, a.turn ra = (none, k) ∧ b.turn rb = (none, l) ∧ Pair k l ∧ Related doubt k.cpu l.cpu ∧
      ∀ n, (Suffices (n + 1) a.cpu → Suffices n k.cpu) ∧ (Suffices (n + 1) b.cpu → Suffices n l.cpu) := by
  obtain ⟨k, hturn, hk, hshown, hsettings, hless⟩ := h.first.turn ha ra hwa
  obtain ⟨l, hturn', hl, hshown', hsettings', hless'⟩ := h.second.turn hb rb hwb
  refine ⟨k, l, hturn, hturn', ⟨hk, hl, ?_, ?_⟩, hrelated.of_shown hshown.symm hshown'.symm,
    fun n => ⟨hless n, hless' n⟩⟩
  · rw [hsettings]
    exact h.skips
  · rw [hsettings']
    exact h.stays

/-- The points at the ends of two instructions, if the processors agree there. -/
theorem firings (h : Pair a b) (ha : a.cpu.breakout = none) (hb : b.cpu.breakout = none) (ra rb : Option UInt64)
    (hwa : a.cpu.takePending.nextExecution.worked = some wa) (hwb : b.cpu.takePending.nextExecution.worked = some wb)
    (hagree : ∀ traps, Firing.Agrees ⟨wa.falling, wa.retire, traps⟩ ⟨wb.falling, wb.retire, traps⟩)
    (traps : List Trap) :
    List.Forall₂ Firing.Agrees ((a.turnExecutions ra).filterMap (·.firing? traps))
      ((b.turnExecutions rb).filterMap (·.firing? traps)) := by
  have hkinds : wa.falling = wb.falling := (hagree traps).kinds
  rw [h.first.turnExecutions ha, h.second.turnExecutions hb, Execution.points_of_worked hwa,
    Execution.points_of_worked hwb, ← hkinds]
  split
  · exact .nil
  · have hself := hagree traps
    rw [← hkinds] at hself
    exact .cons hself .nil

/-- **A turn of two machines that are abreast** behind the interrupts that they may take. -/
theorem joint_of_alike (h : Pair a b) (ha : a.cpu.breakout = none) (hb : b.cpu.breakout = none)
    (ra rb : Option UInt64)
    (hpending : b.cpu.updateInterrupts.interruptsPending = a.cpu.updateInterrupts.interruptsPending)
    (halike : Alike doubt a.cpu.takePending b.cpu.takePending)
    (hreads : doubt = true → (Instruction.decode a.cpu.takePending.nextExecution.word).readsCause = false)
    (hround : a.cpu.takePending.nextExecution.idleCycles ≠ 0 →
      a.cpu.takePending.nextExecution.after.breakout = none → a.cpu.takePending.nextExecution.GoesRound) :
    Joint (a.cpu.takePending.nextExecution.doubtAfter doubt) ra rb a b := by
  obtain ⟨-, hplanned, hbefore⟩ := halike.nextExecution hreads
  have htraps : a.turnTraps ra = b.turnTraps rb := by
    have htrap : b.cpu.takePending.nextExecution.trap? = a.cpu.takePending.nextExecution.trap? := by
      unfold Execution.trap?
      rw [hplanned]
    unfold turnTraps
    rw [h.first.turnExecutions ha, h.second.turnExecutions hb, hpending, ha, hb]
    simp only [List.filterMap_cons, htrap]
  cases hwa : a.cpu.takePending.nextExecution.worked with
  | none =>
    -- the instruction stops both
    obtain ⟨x, hx⟩ : ∃ x, a.cpu.takePending.nextExecution.planned = .error (.fatal x) := by
      unfold Execution.worked at hwa
      split at hwa
      · cases hwa
      · cases hwa
      · cases hwa
      · exact ⟨_, ‹_›⟩
    have hwb : b.cpu.takePending.nextExecution.worked = none := by
      unfold Execution.worked
      rw [hplanned, hx]
    obtain ⟨k, hk⟩ := h.first.turn_fatal ha ra hx
    obtain ⟨l, hl⟩ := h.second.turn_fatal hb rb (hplanned.trans hx)
    refine ⟨htraps, fun traps => ?_, .inl ⟨x, k, l, hk, hl⟩⟩
    have hpoint {e : Execution} (hw : e.worked = none) : [e].filterMap (·.firing? traps) = [] := by
      have hfiring : e.firing? traps = none := by
        unfold Execution.firing?
        rw [hw]
      rw [List.filterMap_cons, hfiring]
      rfl
    rw [h.first.turnExecutions ha, h.second.turnExecutions hb, hpoint hwa, hpoint hwb]
    exact .nil
  | some wa =>
    obtain ⟨wb, hwb, hworked⟩ := Execution.alike_worked hbefore hplanned hwa
    have hTa := Execution.timed_worked hwa h.first.timed
    have hTb := Execution.timed_worked hwb h.second.timed
    have hretire := hworked.retire
    have hfalling : wb.falling = wa.falling := hworked.same Cpu.falling fun _ => rfl
    refine ⟨htraps, h.firings ha hb ra rb hwa hwb fun traps => ?_, .inr (h.turn ha hb ra rb hwa hwb ?_)⟩
    · exact Firing.agrees_of_alike hfalling.symm rfl (hretire.standing 0)
        (.inl (hretire.symm.same Cpu.pc fun _ => rfl))
    · exact Execution.related_after_alike hwa hwb hTa hTb h.idleCycles hworked hround

/-- **A turn of two machines in an idle loop** that no interrupt leaves. -/
theorem joint_of_loop (h : Pair a b) (ha : a.cpu.breakout = none) (hb : b.cpu.breakout = none)
    (ra rb : Option UInt64) {place : UInt64} {word : UInt32} {p : Plan}
    (hcalm : a.cpu.updateInterrupts.interruptsPending = false)
    (hcalm' : b.cpu.updateInterrupts.interruptsPending = false)
    (hloops : (a.cpu.standing place).Loops word p) (hfirst : a.cpu.WaitsAt place) (hsecond : b.cpu.WaitsAt place)
    (halike : Alike doubt (a.cpu.updateInterrupts.standing place) (b.cpu.updateInterrupts.standing place))
    (hround : a.cpu.takePending.nextExecution.idleCycles ≠ 0 →
      a.cpu.takePending.nextExecution.after.breakout = none → a.cpu.takePending.nextExecution.GoesRound) :
    Joint (a.cpu.takePending.nextExecution.doubtAfter doubt) ra rb a b := by
  have htakea := Cpu.takePending_of_calm hcalm
  have htakeb := Cpu.takePending_of_calm hcalm'
  have hloopsa : (a.cpu.updateInterrupts.standing place).Loops word p :=
    hloops.of_footing (Cpu.footing_updateInterrupts (a.cpu.standing place)) rfl
  have hfooting : (b.cpu.updateInterrupts.standing place).footing = (a.cpu.updateInterrupts.standing place).footing :=
    halike.same Cpu.footing (Cpu.footing_veiled · doubt)
  obtain ⟨q, wa, hplana, hwa, hata, hsamea⟩ := hloopsa.round (hfirst.of_eq rfl rfl)
  obtain ⟨q', wb, hplanb, hwb, hatb, hsameb⟩ := (hloopsa.of_footing hfooting rfl).round (hsecond.of_eq rfl rfl)
  rw [← htakea] at hplana hwa
  rw [← htakeb] at hplanb hwb
  have hdoubt : a.cpu.takePending.nextExecution.doubtAfter doubt = doubt := by
    unfold Execution.doubtAfter
    rw [hplana]
  have htraps : a.turnTraps ra = b.turnTraps rb := by
    rw [h.first.turnTraps ha ra hcalm hplana, h.second.turnTraps hb rb hcalm' hplanb]
  -- only the place tells the processors apart
  have hworked : Alike doubt (wa.standing place) (wb.standing place) :=
    (hsamea.weaken).symm.trans (halike.trans hsameb.weaken)
  have hTa := Execution.timed_worked hwa h.first.timed
  have hTb := Execution.timed_worked hwb h.second.timed
  have hretire : Alike doubt (wa.retire.standing place) (wb.retire.standing place) := by
    rw [← Cpu.retire_standing, ← Cpu.retire_standing]
    exact hworked.retire
  have hfalling : wa.falling = wb.falling := hworked.symm.same Cpu.falling fun _ => rfl
  have hround' : (wa.standing place).Loops word p :=
    hloopsa.of_footing (hsamea.same Cpu.footing (Cpu.footing_veiled · false)) rfl
  rw [hdoubt]
  refine ⟨htraps, h.firings ha hb ra rb hwa hwb fun traps => ?_, .inr (h.turn ha hb ra rb hwa hwb ?_)⟩
  · obtain ⟨hpca, hslota⟩ := Cpu.pc_retire hTa
    obtain ⟨hpcb, hslotb⟩ := Cpu.pc_retire hTb
    exact Firing.agrees_of_alike hfalling rfl hretire (.inr ⟨place, word, p,
      hround'.of_footing (Cpu.footing_retire hTa) rfl, hata.of_eq hpca hslota, hatb.of_eq hpcb hslotb⟩)
  · refine Execution.related_after hwa hwb hTa hTb h.idleCycles hround' hata hatb hworked ?_
    exact fun hidle hgo => (hround hidle hgo).calm

/-- **The second machine catches up**: nothing falls due in its turn. -/
theorem catchUp (h : Pair a b) (rb : Option UInt64) {lag : Nat} {place : UInt64} {word : UInt32} {p : Plan}
    (hloops : (a.cpu.standing place).Loops word p) (hfirst : a.cpu.WaitsAt place) (hsecond : b.cpu.WaitsAt place)
    (hlate : Alike doubt (a.cpu.updateInterrupts.standing place)
      (Cpu.later (lag + 1) (b.cpu.updateInterrupts.standing place)))
    (hcalm : a.cpu.breakout = none ∧ a.cpu.updateInterrupts.interruptsPending = false) :
    Alone doubt rb a b := by
  -- the cycles by which it is behind change nothing but the counters
  have hpast {α : Type} (f : Cpu → α) (hveil : ∀ c : Cpu, f (c.veiled doubt) = f c)
      (htick : ∀ c : Cpu, f c.tick = f c) :
      f (b.cpu.updateInterrupts.standing place) = f (a.cpu.updateInterrupts.standing place) :=
    (Cpu.later_preserves f htick _ _).symm.trans (hlate.same f hveil)
  have hb : b.cpu.breakout = none := (hpast Cpu.breakout (fun _ => rfl) fun _ => rfl).trans hcalm.1
  have hcalm' : b.cpu.updateInterrupts.interruptsPending = false :=
    (hpast Cpu.interruptsPending (fun _ => rfl) fun _ => rfl).trans hcalm.2
  have htake := Cpu.takePending_of_calm hcalm'
  have hloopsb : (b.cpu.updateInterrupts.standing place).Loops word p :=
    hloops.of_footing ((hpast Cpu.footing (Cpu.footing_veiled · doubt) Cpu.footing_tick).trans
      (Cpu.footing_updateInterrupts (a.cpu.standing place))) rfl
  obtain ⟨q, w, hplan, hw, hat, hsame⟩ := hloopsb.round (hsecond.of_eq rfl rfl)
  rw [← htake] at hplan hw
  have hT := Execution.timed_worked hw h.second.timed
  -- what is ahead of the first is further ahead of the second
  have hdue : ∀ r ∈ w.events.dueTimes, 1 < r.2 := by
    intro r hr
    have hevents : w.events = b.cpu.events := hsame.same Cpu.events fun _ => rfl
    have hahead : b.cpu.events.advance (lag + 1 : Nat) = a.cpu.events :=
      (Cpu.events_later (lag + 1) (b.cpu.updateInterrupts.standing place)).symm.trans
        (hlate.same Cpu.events fun _ => rfl)
    have hmem : (r.1, r.2 - (lag + 1 : Nat)) ∈ a.cpu.events.dueTimes := by
      rw [← hahead, Schedule.dueTimes_advance, ← hevents]
      exact List.mem_map.mpr ⟨r, hr, rfl⟩
    have hfirst := (h.first.orderly.timed.agenda.ahead _ hmem).1
    dsimp only at hfirst
    omega
  have hfalling : w.falling = [] := by
    unfold Cpu.falling
    rw [List.map_eq_nil_iff, List.filter_eq_nil_iff]
    intro r hr hle
    exact absurd (hdue r hr) (by simpa using hle)
  have hafter : Alike doubt b.cpu.takePending.nextExecution.after w.tick := by
    have hlater : Alike doubt b.cpu.takePending.nextExecution.after w.retire := Execution.alike_retire hw h.idleCycles
    rw [Cpu.retire_of_falling hfalling] at hlater
    exact hlater
  obtain ⟨hpc, hslot⟩ : b.cpu.takePending.nextExecution.after.pc = w.pc ∧
      b.cpu.takePending.nextExecution.after.delaySlot = w.delaySlot :=
    ⟨hafter.symm.same Cpu.pc fun _ => rfl, hafter.symm.same Cpu.delaySlot fun _ => rfl⟩
  -- so its turn is one of the cycles by which it is behind
  have hcloser : Alike doubt (Cpu.later lag (b.cpu.updateInterrupts.standing place).tick)
      (Cpu.later lag (b.cpu.takePending.nextExecution.after.updateInterrupts.standing place)) := by
    have hstart : Alike doubt (b.cpu.updateInterrupts.standing place) (w.standing place).updateInterrupts := by
      have hweak : Alike doubt (b.cpu.updateInterrupts.standing place) (w.standing place) := hsame.weaken
      have hsettled := hweak.updateInterrupts
      have hself : (b.cpu.updateInterrupts.standing place).updateInterrupts = b.cpu.updateInterrupts.standing place :=
        congrArg (·.standing place) b.cpu.updateInterrupts_updateInterrupts
      rw [hself] at hsettled
      exact hsettled
    have hticked := hstart.later 1
    have hsampled : Cpu.later 1 (w.standing place).updateInterrupts = w.tick.updateInterrupts.standing place :=
      (w.standing place).tick_updateInterrupts
    rw [hsampled] at hticked
    exact (hticked.trans (hafter.symm.updateInterrupts.standing place)).later lag
  obtain ⟨l, hturn, hl, hshown, hsettings, hless⟩ := h.second.turn hb rb hw
  refine ⟨h.second.turnTraps hb rb hcalm' hplan, fun traps => ?_, l, hturn, ⟨h.first, hl, h.skips, ?_⟩, ?_,
    hless⟩
  · rw [h.second.turnExecutions hb, Execution.points_of_worked hw, if_pos hfalling]
  · rw [hsettings]
    exact h.stays
  · have hrelated : Related doubt a.cpu b.cpu.takePending.nextExecution.after :=
      .behind lag place hloops hfirst (hat.of_eq hpc hslot) (hlate.trans hcloser) fun _ => hcalm
    exact hrelated.of_shown rfl hshown.symm

/-- **The next turn**: both take it, or the second, which is behind, takes it alone. -/
theorem step (h : Pair a b) (ha : a.cpu.breakout = none) (hrelated : Related doubt a.cpu b.cpu)
    (ra rb : Option UInt64)
    (hreads : a.doubtTaken doubt = true →
      (Instruction.decode a.cpu.takePending.nextExecution.word).readsCause = false)
    (hround : a.cpu.takePending.nextExecution.idleCycles ≠ 0 →
      a.cpu.takePending.nextExecution.after.breakout = none → a.cpu.takePending.nextExecution.GoesRound) :
    Joint (a.cpu.takePending.nextExecution.doubtAfter (a.doubtTaken doubt)) ra rb a b ∨ Alone doubt rb a b := by
  have hb : b.cpu.breakout = none := hrelated.breakout.trans ha
  cases hrelated with
  | abreast halike =>
    refine .inl (h.joint_of_alike ha hb ra rb (halike.same Cpu.interruptsPending fun _ => rfl)
      (halike.takePending fun hcalm => ?_) hreads hround)
    unfold doubtTaken
    rw [hcalm]
    rfl
  | behind lag place loops first second late calm =>
    cases lag with
    | succ lag => exact .inr (h.catchUp rb loops first second late (calm (Nat.succ_pos lag)))
    | zero =>
      have hpending : b.cpu.updateInterrupts.interruptsPending = a.cpu.updateInterrupts.interruptsPending :=
        late.same Cpu.interruptsPending fun _ => rfl
      left
      cases hp : a.cpu.updateInterrupts.interruptsPending with
      | false =>
        have htaken : a.doubtTaken doubt = doubt := by
          unfold doubtTaken
          rw [hp]
          rfl
        rw [htaken]
        exact h.joint_of_loop ha hb ra rb hp (hpending.trans hp) loops first second late hround
      | true =>
        have hloops : (a.cpu.updateInterrupts.standing place).Loops _ _ :=
          loops.of_footing (Cpu.footing_updateInterrupts (a.cpu.standing place)) rfl
        have htaken : a.doubtTaken doubt = true := by
          unfold doubtTaken
          rw [hp]
          exact hloops.inIdleLoop (first.of_eq rfl rfl) h.skips
        rw [htaken] at hreads ⊢
        exact h.joint_of_alike ha hb ra rb hpending (late.takePending_of_loop first second hp) hreads hround
  | done first second =>
    rw [ha] at first
    cases first

end Pair

end Machine

end Vr4300
