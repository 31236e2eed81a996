import Vr4300.Proofs.Frame

/-!
# `Proofs.Margin` — what no instruction looks at

The pending target, the counters and the notes about overwritten code are the margin of a processor. An
instruction may write there, but what it does to the rest does not depend on it: every operation commutes
with a change of the margin. Two comparisons use this. One instruction handler works on a processor whose
pending target is cleared; and the recompiler counts and takes notes that the interpreter does not.

## Contents

* `Margin`, `Cpu.adorn`: a processor with another margin;
* `plan_adorn`, `apply_adorn`, `takeException_adorn`, `retire_adorn`, …: one lemma per operation;
* `Cpu.masked`, `Like`: equality up to what only the recompiler knows, and that operations preserve it.
-/

namespace Vr4300

/-- The fields that no instruction depends on. -/
structure Margin where
  /-- Where execution continues after a delay slot. -/
  delaySlot : Option UInt64
  /-- Counters. -/
  statistics : Statistics
  /-- Ranges of overwritten instructions. -/
  codeInvalidations : List (UInt64 × UInt64)
  /-- A TLB entry was replaced. -/
  tlbDirty : Bool

/-- What an effect writes in the margin. -/
def Margin.note (t : Margin) : Effect → Margin
  | .tlbEntry _ _ => { t with tlbDirty := true }
  | .invalidateCode address =>
    let start := address &&& ~~~(Cpu.codeLineSize - 1)
    { t with
      codeInvalidations := t.codeInvalidations ++ [(start, max Cpu.codeLineSize 1 + (address - start))] }
  | _ => t

namespace Cpu

/-- The margin of a processor. -/
def margin (c : Cpu) : Margin := ⟨c.delaySlot, c.statistics, c.codeInvalidations, c.tlbDirty⟩

/-- The processor with another margin. -/
def adorn (c : Cpu) (t : Margin) : Cpu :=
  { c with
    delaySlot := t.delaySlot
    statistics := t.statistics
    codeInvalidations := t.codeInvalidations
    tlbDirty := t.tlbDirty }

/-! ## Deciding -/

/-- **What an instruction does** does not depend on the margin. -/
theorem plan_adorn (c : Cpu) (t : Margin) (i : Instruction) : (c.adorn t).plan i = c.plan i := by
  cases i with
  | load op rt base offset => cases op <;> rfl
  | store op rt base offset => cases op <;> rfl
  | system op => cases op <;> rfl
  | float op => cases op <;> rfl
  | latch op => cases op <;> rfl
  | trapIf test rs operand => cases operand <;> rfl
  | shift op rd rt amount => cases amount <;> rfl
  | readHiLo half rd => cases half <;> rfl
  | writeHiLo half rs => cases half <;> rfl
  | branch test likely link offset => cases test <;> rfl
  | _ => rfl

theorem planGuarded_adorn (c : Cpu) (t : Margin) (i : Instruction) :
    (c.adorn t).planGuarded i = c.planGuarded i := by
  show (if (i.needsFloat && !c.floatUsable) = true then _ else (c.adorn t).plan i) = _
  rw [plan_adorn]
  rfl

theorem idles_adorn (c : Cpu) (t : Margin) (f : Flow) : (c.adorn t).idles f = c.idles f := by
  cases f <;> rfl

theorem fetch_adorn (c : Cpu) (t : Margin) (address : UInt64) :
    (c.adorn t).fetch address = ((c.fetch address).1, (c.fetch address).2.adorn t) := by
  unfold fetch
  rw [show (c.adorn t).resolve .word .fetch address = c.resolve .word .fetch address from rfl]
  cases c.resolve .word .fetch address with
  | error x => rfl
  | ok l => cases l <;> rfl

/-! ## Carrying out -/

theorem schedule_adorn (c : Cpu) (t : Margin) (kind : EventKind) (n : Int) (action : TimerAction) :
    (c.adorn t).schedule kind n action = (c.schedule kind n action).adorn t := by
  unfold schedule
  rw [show (c.adorn t).events = c.events from rfl]
  cases c.events.add kind n action <;> rfl

theorem writeControl_adorn (c : Cpu) (t : Margin) (r : Reg) (v : UInt64) :
    (c.adorn t).writeControl r v = (c.writeControl r v).adorn t := by
  have hschedule (b : Cpu) : (b.adorn t).scheduleCompare = b.scheduleCompare.adorn t :=
    schedule_adorn { b with events := b.events.erase .compare } t .compare b.compareCountdown .compareMatch
  unfold writeControl
  rw [show (c.adorn t).cp0 = c.cp0 from rfl]
  cases c.cp0.write? r v with
  | none => rfl
  | some cp0 =>
    dsimp only
    split
    · exact hschedule { c with cp0 := cp0 }
    split
    · exact congrArg updateInterrupts
        (hschedule { c with cp0 := cp0.clearBits Control.cause Control.causeIP7 })
    split
    · rfl
    split
    · rfl
    split <;> rfl

/-- **No effect depends on the margin**, and only two write there. -/
theorem apply_adorn (c : Cpu) (t : Margin) (e : Effect) :
    (c.adorn t).apply e = (c.apply e).adorn (t.note e) := by
  cases e with
  | load w source into =>
    cases source <;> cases into with
    | float p ft => cases p <;> rfl
    | _ => rfl
  | store w target v => cases target <;> rfl
  | storeMasked w target v mask => cases target <;> rfl
  | storeLinked w target v rt => cases target <;> rfl
  | control rd v => exact writeControl_adorn c t rd v
  | float p fd bits fcr31 => cases p <;> rfl
  | _ => rfl

theorem margin_apply (c : Cpu) (e : Effect) : (c.apply e).margin = c.margin.note e :=
  congrArg margin (apply_adorn c c.margin e)

/-- An exception drops the pending target and is counted. -/
theorem takeException_adorn (c : Cpu) (t : Margin) (x : Trap) (inDelay : Bool) :
    (c.adorn t).takeException x inDelay =
      (c.takeException x inDelay).adorn
        { t with delaySlot := none, statistics := countException x t.statistics } := by
  have henter : (c.adorn t).enterException x inDelay = (c.enterException x inDelay).adorn t := by
    unfold enterException saveReturn
    rw [show (c.adorn t).cp0 = c.cp0 from rfl]
    cases c.cp0.hasStatus Control.statusEXL <;> cases inDelay <;> rfl
  have hbad (b : Cpu) : (b.adorn t).saveBadAddress x = (b.saveBadAddress x).adorn t := by
    unfold saveBadAddress
    cases x.badAddress? with
    | none => rfl
    | some address =>
      dsimp only
      cases x.isTlb <;> rfl
  let saved (b : Cpu) : Cpu :=
    statusChanged
      { b with
        cp0 := b.cp0.setBits Control.status Control.statusEXL
        pc := exceptionVector (c.cp0.hasStatus Control.statusBEV)
          (x.isRefill && !c.cp0.hasStatus Control.statusEXL)
        delaySlot := none
        statistics := countException x b.statistics }
  show saved (((c.adorn t).enterException x inDelay).saveBadAddress x) =
    (saved ((c.enterException x inDelay).saveBadAddress x)).adorn _
  rw [henter, hbad]
  rfl

/-! ## Cycles -/

/-- What falls due does not depend on the margin. -/
theorem fireDue_adorn (limit : Nat) (c : Cpu) (t : Margin) :
    fireDue limit (c.adorn t) = (fireDue limit c).adorn t :=
  fireDue_map (g := (adorn · t)) (fun _ => rfl) (fun _ _ => rfl)
    (fun c => congrArg updateInterrupts (schedule_adorn
      { c with cp0 := c.cp0.setBits Control.cause Control.causeIP7 } t .compare comparePeriod .compareMatch))
    (fun _ => rfl) limit c

theorem retire_adorn (c : Cpu) (t : Margin) : (c.adorn t).retire = c.retire.adorn t :=
  fireDue_adorn _ { c.passCycles 1 with opsExecuted := c.opsExecuted + 1, events := c.events.advance _ } t

theorem skipIdle_adorn (c : Cpu) (t : Margin) :
    (c.adorn t).skipIdle =
      c.skipIdle.adorn
        { t with
          statistics :=
            { t.statistics with idleCyclesSkipped := t.statistics.idleCyclesSkipped + c.idleCycles } } := by
  rw [skipIdle_eq, skipIdle_eq, show (c.adorn t).idleCycles = c.idleCycles from rfl]
  split
  · rfl
  · rename_i hk
    rw [Nat.eq_zero_of_not_pos hk]
    rfl

end Cpu

/-! ## What only the recompiler knows -/

/-- The counters of what the program did, without those of how it was executed. -/
def Statistics.architectural (s : Statistics) : Statistics :=
  { s with
    interpretedOps := 0
    compiledOps := 0
    fragmentsCompiled := 0
    fragmentRuns := 0
    bailouts := 0
    invalidatedFragments := 0 }

/-- The margin without what only the recompiler knows. -/
def Margin.masked (t : Margin) : Margin := ⟨t.delaySlot, t.statistics.architectural, [], false⟩

namespace Cpu

/-- The processor without what only the recompiler knows: how instructions were executed, and which of
them were overwritten. -/
def masked (c : Cpu) : Cpu :=
  { c with statistics := c.statistics.architectural, codeInvalidations := [], tlbDirty := false }

/-- The processors differ in what only the recompiler knows. -/
def Like (c c' : Cpu) : Prop := c.masked = c'.masked

theorem like_adorn {c : Cpu} {t : Margin} (h : t.masked = c.margin.masked) : Like c (c.adorn t) := by
  show c.adorn c.margin.masked = c.adorn t.masked
  rw [h]

namespace Like

variable {c c' : Cpu}

theorem symm (h : Like c c') : Like c' c := Eq.symm h

/-- They agree on everything that is not masked. -/
theorem same {α : Type} (h : Like c c') (f : Cpu → α) (hf : ∀ c, f c.masked = f c) : f c' = f c := by
  rw [← hf c, ← hf c', show c.masked = c'.masked from h]

/-- Two such processors differ in the margin. -/
theorem eq_adorn (h : Like c c') : c' = c.adorn c'.margin ∧ c'.margin.masked = c.margin.masked := by
  constructor
  · show c'.masked.adorn c'.margin = c.masked.adorn c'.margin
    rw [h]
  · exact congrArg margin h.symm

/-- An operation that commutes with changes of the margin preserves likeness. -/
theorem map {f : Cpu → Cpu} {g : Margin → Margin} (h : Like c c')
    (hf : ∀ t, f (c.adorn t) = (f c).adorn (g t))
    (hg : ∀ t t', t.masked = t'.masked → (g t).masked = (g t').masked) : Like (f c) (f c') := by
  obtain ⟨heq, hmargin⟩ := h.eq_adorn
  have hself : f c = (f c).adorn (g c.margin) := hf c.margin
  rw [heq, hf]
  apply like_adorn
  rw [hg _ _ hmargin, show (f c).margin = g c.margin from congrArg margin hself]

theorem plan (h : Like c c') (i : Instruction) : c'.plan i = c.plan i := by
  rw [h.eq_adorn.1, plan_adorn]

theorem planGuarded (h : Like c c') (i : Instruction) : c'.planGuarded i = c.planGuarded i := by
  rw [h.eq_adorn.1, planGuarded_adorn]

theorem idles (h : Like c c') (f : Flow) : c'.idles f = c.idles f := by
  rw [h.eq_adorn.1, idles_adorn]

theorem fetch (h : Like c c') (address : UInt64) :
    (c'.fetch address).1 = (c.fetch address).1 ∧ Like (c.fetch address).2 (c'.fetch address).2 := by
  obtain ⟨heq, hmargin⟩ := h.eq_adorn
  have hsnd : (c.fetch address).2.margin = c.margin := by
    obtain ⟨bus, hb⟩ := c.fetch_snd address
    rw [hb]
    rfl
  rw [heq, fetch_adorn]
  exact ⟨rfl, like_adorn (hmargin.trans (congrArg Margin.masked hsnd.symm))⟩

theorem updateInterrupts (h : Like c c') : Like c.updateInterrupts c'.updateInterrupts :=
  h.map (g := id) (fun _ => rfl) fun _ _ ht => ht

theorem apply (h : Like c c') (e : Effect) : Like (c.apply e) (c'.apply e) :=
  h.map (f := (·.apply e)) (fun t => apply_adorn c t e) fun t t' ht => by cases e <;> exact ht

theorem follow (h : Like c c') (base : UInt64) (f : Flow) : Like (c.follow base f) (c'.follow base f) := by
  refine h.map (f := (·.follow base f))
    (g := fun t => { t with delaySlot := (c.follow base f).delaySlot }) ?_ ?_
  · intro t
    cases f <;> rfl
  · intro t t' ht
    have hstatistics : t.statistics.architectural = t'.statistics.architectural := congrArg Margin.statistics ht
    unfold Margin.masked
    rw [hstatistics]

theorem takeException (h : Like c c') (x : Trap) (inDelay : Bool) :
    Like (c.takeException x inDelay) (c'.takeException x inDelay) := by
  refine h.map (f := (·.takeException x inDelay)) (fun t => takeException_adorn c t x inDelay) ?_
  intro t t' ht
  have hstatistics : t.statistics.architectural = t'.statistics.architectural := congrArg Margin.statistics ht
  have hcount (s : Statistics) : (countException x s).architectural = countException x s.architectural := by
    unfold countException
    split <;> rfl
  unfold Margin.masked
  rw [hcount, hcount, hstatistics]

theorem retire (h : Like c c') : Like c.retire c'.retire :=
  h.map (g := id) (fun t => retire_adorn c t) fun _ _ ht => ht

theorem skipIdle (h : Like c c') : Like c.skipIdle c'.skipIdle := by
  refine h.map (fun t => skipIdle_adorn c t) ?_
  intro t t' ht
  have hslot : t.masked.delaySlot = t'.masked.delaySlot := congrArg Margin.delaySlot ht
  have hstatistics : t.statistics.architectural = t'.statistics.architectural := congrArg Margin.statistics ht
  have hskip (s : Statistics) (n : Nat) :
      ({ s with idleCyclesSkipped := s.idleCyclesSkipped + n } : Statistics).architectural =
        { s.architectural with idleCyclesSkipped := s.architectural.idleCyclesSkipped + n } := rfl
  unfold Margin.masked
  rw [hskip, hskip, hstatistics, show t.delaySlot = t'.delaySlot from hslot]

/-- **Executing an instruction** answers the same and leaves like processors. -/
theorem execute (h : Like c c') (word : UInt32) (planned : Except Fault Plan) :
    (c'.execute word planned).1 = (c.execute word planned).1 ∧
      Like (c.execute word planned).2 (c'.execute word planned).2 := by
  have hpc := h.same Cpu.pc fun _ => rfl
  have hslot := h.same Cpu.inDelaySlot fun _ => rfl
  have hanswer (trapped : Bool) :
      (⟨c'.pc, word, c'.inDelaySlot, trapped⟩ : Retired) = ⟨c.pc, word, c.inDelaySlot, trapped⟩ := by
    rw [hpc, hslot]
  unfold Cpu.execute
  cases planned with
  | ok p =>
    have hretired := ((h.apply p.effect).follow c.successor p.flow).retire
    refine ⟨congrArg Except.ok (hanswer false), ?_⟩
    dsimp only
    rw [h.same Cpu.successor fun _ => rfl, h.idles]
    split
    · exact hretired.skipIdle
    · exact hretired
  | error f =>
    cases f with
    | trap x =>
      refine ⟨congrArg Except.ok (hanswer true), ?_⟩
      dsimp only
      rw [hslot]
      exact (h.takeException x c.inDelaySlot).retire
    | floatingPoint fcr31 =>
      have hfcr : Like { c with fcr31 := fcr31 } { c' with fcr31 := fcr31 } :=
        h.map (f := fun b => { b with fcr31 := fcr31 }) (g := id) (fun _ => rfl) fun _ _ ht => ht
      refine ⟨congrArg Except.ok (hanswer true), ?_⟩
      dsimp only
      rw [hslot]
      exact (hfcr.takeException .floatingPoint c.inDelaySlot).retire
    | fatal e => exact ⟨rfl, h⟩

/-- **A step**, likewise. -/
theorem step (h : Like c c') : c'.step.1 = c.step.1 ∧ Like c.step.2 c'.step.2 := by
  obtain ⟨hfst, hsnd⟩ := h.fetch c.pc
  have hpc := h.same Cpu.pc fun _ => rfl
  unfold Cpu.step
  rw [hpc]
  rcases hf : c.fetch c.pc with ⟨r, b⟩
  rcases hf' : c'.fetch c.pc with ⟨r', b'⟩
  rw [hf, hf'] at hfst hsnd
  obtain rfl : r' = r := hfst
  have hsnd : Like b b' := hsnd
  cases r' with
  | ok word =>
    dsimp only
    unfold executeWord
    rw [hsnd.planGuarded]
    exact hsnd.execute word _
  | error x =>
    have hpc' := hsnd.same Cpu.pc fun _ => rfl
    have hslot := hsnd.same Cpu.inDelaySlot fun _ => rfl
    dsimp only
    rw [hpc', hslot]
    exact ⟨rfl, (hsnd.takeException x b.inDelaySlot).retire⟩

end Like

end Cpu

end Vr4300
