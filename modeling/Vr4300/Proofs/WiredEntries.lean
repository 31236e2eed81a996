import Vr4300.Proofs.Countdown
import Vr4300.Proofs.Uptakes

/-!
# `Proofs.WiredEntries` — wired entries are safe from random writes

A random TLB write replaces the entry that Random names, and Random does not fall below Wired. So the entries below
Wired stay what they are until they are written by their number, or the machine is reset. Only two instructions
replace an entry, and nothing else that happens to a machine does.

In a fragment the write finds the clock settled, whatever has been deferred before it, so that it replaces the entry
that it replaces when it is interpreted.

## Contents

* `Execution.replaces?`, `tlb_after`, `OfWord.replaces`: which instruction replaces which entry;
* `OfWord.tlb_after_random`, `OfWord.get_after`: random writes, and what they leave alone;
* `Ledger.entries`, `Happening.Spares`, `get_spared`, `get_kept`: entries along a history;
* `Fragment.random_uptake`: random writes in a fragment;
* **`wired_entries_safe`**.
-/

namespace Vr4300

open Control

/-! ## What replaces an entry -/

/-- The entry that the effect replaces, and what it puts there. -/
def Effect.replaces? : Effect → Option (TlbIndex × TlbEntry)
  | .tlbEntry i entry => some (i, entry)
  | _ => Option.none

namespace Cpu

theorem tlb_writeControl (c : Cpu) (r : Reg) (v : UInt64) : (c.writeControl r v).tlb = c.tlb := by
  have hcompare (b : Cpu) : b.scheduleCompare.tlb = b.tlb :=
    same_of_lasting (lasting_schedule { b with events := b.events.erase .compare } .compare _ .compareMatch)
      (·.tlb) fun _ => rfl
  unfold writeControl
  cases c.cp0.write? r v with
  | none => rfl
  | some cp0 =>
    dsimp only
    split
    · exact hcompare { c with cp0 := cp0 }
    split
    · exact hcompare { c with cp0 := cp0.clearBits cause causeIP7 }
    split
    · rfl
    split
    · rfl
    split <;> rfl

/-- A reset clears the entries. -/
theorem tlb_reset (c : Cpu) : c.reset.tlb = {} := by
  let started : Cpu := statusChanged
    { pc := c.settings.startPc
      cp0 := .atReset c.resetValues.initialStatus c.resetValues.initialConfig
      ram := c.ram
      bus := c.bus
      line := c.line
      tlbDirty := true
      settings := c.settings
      resetValues := c.resetValues }
  exact same_of_lasting (a := c.reset) (b := started)
    ((lasting_updateInterrupts started.scheduleCompare).trans
      (lasting_schedule { started with events := started.events.erase .compare } .compare _ .compareMatch))
    (·.tlb) fun _ => rfl

/-- **An effect** replaces one entry at most. -/
theorem tlb_apply (c : Cpu) (e : Effect) :
    (c.apply e).tlb = e.replaces?.elim c.tlb fun r => c.tlb.set r.1 r.2 := by
  have hread (w : Width) (l : Location) : (c.readAt w l).2.tlb = c.tlb := by cases l <;> rfl
  have hdeliver (b : Cpu) (w : Width) (v : UInt64) (d : Destination) : (b.deliver w v d).tlb = b.tlb := by
    cases d with
    | float p ft => cases p <;> rfl
    | _ => rfl
  have hwrite (b : Cpu) (w : Width) (l : Location) (v : UInt64) : (b.writeAt w l v).tlb = b.tlb := by
    cases l <;> rfl
  cases e with
  | load w source into => exact (hdeliver _ _ _ _).trans (hread _ _)
  | store w target v => exact hwrite _ _ _ _
  | storeMasked w target v mask => exact (hwrite _ _ _ _).trans (hread _ _)
  | storeLinked w target v rt => exact hwrite _ _ _ _
  | control rd v => exact c.tlb_writeControl rd v
  | float p fd bits fcr31 => cases p <;> rfl
  | _ => rfl

theorem tlb_takeException (c : Cpu) (t : Trap) (inDelay : Bool) : (c.takeException t inDelay).tlb = c.tlb := by
  obtain ⟨cp0, pc, fpr, usable, pending, statistics, h⟩ := takeException_frame c t inDelay
  rw [h]

end Cpu

namespace Execution

/-- The entry that the instruction replaces, and what it puts there. -/
def replaces? (e : Execution) : Option (TlbIndex × TlbEntry) :=
  match e.planned with
  | .ok p => p.effect.replaces?
  | .error _ => none

/-- **An instruction** replaces one entry at most. -/
theorem tlb_after (e : Execution) :
    e.after.tlb = e.replaces?.elim e.before.tlb fun r => e.before.tlb.set r.1 r.2 := by
  cases hw : e.worked with
  | none =>
    rw [e.after_eq, hw]
    obtain ⟨before, word, planned⟩ := e
    cases planned with
    | ok p => cases hw
    | error f => rfl
  | some b =>
    refine (Cpu.same_of_lasting (lasting_after hw) (·.tlb) fun _ => rfl).trans ?_
    obtain ⟨before, word, planned⟩ := e
    cases planned with
    | ok p =>
      obtain rfl := Option.some.inj hw
      refine Eq.trans ?_ (before.tlb_apply p.effect)
      cases p.flow <;> rfl
    | error f =>
      cases f with
      | trap t =>
        obtain rfl := Option.some.inj hw
        exact before.tlb_takeException t _
      | floatingPoint fcr31 =>
        obtain rfl := Option.some.inj hw
        exact Cpu.tlb_takeException { before with fcr31 := fcr31 } _ _
      | fatal x => cases hw

end Execution

/-! ## Which instructions replace an entry -/

namespace Cpu

/-- What a plan replaces. -/
def replacedBy : Except Fault Plan → Option (TlbIndex × TlbEntry)
  | .ok p => p.effect.replaces?
  | .error _ => none

theorem replacedBy_checked (rd : Reg) (result : Option UInt64) : replacedBy (writesChecked rd result) = none := by
  cases result <;> rfl

theorem replacedBy_located {c : Cpu} {w : Width} {access : Access} {address : UInt64} {f : Location → Effect}
    (h : ∀ l, (f l).replaces? = none) :
    replacedBy (c.locate w access address >>= fun l => pure { effect := f l }) = none := by
  unfold locate
  cases c.resolve w access address with
  | error t => rfl
  | ok l => exact h l

theorem replacedBy_recorded {c : Cpu} {raised : FloatingPoint.ExceptionSet} {f : FloatingPoint.Fcr31 → Effect}
    (h : ∀ r, (f r).replaces? = none) : replacedBy (c.recorded raised f) = none := by
  unfold recorded
  rcases c.fcr31.record raised with ⟨quiet, r⟩
  cases quiet with
  | true => exact h r
  | false => rfl

/-- **Only an operation of the system control coprocessor** replaces an entry. -/
theorem replacedBy_plan (c : Cpu) {i : Instruction} (h : ∀ op, i ≠ .system op) : replacedBy (c.plan i) = none := by
  have hconditional (w : Width) (rt : Reg) (address : UInt64) :
      replacedBy (c.planConditionalStore w rt address) = none :=
    replacedBy_located fun _ => by split <;> rfl
  cases i with
  | system op => exact absurd rfl (h op)
  | immediate op rt rs value => cases op <;> first | rfl | exact replacedBy_checked _ _
  | register op rd rs rt => cases op <;> first | rfl | exact replacedBy_checked _ _
  | load op rt base offset => cases op <;> exact replacedBy_located fun _ => rfl
  | store op rt base offset =>
    cases op with
    | sc => exact hconditional .word rt _
    | scd => exact hconditional .double rt _
    | _ => exact replacedBy_located fun _ => rfl
  | readHiLo half rd => cases half <;> rfl
  | writeHiLo half rs => cases half <;> rfl
  | trapIf test rs operand =>
    unfold plan
    dsimp only
    split <;> rfl
  | cache selector base offset =>
    unfold plan
    dsimp only
    split <;> rfl
  | jump link offset => cases link <;> rfl
  | jumpRegister rs link => cases link <;> rfl
  | branch test likely link offset => cases link <;> rfl
  | latch op =>
    show replacedBy (c.planLatch op) = none
    unfold planLatch
    split
    · cases op <;> rfl
    · rfl
  | float op =>
    cases op with
    | ctc1 rt fs =>
      show replacedBy (planFloatControl fs _) = none
      unfold planFloatControl
      dsimp only
      split
      · split <;> rfl
      · rfl
    | mfc1 | dmfc1 | cfc1 | mtc1 | dmtc1 | mov => rfl
    | _ => exact replacedBy_recorded fun _ => rfl
  | _ => rfl

end Cpu

namespace Execution

variable {e : Execution}

/-- **An operation of the system control coprocessor** is planned as such. -/
theorem OfWord.planned_system (h : e.OfWord) {op : SystemOp} (hop : Instruction.decode e.word = .system op) :
    e.planned = .ok (e.before.planSystem op) := by
  rcases h with h | h | ⟨hzero, -⟩
  · rw [h, hop]
    rfl
  · rw [h, hop]
    rfl
  · rw [hzero] at hop
    cases hop

/-- **What replaces an entry** is the write of the entry that Index names, or of the one that Random names. -/
theorem OfWord.replaces (h : e.OfWord) {i : TlbIndex} {entry : TlbEntry} (hr : e.replaces? = some (i, entry)) :
    ∃ op, Instruction.decode e.word = .system op ∧ e.before.replaces op = some i := by
  have hplan : Cpu.replacedBy e.planned = some (i, entry) := hr
  have hsystem : ∃ op, Instruction.decode e.word = .system op := by
    by_contra hnone
    have hother (op : SystemOp) : Instruction.decode e.word ≠ .system op := fun hop => hnone ⟨op, hop⟩
    have hnothing := e.before.replacedBy_plan hother
    rcases h with h | h | ⟨-, t, h⟩
    · rw [h, hnothing] at hplan
      cases hplan
    · rw [h] at hplan
      unfold Cpu.planGuarded at hplan
      split at hplan
      · cases hplan
      · rw [hnothing] at hplan
        cases hplan
    · rw [h] at hplan
      cases hplan
  obtain ⟨op, hop⟩ := hsystem
  refine ⟨op, hop, ?_⟩
  rw [h.planned_system hop] at hplan
  cases op <;> cases hplan <;> rfl

end Execution

/-! ## What random writes leave alone -/

namespace Execution

variable {e : Execution}

/-- The instruction writes the entry by its number. -/
def Indexes (e : Execution) (i : TlbIndex) : Prop :=
  Instruction.decode e.word = .system .tlbwi ∧ e.before.indexedEntry = i

/-- **A random write** replaces the entry that Random names. -/
theorem OfWord.replaces_random (h : e.OfWord) (hop : Instruction.decode e.word = .system .tlbwr) :
    e.replaces? = some (Fin.ofNat 32 e.before.random.toNat, e.before.describedEntry) := by
  unfold replaces?
  rw [h.planned_system hop]
  rfl

theorem OfWord.tlb_after_random (h : e.OfWord) (hop : Instruction.decode e.word = .system .tlbwr) :
    e.after.tlb = e.before.tlb.set (Fin.ofNat 32 e.before.random.toNat) e.before.describedEntry := by
  rw [e.tlb_after, h.replaces_random hop]
  rfl

/-- **An entry below the floor** stays what it is, unless it is written by its number. -/
theorem OfWord.get_after (h : e.OfWord) {i : TlbIndex} (hwired : i.val < e.before.randomFloor)
    (hindex : ¬ e.Indexes i) : e.after.tlb.get i = e.before.tlb.get i := by
  rw [e.tlb_after]
  cases hr : e.replaces? with
  | none => rfl
  | some r =>
    obtain ⟨j, entry⟩ := r
    obtain ⟨op, hop, hj⟩ := h.replaces hr
    refine Tlb.get_set_of_ne _ entry fun hij => ?_
    obtain rfl : j = i := hij
    cases op with
    | tlbwi => exact hindex ⟨hop, Option.some.inj hj⟩
    | tlbwr =>
      obtain ⟨hlow, hhigh⟩ := e.before.random_bounds
      obtain rfl := Option.some.inj hj
      have hval : (Fin.ofNat 32 e.before.random.toNat).val = e.before.random.toNat :=
        Nat.mod_eq_of_lt (Nat.lt_succ_of_le hhigh)
      omega
    | _ => cases hj

end Execution

/-! ## Histories -/

/-- The entries behind a happening. -/
def Happening.entries (tlb : Tlb) : Happening → Tlb
  | .executed e => e.after.tlb
  | .wrote _ _ => tlb
  | .reset => {}

/-- **The ledger of the entries.** -/
def Ledger.entries : Ledger Tlb where
  Holds c tlb := c.tlb = tlb
  enter := Happening.entries
  quiet hq h := (congrArg Mapping.tlb hq.mapping).trans h
  apart _ _ _ h := h
  executed _ _ := rfl
  wrote r v h := (Cpu.tlb_writeControl _ r v).trans h
  reset _ := Cpu.tlb_reset _

/-- The happening leaves an entry to random writes: it is below the floor, nobody writes it by its number, and there is
no reset. -/
def Happening.Spares (i : TlbIndex) : Happening → Prop
  | .executed e => i.val < e.before.randomFloor ∧ ¬ e.Indexes i
  | .wrote _ _ => True
  | .reset => False

instance (i : TlbIndex) : DecidablePred (Happening.Spares i)
  | .executed e => inferInstanceAs (Decidable (i.val < e.before.randomFloor ∧ ¬ (_ ∧ _)))
  | .wrote _ _ => inferInstanceAs (Decidable True)
  | .reset => inferInstanceAs (Decidable False)

/-- **A spared entry** stays what it is. -/
theorem get_spared {i : TlbIndex} {js : List Happening} (hspares : ∀ j ∈ js, j.Spares i)
    (hwords : ∀ e, .executed e ∈ js → e.OfWord) :
    ∀ {tlb : Tlb}, Ledger.entries.Follows tlb js → (Ledger.entries.after tlb js).get i = tlb.get i := by
  induction js with
  | nil => exact fun _ => rfl
  | cons j rest ih =>
    intro tlb hfollows
    have hrest := ih (fun k hk => hspares k (List.mem_cons_of_mem _ hk))
      (fun e he => hwords e (List.mem_cons_of_mem _ he)) hfollows.tail
    refine hrest.trans ?_
    have hj := hspares j List.mem_cons_self
    cases j with
    | executed e =>
      have hbefore : e.before.tlb = tlb := hfollows.head
      rw [← hbefore]
      exact (hwords e List.mem_cons_self).get_after hj.1 hj.2
    | wrote r v => rfl
    | reset => exact hj.elim

namespace Machine

/-- Whatever is done to a machine, its timer is pending, and everything else that is pending lies ahead. -/
theorem timed_receive {m : Machine} {past : List TimerEvent} (h : m.AtRest past) (visits : List Visit) :
    (m.receive visits).tandem.cpu.Timed :=
  (atRest_performAll (visits.map Visit.action) h).1.ticking.timed

/-- What happens in an action is planned as its words say. -/
theorem ofWord_happenings (m : Machine) (a : HostAction) : ∀ e, .executed e ∈ a.happenings m → e.OfWord := by
  intro e he
  cases a with
  | run budget =>
    obtain ⟨f, hf, heq⟩ := List.mem_map.mp he
    exact Happening.executed.inj heq ▸ ofWord_executions m budget f hf
  | step => exact Happening.executed.inj (List.mem_singleton.mp he) ▸ ofWord_nextExecution _
  | _ => simp [HostAction.happenings] at he

theorem ofWord_journal (actions : List HostAction) :
    ∀ (m : Machine) (e : Execution), .executed e ∈ m.journal actions → e.OfWord := by
  induction actions with
  | nil => exact fun _ _ he => absurd he List.not_mem_nil
  | cons a rest ih =>
    intro m e he
    rcases List.mem_append.mp he with he | he
    · exact ofWord_happenings m a e he
    · exact ih _ e he

end Machine

/-! ## Random writes in a fragment -/

namespace Fragment

/-- **A random write in a fragment** is not deferred. What it finds and what it replaces is what the interpreter finds
and replaces there. -/
theorem random_uptake {t : Tandem} {k : Nat} {s : Uptake}
    (h : s.execution = (Tandem.stepped^[k] t).cpu.nextExecution.tally k 1 0)
    (hop : Instruction.decode s.op.word = .system .tlbwr) :
    deferredPlan? s.account s.tandem.cpu s.op = none ∧
      s.execution.before.random = (Tandem.stepped^[k] t).cpu.random ∧
      s.execution.replaces? =
        some (Fin.ofNat 32 (Tandem.stepped^[k] t).cpu.random.toNat, (Tandem.stepped^[k] t).cpu.describedEntry) ∧
      (Tandem.stepped^[k] t).cpu.nextExecution.replaces? = s.execution.replaces? := by
  obtain ⟨bus, hbus⟩ := (Tandem.stepped^[k] t).cpu.exists_nextExecution_before
  have hword : (Tandem.stepped^[k] t).cpu.nextExecution.word = s.op.word := (congrArg Execution.word h).symm
  have hreplaces := (Machine.ofWord_nextExecution (Tandem.stepped^[k] t).cpu).replaces_random (hword ▸ hop)
  rw [hbus] at hreplaces
  have hsame : s.execution.replaces? = (Tandem.stepped^[k] t).cpu.nextExecution.replaces? := by
    rw [h]
    rfl
  refine ⟨deferredPlan?_of_kind ?_, ?_, hsame.trans hreplaces, hsame.symm⟩
  · rw [s.op.instruction_eq, hop]
    decide
  · rw [h]
    show (Tandem.stepped^[k] t).cpu.nextExecution.before.random = _
    rw [hbus]
    rfl

end Fragment

/-! ## Wired entries -/

/-- An instruction that writes Wired does its work, and behind it Random is 31. -/
theorem Execution.worked_wired {e : Execution} {d : Dial} (hd : e.before.AtDial d) {v : UInt64}
    (h : e.wired? = some v) :
    ∃ b, e.worked = some b ∧ b.cycles = e.before.cycles ∧ b.random = 31 ∧ b.randomFloor = min (v.toNat % 64) 31 := by
  have hworked : ∃ b, e.worked = some b := by
    obtain ⟨before, word, planned⟩ := e
    cases planned with
    | ok p => exact ⟨_, rfl⟩
    | error f => cases h
  obtain ⟨b, hb⟩ := hworked
  have hdial := atDial_worked hb hd
  rw [h] at hdial
  exact ⟨b, hb, congrArg Surround.cycles (surround_worked hb),
    UInt64.toNat_inj.mp (hdial.random.trans (Dial.random_written v)), hdial.floor⟩

/-- **An entry that is spared** from one instruction of a machine to another is the same for both. -/
theorem get_kept {journal : List Happening} {c : Cpu} (hkept : Ledger.entries.Kept journal {} c)
    (hwords : ∀ e, .executed e ∈ journal → e.OfWord) {earlier between later : List Happening} {e f : Execution}
    (hjournal : journal = earlier ++ .executed e :: between ++ .executed f :: later) {i : TlbIndex}
    (hspares : ∀ j ∈ Happening.executed e :: between, j.Spares i) : f.before.tlb.get i = e.before.tlb.get i := by
  have hlast : f.before.tlb = Ledger.entries.after {} (earlier ++ .executed e :: between) :=
    hkept.instructions (earlier ++ .executed e :: between) f later hjournal
  have hfollows : Ledger.entries.Follows (Ledger.entries.after {} earlier) (.executed e :: between) :=
    hkept.within hjournal
  have hfirst : e.before.tlb = Ledger.entries.after {} earlier := hfollows.head
  rw [hlast, hfirst, Ledger.after_append]
  refine get_spared hspares (fun x hx => hwords x ?_) hfollows
  rw [hjournal]
  exact List.mem_append_left _ (List.mem_append_right _ hx)

/-- What is seen of the countdown in a happening: the word of the instruction and what it writes to Wired, with the
cycles that it takes, Random, the floor, and the cycles since Wired was written. -/
def Happening.reading : Happening → Option (UInt32 × Option UInt64 × List Nat)
  | .executed e => some (e.word, e.wired?, [e.cycles, e.before.random.toNat, e.before.randomFloor,
      (e.before.cycles - e.before.randomEpoch).toNat])
  | .wrote _ _ => none
  | .reset => none

theorem Happening.exists_of_reading {j : Happening} {word : UInt32} {v : Option UInt64}
    {cycles random floor elapsed : Nat} (h : j.reading = some (word, v, [cycles, random, floor, elapsed])) :
    ∃ e, j = .executed e ∧ e.word = word ∧ e.wired? = v ∧ e.cycles = cycles ∧ e.before.random.toNat = random ∧
      e.before.randomFloor = floor ∧ (e.before.cycles - e.before.randomEpoch).toNat = elapsed := by
  cases j with
  | executed e =>
    have h := Option.some.inj h
    simp only [Prod.mk.injEq, List.cons.injEq] at h
    obtain ⟨hword, hwired, hcycles, hrandom, hfloor, helapsed, -⟩ := h
    exact ⟨e, rfl, hword, hwired, hcycles, hrandom, hfloor, helapsed⟩
  | wrote r v => cases h
  | reset => cases h

open Fragment in
/-- **Wired entries are safe from random writes**, whatever is done to a machine, however often Wired is written and
whatever is written to it.

In every state Random lies between the floor, which is Wired or 31, and 31. A write of Wired makes it 31 in the cycle
in which it is made. From there on it falls: over consecutive cycles, without a write of Wired, an idle loop or a
reset, it counts down to the floor and from there begins again at 31, and takes each value once in a turn. A random
write replaces the entry that Random names and leaves the entries below the floor; so an entry below the floor stays
the same until it is written by its number. Inside a fragment the random write finds the clock settled, whatever has
been deferred before it: it is not deferred itself, it reads Random as the interpreter does after as many steps, and
replaces the same entry by the same contents. -/
theorem wired_entries_safe (config : Configuration) (bus : Bus) (vector : VectorUnit) (visits : List Visit) :
    let journal := (Machine.create config bus vector).journal (visits.map Visit.action)
    (∀ c : Cpu, c.randomFloor ≤ c.random.toNat ∧ c.random.toNat ≤ 31) ∧
      (∀ (c : Cpu) (v : UInt64), (c.writeControl wired v).random = 31) ∧
      (∀ e v, .executed e ∈ journal → e.wired? = some v →
        ∃ b, e.worked = some b ∧ b.cycles = e.before.cycles ∧ b.random = 31 ∧
          b.randomFloor = min (v.toNat % 64) 31) ∧
      (∀ earlier e window later, journal = earlier ++ .executed e :: window ++ later →
        (∀ j ∈ Happening.executed e :: window, j.Regular) →
        (e.before.cycles - e.before.randomEpoch).toNat + (randoms (.executed e :: window)).length ≤ 2 ^ 64 →
        CountsDown e.before.randomFloor (randoms (.executed e :: window))) ∧
      (∀ e, .executed e ∈ journal → Instruction.decode e.word = .system .tlbwr →
        e.after.tlb = e.before.tlb.set (Fin.ofNat 32 e.before.random.toNat) e.before.describedEntry ∧
        ∀ i : TlbIndex, i.val < e.before.randomFloor → e.after.tlb.get i = e.before.tlb.get i) ∧
      (∀ earlier e between f later, journal = earlier ++ .executed e :: between ++ .executed f :: later →
        ∀ i, (∀ j ∈ Happening.executed e :: between, j.Spares i) → f.before.tlb.get i = e.before.tlb.get i) ∧
      (∀ (entry : UInt64) (recorded : List RecordedOp) (t : Tandem) (k : Nat) (s : Uptake), t.cpu.Timed →
        mustLeave (compile entry recorded).usesFloat t.cpu = false →
        ((compile entry recorded).usesFloat = true → t.cpu.Gated) →
        (∀ j ≤ k, ∀ r ∈ recorded, (Tandem.stepped^[j] t).cpu.peek? r.address = some r.word) →
        ((compile entry recorded).uptakesOf t)[k]? = some s → Instruction.decode s.op.word = .system .tlbwr →
        deferredPlan? s.account s.tandem.cpu s.op = none ∧
          s.execution.before.random = (Tandem.stepped^[k] t).cpu.random ∧
          s.execution.replaces? = some
            (Fin.ofNat 32 (Tandem.stepped^[k] t).cpu.random.toNat, (Tandem.stepped^[k] t).cpu.describedEntry) ∧
          (Tandem.stepped^[k] t).cpu.nextExecution.replaces? = s.execution.replaces?) := by
  intro journal
  have hrest := Machine.atRest_create config bus vector
  have hdial := kept_dial config bus vector visits
  have hentries := Ledger.entries.kept_receive visits hrest (Cpu.tlb_reset _)
  have hwords (e : Execution) (he : .executed e ∈ journal) : e.OfWord := Machine.ofWord_journal _ _ e he
  refine ⟨Cpu.random_bounds, Cpu.random_writeControl_wired, ?_, ?_, ?_, ?_, ?_⟩
  · intro e v he hv
    obtain ⟨earlier, later, hsplit⟩ := List.append_of_mem he
    exact Execution.worked_wired (hdial.instructions earlier e later hsplit) hv
  · intro earlier e window later hjournal hregular hwrap
    exact countsDown_randoms hdial hjournal hregular hwrap
  · intro e he hop
    refine ⟨(hwords e he).tlb_after_random hop, fun i hi => (hwords e he).get_after hi ?_⟩
    rintro ⟨hindexed, -⟩
    cases hop.symm.trans hindexed
  · intro earlier e between f later hjournal i hspares
    exact get_kept hentries hwords hjournal hspares
  · intro entry recorded t k s hT hstay hgated hcode hs hop
    exact random_uptake (uptakesOf_stepped hT hstay hgated hcode hs) hop

open Fragment in
/-- Wired is set to 29. Random takes the three values down to it, a random write finds 31, and entry 28 is spared. In
a fragment that begins behind the write of Wired, two additions are deferred before the random write. -/
theorem wired_entries_safe_three :
    let created := Machine.create { general := { startPc := 0xFFFFFFFF80000000 }, memory := { ramSize := 32 } } {} {}
    let program : List UInt32 := [0x3401001D, 0x40813000, 0x24420001, 0x24420001, 0x42000006, 0x24420001]
    let visits : List Visit := [.request (.loadProgram 0 program), .request (.run 6)]
    let recorded : List RecordedOp :=
      [⟨0xFFFFFFFF80000008, 0x24420001, false⟩, ⟨0xFFFFFFFF8000000C, 0x24420001, false⟩,
        ⟨0xFFFFFFFF80000010, 0x42000006, false⟩]
    let t := (created.receive [.request (.loadProgram 0 program), .request (.run 2)]).tandem
    (∃ first written a b random last, created.journal (visits.map Visit.action) =
        [.executed first, .executed written, .executed a, .executed b, .executed random, .executed last] ∧
      (∃ w, written.worked = some w ∧ w.random = 31 ∧ w.randomFloor = 29) ∧
      randoms [.executed a, .executed b, .executed random] = [30, 29, 31] ∧ CountsDown 29 [30, 29, 31] ∧
      random.after.tlb = random.before.tlb.set 31 random.before.describedEntry ∧
      (∀ i : TlbIndex, i.val < 29 → random.after.tlb.get i = random.before.tlb.get i) ∧
      last.before.tlb.get 28 = random.before.tlb.get 28) ∧
    ∃ s, ((compile 0xFFFFFFFF80000008 recorded).uptakesOf t)[2]? = some s ∧ s.account.count = 2 ∧
      deferredPlan? s.account s.tandem.cpu s.op = none ∧
      s.execution.before.random = (Tandem.stepped^[2] t).cpu.random ∧ (Tandem.stepped^[2] t).cpu.random = 31 := by
  intro created program visits recorded t
  obtain ⟨-, -, hwritten, hcounts, hwrites, hspared, hfragment⟩ := wired_entries_safe
    { general := { startPc := 0xFFFFFFFF80000000 }, memory := { ramSize := 32 } } {} {} visits
  constructor
  · have hread : (created.journal (visits.map Visit.action)).map Happening.reading =
        [some (0x3401001D, none, [1, 31, 0, 0]), some (0x40813000, some 29, [1, 30, 0, 1]),
          some (0x24420001, none, [1, 30, 29, 1]), some (0x24420001, none, [1, 29, 29, 2]),
          some (0x42000006, none, [1, 31, 29, 3]), some (0x24420001, none, [1, 30, 29, 4])] := by
      decide +kernel
    obtain ⟨j₁, js, hjournal, h₁, hread⟩ := List.map_eq_cons_iff.mp hread
    obtain ⟨j₂, js, rfl, h₂, hread⟩ := List.map_eq_cons_iff.mp hread
    obtain ⟨j₃, js, rfl, h₃, hread⟩ := List.map_eq_cons_iff.mp hread
    obtain ⟨j₄, js, rfl, h₄, hread⟩ := List.map_eq_cons_iff.mp hread
    obtain ⟨j₅, js, rfl, h₅, hread⟩ := List.map_eq_cons_iff.mp hread
    obtain ⟨j₆, js, rfl, h₆, hread⟩ := List.map_eq_cons_iff.mp hread
    obtain rfl := List.map_eq_nil_iff.mp hread
    obtain ⟨first, rfl, -⟩ := Happening.exists_of_reading h₁
    obtain ⟨written, rfl, -, hwired, -⟩ := Happening.exists_of_reading h₂
    obtain ⟨a, rfl, -, ha, hacycles, harandom, hafloor, haelapsed⟩ := Happening.exists_of_reading h₃
    obtain ⟨b, rfl, -, hb, hbcycles, hbrandom, -⟩ := Happening.exists_of_reading h₄
    obtain ⟨random, rfl, hword, hr, hrcycles, hrrandom, hrfloor, -⟩ := Happening.exists_of_reading h₅
    obtain ⟨last, rfl, -⟩ := Happening.exists_of_reading h₆
    have hrandoms : randoms [.executed a, .executed b, .executed random] = [30, 29, 31] := by
      unfold randoms
      simp [Happening.random?, harandom, hbrandom, hrrandom]
    have hop : Instruction.decode random.word = .system .tlbwr := by
      rw [hword]
      decide
    refine ⟨first, written, a, b, random, last, hjournal, ?_, hrandoms, ?_, ?_, ?_, ?_⟩
    · obtain ⟨w, hw, -, hrandom, hfloor⟩ := hwritten written 29 (by rw [hjournal]; simp) hwired
      exact ⟨w, hw, hrandom, hfloor⟩
    · have hregular : ∀ j ∈ [Happening.executed a, .executed b, .executed random], j.Regular := by
        simp [Happening.Regular, ha, hacycles, hb, hbcycles, hr, hrcycles]
      have hturn := hcounts [.executed first, .executed written] a [.executed b, .executed random] [.executed last]
        hjournal hregular (by rw [hrandoms, haelapsed]; decide)
      rw [hrandoms, hafloor] at hturn
      exact hturn
    · have htlb := (hwrites random (by rw [hjournal]; simp) hop).1
      rw [hrrandom] at htlb
      exact htlb
    · intro i hi
      exact (hwrites random (by rw [hjournal]; simp) hop).2 i (hrfloor ▸ hi)
    · refine hspared [.executed first, .executed written, .executed a, .executed b] random [] last [] hjournal 28 ?_
      intro j hj
      obtain rfl := List.mem_singleton.mp hj
      refine ⟨by rw [hrfloor]; decide, ?_⟩
      rintro ⟨hindexed, -⟩
      cases hop.symm.trans hindexed
  · have hentry : (((compile 0xFFFFFFFF80000008 recorded).uptakesOf t)[2]?).map
        (fun s => (s.op.word, s.account.count)) = some (0x42000006, 2) := by
      decide +kernel
    obtain ⟨s, hs, htaken⟩ := Option.map_eq_some_iff.mp hentry
    obtain ⟨hword, hcount⟩ := Prod.mk.inj htaken
    have hrest : created.AtRest [] := Machine.atRest_create _ _ _
    have hT : t.cpu.Timed := Machine.timed_receive hrest _
    obtain ⟨hnone, hrandom, -⟩ := hfragment 0xFFFFFFFF80000008 recorded t 2 s hT (by decide +kernel)
      (fun h => absurd h (by decide +kernel)) (by decide +kernel) hs (by rw [hword]; decide)
    exact ⟨s, hs, hcount, hnone, hrandom, by decide +kernel⟩

end Vr4300
