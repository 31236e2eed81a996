import Vr4300.Proofs.ControlFlow
import Vr4300.Proofs.TlbEntries

/-!
# `Proofs.Refill` — a handler of TLB refills cures the miss

An access to a mapped address misses, and the exception leaves the page of the address in EntryHi, with the address
space that it was. The handler loads the two pages and writes an entry, at any place and of any page size. From then
on that entry maps the address, and no other does, so that the access finds it when it is made again. What the
handler does besides makes no difference, as long as it leaves EntryHi and the entries.

## Contents

* `Mapping`, `Cpu.mapping`: what decides where addresses lead, with one lemma per operation;
* `Execution.keepsMapping`, `Cpu.KeptUntil`: instructions that leave it (`Chain.mapping`);
* `Cpu.Misses`, `misses_of_refill`, `mapping_refill`: the access that misses, and its exception;
* `Cpu.Cured`, `Misses.cured`: the entry that is written, `mapping_of_write`;
* `refill_cured`.
-/

namespace Vr4300

open Control

/-- What decides where addresses lead, and what a probe looks for. -/
structure Mapping where
  /-- The entries. -/
  tlb : Tlb
  /-- The page and the address space that entries are compared with. -/
  entryHi : UInt64
  /-- The size of main memory. -/
  ramSize : Nat

/-- A software write of one register leaves another one alone. -/
theorem ControlRegisters.get_write? {b b' : ControlRegisters} {r s : Reg} {v : UInt64} (h : b.write? r v = some b')
    (hr : r ≠ s) (hs : writeRule s ≠ .reserved) : b'.get s = b.get s := by
  unfold write? at h
  split at h
  · obtain rfl := Option.some.inj h
    exact get_put_of_ne b _ hr
  · cases h
  · obtain rfl := Option.some.inj h
    have hread : (b.values.write r v).read s = b.values.read s := RegisterFile.read_write_of_ne _ _ hr
    unfold get
    split
    · rename_i hreserved
      exact absurd hreserved hs
    · exact hread

namespace Cpu

/-- What decides where addresses lead. -/
def mapping (c : Cpu) : Mapping := ⟨c.tlb, c.cp0.get entryHi, c.ram.size⟩

theorem mapping_congr {c c' : Cpu} (htlb : c'.tlb = c.tlb) (hentry : c'.cp0.get entryHi = c.cp0.get entryHi)
    (hsize : c'.ram.size = c.ram.size) : c'.mapping = c.mapping := by
  unfold mapping
  rw [htlb, hentry, hsize]

theorem mapping_put (c : Cpu) {r : Reg} (v : UInt64) (hr : r ≠ entryHi) :
    ({ c with cp0 := c.cp0.put r v } : Cpu).mapping = c.mapping :=
  mapping_congr rfl (ControlRegisters.get_put_of_ne _ _ hr) rfl

theorem mapping_of_lasting {a b : Cpu} (h : a.lasting = b.lasting) : a.mapping = b.mapping :=
  mapping_congr (same_of_lasting h (·.tlb) fun _ => rfl)
    (ControlRegisters.get_of_lasting (congrArg Cpu.cp0 h) (by decide) (by decide))
    (same_of_lasting h (·.ram.size) fun _ => rfl)

theorem mapping_updateInterrupts (c : Cpu) : c.updateInterrupts.mapping = c.mapping :=
  mapping_of_lasting (lasting_updateInterrupts c)

theorem mapping_statusChanged (c : Cpu) : c.statusChanged.mapping = c.mapping := mapping_updateInterrupts _

theorem mapping_schedule (c : Cpu) (kind : EventKind) (n : Int) (action : TimerAction) :
    (c.schedule kind n action).mapping = c.mapping :=
  mapping_of_lasting (lasting_schedule c kind n action)

/-- A write of another control register than EntryHi. -/
theorem mapping_writeControl (c : Cpu) {r : Reg} (v : UInt64) (hr : r ≠ entryHi) :
    (c.writeControl r v).mapping = c.mapping := by
  unfold writeControl
  cases hw : c.cp0.write? r v with
  | none => rfl
  | some cp0 =>
    have hwritten : ({ c with cp0 := cp0 } : Cpu).mapping = c.mapping :=
      mapping_congr rfl (ControlRegisters.get_write? hw hr (by decide)) rfl
    dsimp only
    split
    · exact (mapping_schedule _ _ _ _).trans hwritten
    split
    · exact ((mapping_updateInterrupts _).trans (mapping_schedule _ _ _ _)).trans
        ((mapping_put { c with cp0 := cp0 } _ (by decide)).trans hwritten)
    split
    · exact (mapping_statusChanged _).trans hwritten
    split
    · exact (mapping_updateInterrupts _).trans hwritten
    split <;> exact hwritten

theorem mapping_deliver (c : Cpu) (w : Width) (v : UInt64) (d : Destination) :
    (c.deliver w v d).mapping = c.mapping := by
  cases d with
  | linked rt physical => exact mapping_put (c.setRegister rt (w.signExtend v)) _ (by decide)
  | float p ft => cases p <;> rfl
  | _ => rfl

theorem mapping_readAt (c : Cpu) (w : Width) (l : Location) : (c.readAt w l).2.mapping = c.mapping := by
  cases l <;> rfl

theorem mapping_writeAt (c : Cpu) (w : Width) (l : Location) (v : UInt64) :
    (c.writeAt w l v).mapping = c.mapping := by
  cases l with
  | ram offset => exact mapping_congr rfl rfl (Ram.size_write _ _ _ _)
  | bus address => rfl

end Cpu

/-- The effect leaves the entries and EntryHi. -/
def Effect.keepsMapping : Effect → Bool
  | .control rd _ => rd != entryHi
  | .entryRegisters _ | .tlbEntry _ _ => false
  | _ => true

/-- The instruction leaves them: it writes neither, and raises no exception that does. -/
def Execution.keepsMapping (e : Execution) : Bool :=
  match e.planned with
  | .ok p => p.effect.keepsMapping
  | .error (.trap t) => !t.isTlb
  | .error _ => true

namespace Cpu

theorem mapping_apply (c : Cpu) {e : Effect} (h : e.keepsMapping = true) : (c.apply e).mapping = c.mapping := by
  cases e with
  | load w source into => exact (mapping_deliver _ _ _ _).trans (mapping_readAt _ _ _)
  | store w target v => exact mapping_writeAt c w target v
  | storeMasked w target v mask => exact (mapping_writeAt _ _ _ _).trans (mapping_readAt _ _ _)
  | storeLinked w target v rt => exact mapping_writeAt c w target v
  | control rd v => exact mapping_writeControl c v (by simpa [Effect.keepsMapping] using h)
  | entryRegisters e => cases h
  | tlbEntry i e => cases h
  | index v => exact mapping_put c v (by decide)
  | leaveException => exact (mapping_statusChanged _).trans (mapping_put c _ (by decide))
  | float p fd bits fcr31 => cases p <;> rfl
  | _ => rfl

theorem mapping_follow (c : Cpu) (base : UInt64) (f : Flow) : (c.follow base f).mapping = c.mapping := by
  cases f <;> rfl

theorem mapping_enterException (c : Cpu) (t : Trap) (inDelay : Bool) :
    (c.enterException t inDelay).mapping = c.mapping := by
  have hcause (b : Cpu) (v : UInt64) : ({ b with cp0 := b.cp0.put cause v } : Cpu).mapping = b.mapping :=
    mapping_put b v (by decide)
  have hreturn : (c.saveReturn inDelay).mapping = c.mapping := by
    unfold saveReturn
    cases inDelay <;> exact (hcause _ _).trans (mapping_put c _ (by decide))
  unfold enterException
  split
  · exact hcause _ _
  · exact (hcause _ _).trans hreturn

/-- An exception changes of this what it saves about its address. -/
theorem mapping_takeException (c : Cpu) (t : Trap) (inDelay : Bool) :
    (c.takeException t inDelay).mapping = ((c.enterException t inDelay).saveBadAddress t).mapping := by
  obtain ⟨vector, statistics, h⟩ := takeException_eq c t inDelay
  rw [h]
  exact (mapping_statusChanged _).trans (mapping_put ((c.enterException t inDelay).saveBadAddress t) _ (by decide))

/-- An exception that is none of the TLB leaves it. -/
theorem mapping_of_not_isTlb (c : Cpu) {t : Trap} (inDelay : Bool) (h : t.isTlb = false) :
    (c.takeException t inDelay).mapping = c.mapping := by
  rw [mapping_takeException]
  refine Eq.trans ?_ (c.mapping_enterException t inDelay)
  unfold saveBadAddress
  rw [h]
  split
  · rfl
  · exact mapping_put _ _ (by decide)

end Cpu

/-- **An instruction that leaves it** leaves it with its cycle. -/
theorem Execution.mapping_after {e : Execution} (h : e.keepsMapping = true) : e.after.mapping = e.before.mapping := by
  cases hw : e.worked with
  | none =>
    rw [e.after_eq, hw]
  | some b =>
    refine (Cpu.mapping_of_lasting (lasting_after hw)).trans ?_
    obtain ⟨before, word, planned⟩ := e
    cases planned with
    | ok p =>
      obtain rfl := Option.some.inj hw
      exact (Cpu.mapping_follow _ _ _).trans (Cpu.mapping_apply before h)
    | error f =>
      cases f with
      | trap t =>
        obtain rfl := Option.some.inj hw
        exact Cpu.mapping_of_not_isTlb before _ (by simpa [keepsMapping] using h)
      | floatingPoint fcr31 =>
        obtain rfl := Option.some.inj hw
        exact Cpu.mapping_of_not_isTlb { before with fcr31 := fcr31 } _ rfl
      | fatal x => cases hw

theorem Quiet.mapping {a b : Cpu} (h : Quiet a b) : b.mapping = a.mapping := by
  cases h with
  | sample => exact a.mapping_updateInterrupts
  | interrupt => exact a.mapping_of_not_isTlb _ rfl
  | outside => rfl

/-- From `a` to `b` only instructions were executed that leave EntryHi and the entries. -/
def Cpu.KeptUntil (a b : Cpu) : Prop := ∃ es, Chain a es b ∧ ∀ e ∈ es, e.keepsMapping = true

theorem Chain.mapping {a b : Cpu} {es : List Execution} (h : Chain a es b) (hes : ∀ e ∈ es, e.keepsMapping = true) :
    b.mapping = a.mapping :=
  h.same Cpu.mapping (fun _ _ hq => hq.mapping) fun e he => Execution.mapping_after (hes e he)

/-! ## The miss -/

/-- **The access misses**: it is aligned, its address is mapped, and no entry maps it. -/
structure Cpu.Misses (c : Cpu) (w : Width) (va : UInt64) : Prop where
  /-- It is aligned. -/
  aligned : w.isAligned va = true
  /-- It is not served by the window in front of main memory. -/
  windowless : ¬ (va - Address.kseg0Base).toNat < c.ram.size
  /-- Its segment is mapped. -/
  mapped : Address.unmappedPhysical? va = none
  /-- No entry maps it. -/
  absent : ∀ j, (c.tlb.get j).isMatch va c.asid = false

/-- **A translation that raises a refill exception** has found no entry, and the exception names the address. -/
theorem Tlb.absent_of_refill {tlb : Tlb} {va asid : UInt64} {access : Access} {t : Trap}
    (h : tlb.translate va access asid = .error t) (hrefill : t.isRefill = true) :
    tlb.find? va asid = none ∧ t.badAddress? = some va ∧ t.isTlb = true := by
  unfold translate at h
  dsimp only at h
  cases hfind : tlb.find? va asid with
  | none =>
    rw [hfind] at h
    obtain rfl := Except.error.inj h
    refine ⟨rfl, ?_, ?_⟩ <;> split <;> rfl
  | some entry =>
    rw [hfind] at h
    dsimp only at h
    -- the exceptions of an entry that was found are others
    split at h
    · obtain rfl := Except.error.inj h
      split at hrefill <;> cases hrefill
    · split at h
      · obtain rfl := Except.error.inj h
        cases hrefill
      · cases h

namespace Cpu

variable {c : Cpu} {w : Width} {access : Access} {va : UInt64} {t : Trap}

/-- **A refill exception** is raised by an access that misses, and it names the address. -/
theorem misses_of_refill (hmiss : c.resolve w access va = .error t) (hrefill : t.isRefill = true) :
    c.Misses w va ∧ t.badAddress? = some va ∧ t.isTlb = true := by
  unfold resolve at hmiss
  split at hmiss
  -- a misaligned address raises another exception
  · obtain rfl := Except.error.inj hmiss
    split at hrefill <;> cases hrefill
  rename_i haligned
  dsimp only at hmiss
  split at hmiss
  · cases hmiss
  rename_i hwindow
  have hphysical : c.tlb.physical va access c.asid = .error t := by
    cases hp : c.tlb.physical va access c.asid with
    | ok p =>
      rw [hp] at hmiss
      cases hmiss
    | error x =>
      rw [hp] at hmiss
      exact congrArg Except.error (Except.error.inj hmiss)
  unfold Tlb.physical at hphysical
  cases hmapped : Address.unmappedPhysical? va with
  | some p =>
    rw [hmapped] at hphysical
    cases hphysical
  | none =>
    rw [hmapped] at hphysical
    obtain ⟨hfind, hnamed⟩ := Tlb.absent_of_refill hphysical hrefill
    exact ⟨⟨by simpa using haligned, hwindow, hmapped, Tlb.find?_eq_none_iff.mp hfind⟩, hnamed⟩

/-- **The refill exception** leaves the page of the address in EntryHi. -/
theorem mapping_refill (c : Cpu) {t : Trap} (inDelay : Bool) (hnamed : t.badAddress? = some va)
    (htlb : t.isTlb = true) :
    (c.takeException t inDelay).mapping = ⟨c.tlb, TlbEntry.pageHi va c.asid, c.ram.size⟩ := by
  let entered := c.enterException t inDelay
  have hentered : entered.mapping = c.mapping := c.mapping_enterException t inDelay
  let named : Cpu := { entered with cp0 := entered.cp0.put badVAddr va }
  have hasid : named.asid = c.asid := by
    have hentry : named.cp0.get entryHi = c.cp0.get entryHi :=
      (ControlRegisters.get_put_of_ne _ _ (by decide)).trans (congrArg Mapping.entryHi hentered)
    exact congrArg (· &&& TlbEntry.asidBits) hentry
  have hsaved : entered.saveBadAddress t = named.saveTlbContext va := by
    unfold saveBadAddress
    rw [hnamed]
    dsimp only
    rw [if_pos htlb]
  have hentry : (named.saveTlbContext va).cp0.get entryHi = TlbEntry.pageHi va named.asid :=
    RegisterFile.read_write_self _ _ _
  rw [mapping_takeException, hsaved]
  unfold mapping
  rw [hentry, hasid]
  exact congrArg (fun kept => Mapping.mk kept.tlb (TlbEntry.pageHi va c.asid) kept.ramSize) hentered

/-- An access that missed goes through the only entry that maps its address, if there is one. -/
theorem Misses.translate {k : Cpu} (h : c.Misses w va) (hsize : k.ram.size = c.ram.size) {i : TlbIndex}
    (honly : k.tlb.OnlyMatch i va k.asid) (hpage : TlbEntry.Admits access ((k.tlb.get i).page va)) :
    k.translate w access va =
      .ok (TlbEntry.frame ((k.tlb.get i).page va) + (va &&& (k.tlb.get i).offsetMask)) := by
  unfold Cpu.translate resolve Tlb.physical
  rw [h.aligned, hsize, if_neg (by simp), h.mapped, (honly.lowest.translate access).unique (.mapped hpage)]
  dsimp only
  rw [if_neg h.windowless]
  refine congrArg Except.ok ?_
  split <;> rfl

theorem asid_kept (c : Cpu) : c.asid &&& TlbEntry.asidBits = c.asid := by
  unfold asid
  rw [UInt64.and_assoc, UInt64.and_self]

/-! ## The entry that is written -/

/-- The entry that an operation replaces. -/
def replaces (c : Cpu) : SystemOp → Option TlbIndex
  | .tlbwi => some c.indexedEntry
  | .tlbwr => some (Fin.ofNat 32 c.random.toNat)
  | _ => none

/-- **The miss is cured**: the entry `i` maps the address, and no other does; a probe finds it, and the access goes
through it. -/
structure Cured (k : Cpu) (i : TlbIndex) (entry : TlbEntry) (w : Width) (access : Access) (va : UInt64) : Prop where
  /-- What the entry is. -/
  written : k.tlb.get i = entry
  /-- It maps the address, and no other does. -/
  only : k.tlb.OnlyMatch i va k.asid
  /-- A probe reports it. -/
  probed : k.probeResult = UInt64.ofNat i.val
  /-- The access is translated through it: the offset in the page is added to the frame of the page. -/
  translated : k.translate w access va = .ok (TlbEntry.frame (entry.page va) + (va &&& entry.offsetMask))

/-- **An entry that maps the address**, written where an access missed, cures the miss. -/
theorem Misses.cured {k : Cpu} (h : c.Misses w va) {i : TlbIndex} {entry : TlbEntry}
    (hmapping : k.mapping = ⟨c.tlb.set i entry, TlbEntry.pageHi va c.asid, c.ram.size⟩)
    (hmatch : entry.isMatch va c.asid = true) (hpage : TlbEntry.Admits access (entry.page va)) :
    k.Cured i entry w access va ∧ k.asid = c.asid := by
  have htlb : k.tlb = c.tlb.set i entry := congrArg Mapping.tlb hmapping
  have hentry : k.cp0.get entryHi = TlbEntry.pageHi va c.asid := congrArg Mapping.entryHi hmapping
  have hasid : k.asid = c.asid := by
    unfold asid
    rw [hentry, TlbEntry.pageHi_asid c.asid_kept]
    rfl
  have hwritten : k.tlb.get i = entry := by rw [htlb, Tlb.get_set_self]
  have honly : k.tlb.OnlyMatch i va k.asid := by
    rw [htlb, hasid]
    exact Tlb.onlyMatch_set h.absent hmatch i
  refine ⟨⟨hwritten, honly, ?_, ?_⟩, hasid⟩
  · unfold probeResult
    have hprobe : k.tlb.probe? (TlbEntry.pageHi va k.asid) = some i.val :=
      (Tlb.probe?_eq_some_iff (TlbEntry.standsFor_pageHi k.asid_kept)).mpr ⟨i, rfl, honly.lowest⟩
    rw [hentry, ← hasid, hprobe]
  · rw [← hwritten] at hpage ⊢
    exact h.translate (congrArg Mapping.ramSize hmapping) honly hpage

/-- Where an access missed, a probe finds nothing. -/
theorem Misses.probe {k : Cpu} (h : c.Misses w va)
    (hmapping : k.mapping = ⟨c.tlb, TlbEntry.pageHi va c.asid, c.ram.size⟩) : k.probeResult = probeFailure := by
  have htlb : k.tlb = c.tlb := congrArg Mapping.tlb hmapping
  have hentry : k.cp0.get entryHi = TlbEntry.pageHi va c.asid := congrArg Mapping.entryHi hmapping
  have hnone : k.tlb.probe? (k.cp0.get entryHi) = none := by
    rw [htlb, hentry, Tlb.probe?_eq_none_iff (TlbEntry.standsFor_pageHi c.asid_kept)]
    exact h.absent
  unfold probeResult
  rw [hnone]

end Cpu

namespace Execution

variable {f : Execution}

/-- **A probe** leaves its result in Index. -/
theorem index_of_probe (h : f.planned = f.before.planGuarded (.system .tlbp)) :
    f.completes = true ∧ f.after.cp0.get index = f.before.probeResult := by
  have hplan : f.planned = .ok { effect := .index f.before.probeResult } := h
  have hbank := congrArg Cpu.cp0 (lasting_after (worked_of_plan hplan))
  exact ⟨completes_iff.mpr ⟨_, hplan⟩, (ControlRegisters.get_of_lasting hbank (by decide) (by decide)).trans
    (RegisterFile.read_write_self _ _ _)⟩

/-- **A write** replaces the entry by the one that the registers describe. -/
theorem mapping_of_write {op : SystemOp} {i : TlbIndex} (h : f.planned = f.before.planGuarded (.system op))
    (hi : f.before.replaces op = some i) :
    f.completes = true ∧
      f.after.mapping =
        ⟨f.before.tlb.set i f.before.describedEntry, f.before.cp0.get entryHi, f.before.ram.size⟩ := by
  have hplan : f.planned = .ok { effect := .tlbEntry i f.before.describedEntry } := by
    rw [h]
    cases op with
    | tlbwi =>
      obtain rfl := Option.some.inj hi
      rfl
    | tlbwr =>
      obtain rfl := Option.some.inj hi
      rfl
    | _ => cases hi
  exact ⟨completes_iff.mpr ⟨_, hplan⟩, Cpu.mapping_of_lasting (lasting_after (worked_of_plan hplan))⟩

end Execution

/-- **A handler of TLB refills cures the miss.** An access misses, and the exception is taken. Then EntryHi has the
page of the address and the address space that it had, and a probe fails. As long as only instructions are executed
that leave EntryHi and the entries, this stays so. When two pages that admit the access are written, to any entry and
for any page size, that entry maps the address, and no other does: a probe reports it, and the access goes through
it. For the page sizes of the architecture, the page is chosen by the parity of its number, and the offset is the rest
modulo its size. -/
theorem refill_cured {e : Execution} {w : Width} {access : Access} {va : UInt64} {t : Trap}
    (hmiss : e.before.resolve w access va = .error t) (hrefill : t.isRefill = true)
    (hraises : e.planned = .error (.trap t)) :
    e.after.cp0.get entryHi = (va &&& TlbEntry.pageNumberBits) ||| e.before.asid ∧
      ∀ f : Execution, e.after.KeptUntil f.before →
        (f.planned = f.before.planGuarded (.system .tlbp) →
          f.completes = true ∧ f.after.cp0.get index = probeFailure) ∧
        ∀ op i, f.planned = f.before.planGuarded (.system op) → f.before.replaces op = some i →
          TlbEntry.Admits access (f.before.cp0.get entryLo0) → TlbEntry.Admits access (f.before.cp0.get entryLo1) →
            f.completes = true ∧
              ∀ g : Execution, f.after.KeptUntil g.before →
                g.before.Cured i f.before.describedEntry w access va ∧ g.before.asid = e.before.asid ∧
                (g.planned = g.before.planGuarded (.system .tlbp) →
                  g.completes = true ∧ g.after.cp0.get index = UInt64.ofNat i.val) ∧
                ∀ n ≤ 6, f.before.cp0.get pageMask = TlbEntry.sizeMask n →
                  g.before.translate w access va =
                    .ok (TlbEntry.frame (if va.toNat / TlbEntry.pageSize n % 2 = 1 then f.before.cp0.get entryLo1
                        else f.before.cp0.get entryLo0) +
                      UInt64.ofNat (va.toNat % TlbEntry.pageSize n)) := by
  obtain ⟨hmisses, hnamed, htlb⟩ := Cpu.misses_of_refill hmiss hrefill
  have hworked : e.worked = some (e.before.takeException t e.before.inDelaySlot) := by
    unfold Execution.worked
    rw [hraises]
  have hdelivered : e.after.mapping = ⟨e.before.tlb, TlbEntry.pageHi va e.before.asid, e.before.ram.size⟩ :=
    (Cpu.mapping_of_lasting (Execution.lasting_after hworked)).trans (e.before.mapping_refill _ hnamed htlb)
  refine ⟨congrArg Mapping.entryHi hdelivered, ?_⟩
  rintro f ⟨es, hchain, hes⟩
  have hbefore := (hchain.mapping hes).trans hdelivered
  refine ⟨?_, ?_⟩
  · intro hprobe
    obtain ⟨hcompletes, hindex⟩ := Execution.index_of_probe hprobe
    exact ⟨hcompletes, hindex.trans (hmisses.probe hbefore)⟩
  · intro op i hwrite hi h0 h1
    obtain ⟨hcompletes, hwritten⟩ := Execution.mapping_of_write hwrite hi
    refine ⟨hcompletes, ?_⟩
    rintro g ⟨es', hchain', hes'⟩
    have htlb : f.before.tlb = e.before.tlb := congrArg Mapping.tlb hbefore
    have hentry : f.before.cp0.get entryHi = TlbEntry.pageHi va e.before.asid := congrArg Mapping.entryHi hbefore
    have hsize : f.before.ram.size = e.before.ram.size := congrArg Mapping.ramSize hbefore
    rw [htlb, hentry, hsize] at hwritten
    have hmatch : f.before.describedEntry.isMatch va e.before.asid = true := by
      unfold Cpu.describedEntry
      rw [hentry]
      exact TlbEntry.isMatch_ofRegisters e.before.asid_kept _ _ _
    obtain ⟨hcured, hasid⟩ :=
      hmisses.cured ((hchain'.mapping hes').trans hwritten) hmatch (TlbEntry.admits_page h0 h1 va)
    refine ⟨hcured, hasid, ?_, ?_⟩
    · intro hprobe
      obtain ⟨hprobed, hindex⟩ := Execution.index_of_probe hprobe
      exact ⟨hprobed, hindex.trans hcured.probed⟩
    · intro n hn hmask
      have hframe : TlbEntry.frame (f.before.describedEntry.page va) =
          TlbEntry.frame (if va.toNat / TlbEntry.pageSize n % 2 = 1 then f.before.cp0.get entryLo1
            else f.before.cp0.get entryLo0) := by
        unfold Cpu.describedEntry
        rw [hmask, TlbEntry.page_of_size hn]
        split <;> exact TlbEntry.frame_kept _
      have hoffset : va &&& f.before.describedEntry.offsetMask = UInt64.ofNat (va.toNat % TlbEntry.pageSize n) := by
        unfold Cpu.describedEntry
        rw [hmask, ← TlbEntry.offset_of_size hn]
        exact UInt64.ofNat_toNat.symm
      rw [hcured.translated, hframe, hoffset]

/-- A load misses; its handler writes the entry that a random number names, and returns. -/
theorem refill_cured_random :
    let m := (Machine.create { general := { startPc := 0xFFFFFFFF80000040 }, memory := { ramSize := 0x80 } } {}
      {}).performAll [.edit (.loadProgram 0x40 [0x8C014008]), .edit (.loadProgram 0 [0x42000006, 0x42000018]),
        .writeControl entryLo0 0x46, .writeControl entryLo1 0x86]
    let e := m.cpu.nextExecution
    let f := e.after.nextExecution
    let g := f.after.nextExecution
    e.before.resolve .word .read 0x4008 = .error (.tlbRefillLoad 0x4008) ∧ e.after.pc = 0xFFFFFFFF80000000 ∧
      g.before.translate .word .read 0x4008 = .ok 0x1008 := by
  intro m e f g
  have hmiss : e.before.resolve .word .read 0x4008 = .error (.tlbRefillLoad 0x4008) := by decide +kernel
  have hraises : e.planned = .error (.trap (.tlbRefillLoad 0x4008)) := by decide +kernel
  have hkept (c : Cpu) : c.KeptUntil c.nextExecution.before :=
    ⟨[], .single c.quiet_nextExecution, fun _ h => absurd h List.not_mem_nil⟩
  have hwrite : f.planned = f.before.planGuarded (.system .tlbwr) := by decide +kernel
  obtain ⟨-, hhandler⟩ := refill_cured hmiss rfl hraises
  obtain ⟨-, hcured⟩ := (hhandler f (hkept _)).2 .tlbwr _ hwrite rfl ⟨by decide +kernel, by decide⟩
    ⟨by decide +kernel, by decide⟩
  obtain ⟨-, -, -, hsize⟩ := hcured g (hkept _)
  exact ⟨hmiss, by decide +kernel, (hsize 0 (by decide) (by decide +kernel)).trans (by decide +kernel)⟩

end Vr4300
