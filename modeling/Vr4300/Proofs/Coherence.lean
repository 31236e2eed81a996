import Vr4300.Proofs.Addresses
import Vr4300.Proofs.History
import Vr4300.Proofs.Lasting
import Vr4300.Proofs.MemoryBytes

/-!
# `Proofs.Coherence` — main memory is one array of bytes under every view

A store and a later load may be of different widths, and their addresses may lead to main memory in different ways:
through the window that is not looked up, through either of the unmapped segments, with or without their sign, or
through the entries. What the load finds is decided by the physical addresses alone: the bytes that the store covered
are those of its number, and the others are what they were.

## Contents

* `Cpu.translate_cases`, `resolve_of_within`: accesses that main memory serves;
* `Cpu.Stores`, `Stores.ram`: what a store does to main memory;
* `Execution.stores`, `ram_after`, `Chain.ram`: what leaves it alone;
* `Cpu.Physical`, `physical_of_translate`: where addresses lead;
* `memory_coherent`.
-/

namespace Vr4300

/-- The mask of all bits. -/
def allBits : UInt64 := 0xFFFFFFFFFFFFFFFF

/-- What an effect stores: with which width, where, the number, and the bits of it. -/
def Effect.stored? : Effect → Option (Width × Location × UInt64 × UInt64)
  | .store w target v | .storeLinked w target v _ => some (w, target, v, allBits)
  | .storeMasked w target v mask => some (w, target, v, mask)
  | _ => Option.none

/-- The instruction stores. -/
def Execution.stores (e : Execution) : Bool :=
  match e.planned with
  | .ok p => p.effect.stored?.isSome
  | .error _ => false

namespace Cpu

/-- **A store** of the bits of a mask of a number: of all of them, of some, or by an instruction. -/
inductive Stores (c : Cpu) (w : Width) (va v : UInt64) : UInt64 → Cpu → Prop where
  /-- All bits are stored. -/
  | whole {c' : Cpu} (h : c.store w va v = (.ok (), c')) : Stores c w va v allBits c'
  /-- Some bits are stored. -/
  | masked {mask : UInt64} {c' : Cpu} (h : c.storeMasked w va v mask = (.ok (), c')) : Stores c w va v mask c'
  /-- An instruction stores them at the location that the address leads to. -/
  | executed {e : Execution} {p : Plan} {target : Location} {mask : UInt64} (hbefore : e.before = c)
      (hplanned : e.planned = .ok p) (htarget : c.resolve w .write va = .ok target)
      (hstored : p.effect.stored? = some (w, target, v, mask)) : Stores c w va v mask e.after

/-! ## Stores -/

/-- **An access that is translated** is not looked up, or it is. -/
theorem translate_cases {c : Cpu} {w : Width} {access : Access} {va p : UInt64}
    (h : c.translate w access va = .ok p) :
    ((va - Address.kseg0Base).toNat < c.ram.size ∧ p = va - Address.kseg0Base ∧
        c.resolve w access va = .ok (.ram p)) ∨
      c.tlb.physical va access c.asid = .ok p ∧
        c.resolve w access va = .ok (if p.toNat < c.ram.size then .ram p else .bus p) := by
  unfold translate at h
  unfold resolve at h ⊢
  split at h
  · cases h
  rename_i haligned
  rw [if_neg haligned]
  dsimp only at h ⊢
  split at h
  · rename_i hwindow
    obtain rfl : va - Address.kseg0Base = p := Except.ok.inj h
    rw [if_pos hwindow]
    exact .inl ⟨hwindow, rfl, rfl⟩
  rename_i hwindow
  rw [if_neg hwindow]
  cases hp : c.tlb.physical va access c.asid with
  | error t =>
    rw [hp] at h
    cases h
  | ok q =>
    rw [hp] at h
    have hlocation : (if q.toNat < c.ram.size then Location.ram q else .bus q).physical = p := Except.ok.inj h
    obtain rfl : q = p := by
      rw [← hlocation]
      split <;> rfl
    exact .inr ⟨rfl, rfl⟩

/-- An access that lies wholly inside main memory is served there. -/
theorem resolve_of_within {c : Cpu} {w : Width} {access : Access} {va p : UInt64}
    (h : c.translate w access va = .ok p) (hin : c.ram.Within w p) : c.resolve w access va = .ok (.ram p) := by
  have hsize : p.toNat < c.ram.size := by
    have hwidth : 0 < w.bytes := by cases w <;> decide
    unfold Ram.Within at hin
    omega
  rcases translate_cases h with ⟨-, -, hresolve⟩ | ⟨-, hresolve⟩
  · exact hresolve
  · rw [hresolve, if_pos hsize]

theorem blend_allBits (old v : UInt64) : blend old v allBits = v := by
  unfold blend
  rw [show ~~~allBits = 0 by decide, UInt64.and_zero, UInt64.zero_or]
  exact UInt64.toBitVec_inj.mp BitVec.and_allOnes

/-- What an effect stores in main memory. -/
theorem ram_of_stored {c : Cpu} {e : Effect} {w : Width} {p v mask : UInt64}
    (h : e.stored? = some (w, .ram p, v, mask)) :
    (c.apply e).ram = c.ram.write w p (blend (c.ram.read w p) v mask) := by
  cases e with
  | store w' target v' =>
    cases h
    rw [blend_allBits]
    rfl
  | storeLinked w' target v' rt =>
    cases h
    rw [blend_allBits]
    rfl
  | storeMasked w' target v' mask' =>
    cases h
    rfl
  | _ => cases h

/-- **A store** blends its bits into the number that was in main memory. -/
theorem Stores.ram {c c' : Cpu} {w : Width} {va v mask p : UInt64} (h : c.Stores w va v mask c')
    (hp : c.translate w .write va = .ok p) (hin : c.ram.Within w p) :
    c'.ram = c.ram.write w p (blend (c.ram.read w p) v mask) := by
  have htarget := resolve_of_within hp hin
  cases h with
  | whole h =>
    unfold store at h
    rw [htarget] at h
    obtain rfl := (Prod.mk.inj h).2
    rw [blend_allBits]
    rfl
  | masked h =>
    unfold storeMasked at h
    rw [htarget] at h
    obtain rfl := (Prod.mk.inj h).2
    rfl
  | @executed e plan target mask hbefore hplanned h hstored =>
    obtain rfl := Except.ok.inj (htarget.symm.trans h)
    have hlasting := Execution.lasting_after (Execution.worked_of_plan hplanned)
    have hafter : e.after.ram = (e.before.apply plan.effect).ram := by
      refine (same_of_lasting hlasting (·.ram) fun _ => rfl).trans ?_
      cases plan.flow <;> rfl
    rw [hafter, hbefore]
    exact ram_of_stored hstored

/-! ## Instructions that do not store -/

theorem ram_takeException (c : Cpu) (t : Trap) (inDelay : Bool) : (c.takeException t inDelay).ram = c.ram := by
  obtain ⟨cp0, pc, fpr, usable, pending, statistics, h⟩ := takeException_frame c t inDelay
  rw [h]

theorem ram_writeControl (c : Cpu) (r : Reg) (v : UInt64) : (c.writeControl r v).ram = c.ram := by
  have hschedule (b : Cpu) : b.scheduleCompare.ram = b.ram :=
    same_of_lasting (lasting_schedule { b with events := b.events.erase .compare } .compare _ .compareMatch) (·.ram)
      fun _ => rfl
  unfold writeControl
  cases c.cp0.write? r v with
  | none => rfl
  | some cp0 =>
    dsimp only
    split
    · exact hschedule _
    split
    · exact hschedule _
    split
    · rfl
    split
    · rfl
    split <;> rfl

/-- **An effect that does not store** leaves main memory alone. -/
theorem ram_apply (c : Cpu) {e : Effect} (h : e.stored? = none) : (c.apply e).ram = c.ram := by
  have hread (w : Width) (l : Location) : (c.readAt w l).2.ram = c.ram := by cases l <;> rfl
  have hdeliver (b : Cpu) (w : Width) (v : UInt64) (d : Destination) : (b.deliver w v d).ram = b.ram := by
    cases d with
    | float p ft => cases p <;> rfl
    | _ => rfl
  cases e with
  | load w source into => exact (hdeliver _ _ _ _).trans (hread _ _)
  | store w target v => cases h
  | storeMasked w target v mask => cases h
  | storeLinked w target v rt => cases h
  | control rd v => exact c.ram_writeControl rd v
  | float p fd bits fcr31 => cases p <;> rfl
  | _ => rfl

end Cpu

/-- **An instruction that does not store** leaves main memory alone. -/
theorem Execution.ram_after {e : Execution} (h : e.stores = false) : e.after.ram = e.before.ram := by
  cases hw : e.worked with
  | none => rw [e.after_eq, hw]
  | some b =>
    refine (Cpu.same_of_lasting (lasting_after hw) (·.ram) fun _ => rfl).trans ?_
    rcases worked_cases hw with ⟨p, hp, rfl⟩ | ⟨-, fcr31, t, rfl⟩
    · unfold stores at h
      rw [hp] at h
      refine Eq.trans ?_ (e.before.ram_apply (by simpa using h))
      cases p.flow <;> rfl
    · exact Cpu.ram_takeException { e.before with fcr31 := fcr31 } t _

theorem Quiet.ram {a b : Cpu} (h : Quiet a b) : b.ram = a.ram := by
  cases h with
  | sample => rfl
  | interrupt => exact a.ram_takeException _ _
  | outside => rfl

/-- **Without a store** main memory stays as it is. -/
theorem Chain.ram {a b : Cpu} {es : List Execution} (h : Chain a es b) (hes : ∀ e ∈ es, e.stores = false) :
    b.ram = a.ram :=
  h.same (·.ram) (fun _ _ hq => hq.ram) fun e he => Execution.ram_after (hes e he)

/-! ## Where addresses lead -/

namespace Cpu

/-- **The physical address** of an access: in an unmapped segment the low bits of the address, whatever its upper half
is, and elsewhere what the entries say. -/
def Physical (c : Cpu) (access : Access) (va p : UInt64) : Prop :=
  if (Address.segment va).isMapped then c.tlb.translate va access c.asid = .ok p
  else p.toNat = va.toNat % 2 ^ 29

/-- **An access leads to its physical address**, whether or not its address is looked up, if main memory fits into the
unmapped segments. -/
theorem physical_of_translate {c : Cpu} {w : Width} {access : Access} {va p : UInt64}
    (hsize : c.ram.size ≤ 2 ^ 29) (h : c.translate w access va = .ok p) : c.Physical access va p := by
  unfold Physical
  rcases translate_cases h with ⟨hwindow, rfl, -⟩ | ⟨hphysical, -⟩
  · have hva := congrArg UInt64.toNat (UInt64.sub_add_cancel va Address.kseg0Base)
    rw [UInt64.toNat_add, show Address.kseg0Base.toNat = 2 ^ 64 - 2 ^ 31 from rfl] at hva
    have hunmapped : (Address.segment va).isMapped = false := by
      rw [Address.segment_of_four (by omega)]
      rfl
    rw [hunmapped, if_neg Bool.false_ne_true]
    omega
  · unfold Tlb.physical at hphysical
    cases hmapped : (Address.segment va).isMapped with
    | true =>
      unfold Address.unmappedPhysical? at hphysical
      rw [hmapped, if_pos rfl] at hphysical
      rw [if_pos rfl]
      exact hphysical
    | false =>
      have hunmapped : Address.unmappedPhysical? va = some (Address.compat va &&& 0x1FFFFFFF).toUInt64 := by
        unfold Address.unmappedPhysical?
        rw [hmapped, if_neg Bool.false_ne_true]
      rw [hunmapped] at hphysical
      obtain rfl := Except.ok.inj hphysical
      rw [if_neg Bool.false_ne_true]
      exact Address.toNat_unmappedPhysical? hunmapped

/-- **A load** that lies wholly inside main memory reads there. -/
theorem load_of_within {c : Cpu} {w : Width} {va p x : UInt64} (h : (c.load w va).1 = .ok x)
    (hp : c.translate w .read va = .ok p) (hin : c.ram.Within w p) : x = c.ram.read w p := by
  unfold load at h
  rw [resolve_of_within hp hin] at h
  exact (Except.ok.inj h).symm

end Cpu

/-- **Main memory is one array of bytes**, with the most significant byte of a number first. A store of some bits of a
number succeeds, and later, without a store in between, a load of any width does, both wholly inside main memory. Each
byte that is loaded is the one that was there before the store, with the bits replaced that the store covered; behind
a store of all bits it is the byte of the number. If main memory fits into the unmapped segments, the addresses lead
where the architecture says, whichever way they go. -/
theorem memory_coherent {c c1 c2 : Cpu} {w w' : Width} {va vb v mask x p q : UInt64} {es : List Execution}
    (hstore : c.Stores w va v mask c1) (hchain : Chain c1 es c2) (hes : ∀ e ∈ es, e.stores = false)
    (hload : (c2.load w' vb).1 = .ok x) (hp : c.translate w .write va = .ok p)
    (hq : c2.translate w' .read vb = .ok q) (hin : c.ram.Within w p) (hin' : c2.ram.Within w' q) :
    (∀ place < w'.bytes,
        Bytes.digit w'.bytes place x =
          if p.toNat ≤ q.toNat + place ∧ q.toNat + place < p.toNat + w.bytes then
            blendByte (c.ram.byteAt (q.toNat + place)) (Bytes.digit w.bytes (q.toNat + place - p.toNat) v)
              (Bytes.digit w.bytes (q.toNat + place - p.toNat) mask)
          else c.ram.byteAt (q.toNat + place)) ∧
      (mask = allBits → ∀ place < w'.bytes, p.toNat ≤ q.toNat + place → q.toNat + place < p.toNat + w.bytes →
        Bytes.digit w'.bytes place x = Bytes.digit w.bytes (q.toNat + place - p.toNat) v) ∧
      (c.ram.size ≤ 2 ^ 29 → c.Physical .write va p ∧ c2.Physical .read vb q) := by
  have hwidth : w.bytes ≤ 8 := by cases w <;> decide
  have hstored : c2.ram = c.ram.write w p (blend (c.ram.read w p) v mask) :=
    (hchain.ram hes).trans (hstore.ram hp hin)
  have hbyte (place : Nat) (hplace : place < w'.bytes) :
      Bytes.digit w'.bytes place x =
        if p.toNat ≤ q.toNat + place ∧ q.toNat + place < p.toNat + w.bytes then
          Bytes.digit w.bytes (q.toNat + place - p.toNat) (blend (c.ram.read w p) v mask)
        else c.ram.byteAt (q.toNat + place) := by
    rw [Cpu.load_of_within hload hq hin', Ram.digit_read hin' hplace, hstored]
    exact Ram.byteAt_write hin _ _
  refine ⟨?_, ?_, ?_⟩
  · intro place hplace
    rw [hbyte place hplace]
    split
    · rename_i hcovered
      have hold :
          Bytes.digit w.bytes (q.toNat + place - p.toNat) (c.ram.read w p) = c.ram.byteAt (q.toNat + place) := by
        rw [Ram.digit_read hin (by omega), Nat.add_sub_cancel' hcovered.1]
      rw [Bytes.digit_blend hwidth, hold]
    · rfl
  · rintro rfl place hplace hfrom hto
    rw [hbyte place hplace, if_pos ⟨hfrom, hto⟩, Cpu.blend_allBits]
  · intro hsize
    have hsame : c2.ram.size = c.ram.size := by rw [hstored, Ram.size_write]
    exact ⟨Cpu.physical_of_translate hsize hp, Cpu.physical_of_translate (hsame ▸ hsize) hq⟩

/-- A word is stored through the first window, an instruction is executed, and half of the word is loaded through the
second window at an address without a sign. -/
theorem memory_coherent_windows :
    let c := (Machine.create { general := { startPc := 0xFFFFFFFF80000000 }, memory := { ramSize := 32 } } {} {}).cpu
    let c1 := (c.store .word 0xFFFFFFFF80000010 0x11223344).2
    let e := c1.nextExecution
    e.after.translate .half .read 0xA0000012 = .ok 0x12 ∧
      ∃ x, (e.after.load .half 0xA0000012).1 = .ok x ∧ Bytes.digit 2 0 x = 0x33 ∧ Bytes.digit 2 1 x = 0x44 := by
  intro c c1 e
  have hstore : c.Stores .word 0xFFFFFFFF80000010 0x11223344 allBits c1 :=
    .whole (Prod.ext (by decide +kernel) rfl)
  have hchain : Chain c1 [e] e.after := .quiet c1.quiet_nextExecution (.execute e (by decide +kernel) (.nil _))
  have hes : ∀ f ∈ [e], f.stores = false := by
    intro f hf
    obtain rfl := List.mem_singleton.mp hf
    decide +kernel
  have hq : e.after.translate .half .read 0xA0000012 = .ok 0x12 := by decide +kernel
  have hload : (e.after.load .half 0xA0000012).1 = .ok (e.after.ram.read .half 0x12) := by decide +kernel
  obtain ⟨-, hbytes, -⟩ := memory_coherent hstore hchain hes hload (p := 0x10) (by decide +kernel) hq
    (by decide +kernel) (by decide +kernel)
  exact ⟨hq, _, hload, (hbytes rfl 0 (by decide) (by decide) (by decide)).trans (by decide),
    (hbytes rfl 1 (by decide) (by decide) (by decide)).trans (by decide)⟩

end Vr4300
