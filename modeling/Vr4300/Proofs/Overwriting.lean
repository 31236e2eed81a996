import Vr4300.Proofs.Consistency

/-!
# `Proofs.Overwriting` — which fragments go with the code that is overwritten

The index knows the lines of a fragment by their virtual addresses. A range of addresses is looked up through
the window that it lies in and through the other one, so what is dropped is decided by `CodeIndex.covers`, line
by line: exactly the fragments with an operation in a covered line, and the trace in progress if it is one
(`Consistent.get?_invalidate_iff`, `Consistent.recorder_invalidate_iff`).

A program is loaded at a physical address and looked up through the sign-extended windows. So no fragment is
left that was recorded there from the bytes that are overwritten (`loadProgram_drops`). The same bytes can be
executed at other addresses, of which the upper half is not a sign or which the TLB maps, and a fragment from
there stays (`loaded_over`).

## Contents

* `get?_forgetAll_iff`, `Consistent.get?_invalidate_iff`, `Consistent.recorder_invalidate_iff`;
* `Cpu.FetchesFrom`, `covers_of_fetchesFrom`: the bytes behind an address;
* `loadProgram_drops`, a loop that is loaded anew, and `loaded_over`.
-/

namespace Vr4300

namespace FragmentCache

namespace Consistent

variable {x : FragmentCache} {limit : Nat}

/-- **Forgetting an address** loses the fragment that is entered there, and no other. -/
theorem get?_forget_iff (h : x.Consistent limit) {entry : UInt64} {id : FragmentId} {f : Fragment} :
    (x.forget entry).store.get? id = some f ↔ x.store.get? id = some f ∧ f.entry ≠ entry := by
  constructor
  · intro hf
    have hstored := (h.forget entry).stored id f hf
    rw [(x.forget_parts entry).1, getElem?_erase_eq_some_iff] at hstored
    exact ⟨get?_forget hf, hstored.1⟩
  · rintro ⟨hf, hne⟩
    have hstored := h.stored id f hf
    obtain ⟨g, hg, -⟩ := (h.forget entry).compiled f.entry id (by
      rw [(x.forget_parts entry).1, getElem?_erase_eq_some_iff]
      exact ⟨hne, hstored⟩)
    rw [hg, ← hf, ← get?_forget hg]

/-- **Forgetting addresses**, likewise. -/
theorem get?_forgetAll_iff (entries : List UInt64) :
    ∀ {x : FragmentCache}, x.Consistent limit → ∀ {id : FragmentId} {f : Fragment},
      (x.forgetAll entries).2.store.get? id = some f ↔ x.store.get? id = some f ∧ f.entry ∉ entries := by
  induction entries with
  | nil => intro x _ id f; simp [forgetAll]
  | cons entry rest ih =>
    intro x h id f
    show ((x.forget entry).forgetAll rest).2.store.get? id = some f ↔ _
    rw [ih (h.forget entry), h.get?_forget_iff, List.mem_cons, not_or, and_assoc]

end Consistent

/-- Forgetting addresses ends a recording that starts at one of them. -/
theorem recorder_forgetAll_iff (entries : List UInt64) :
    ∀ {x : FragmentCache} {r : Recorder},
      (x.forgetAll entries).2.recorder = some r ↔ x.recorder = some r ∧ r.entry ∉ entries := by
  induction entries with
  | nil => intro x r; simp [forgetAll]
  | cons entry rest ih =>
    intro x r
    show ((x.forget entry).forgetAll rest).2.recorder = some r ↔ _
    rw [ih, (x.forget_parts entry).2.2, Option.filter_eq_some_iff, List.mem_cons, not_or, bne_iff_ne, and_assoc]

/-! ## What lies in a range -/

/-- The addresses that are forgotten for a range. -/
def overwritten (x : FragmentCache) (address len : UInt64) : Std.TreeSet UInt64 :=
  match x.recorderTouches address len with
  | none => x.index.overlapping address len
  | some entry => (x.index.overlapping address len).insert entry

theorem invalidate_eq (x : FragmentCache) (address len : UInt64) :
    x.invalidate address len = x.forgetAll (x.overwritten address len).toList := rfl

/-- The trace in progress is forgotten if its entry or one of its instructions lies in a covered line. -/
theorem recorderTouches_eq_some_iff {x : FragmentCache} {address len entry : UInt64} :
    x.recorderTouches address len = some entry ↔
      ∃ r, x.recorder = some r ∧ r.entry = entry ∧
        ∃ a ∈ r.entry :: r.reversed.map (·.address), CodeIndex.covers (codeLine a) address len = true := by
  unfold recorderTouches
  simp only [Option.bind_eq_bind, Option.bind_eq_some_iff]
  constructor
  · rintro ⟨r, hr, hentry⟩
    split at hentry
    · rename_i hany
      exact ⟨r, hr, Option.some.inj hentry, List.any_eq_true.mp hany⟩
    · cases hentry
  · rintro ⟨r, hr, rfl, hany⟩
    exact ⟨r, hr, if_pos (List.any_eq_true.mpr hany)⟩

theorem mem_overwritten {x : FragmentCache} {address len k : UInt64} :
    k ∈ (x.overwritten address len).toList ↔
      k ∈ x.index.overlapping address len ∨ x.recorderTouches address len = some k := by
  rw [Std.TreeSet.mem_toList]
  unfold overwritten
  cases x.recorderTouches address len with
  | none => simp
  | some entry =>
    dsimp only
    rw [Std.TreeSet.mem_insert, Std.compare_eq_iff_eq, or_comm, Option.some.injEq]

namespace Consistent

variable {x : FragmentCache} {limit : Nat} {address len : UInt64}

/-- The lines under which a fragment is indexed are the lines of its operations. -/
theorem mem_overlapping_iff (h : x.Consistent limit) {id : FragmentId} {f : Fragment}
    (hf : x.store.get? id = some f) :
    f.entry ∈ x.index.overlapping address len ↔
      ∃ op ∈ f.ops, CodeIndex.covers (codeLine op.address) address len = true := by
  obtain ⟨g, hg, hformed, hlines⟩ := h.compiled f.entry id (h.stored id f hf)
  obtain rfl := Option.some.inj (hf.symm.trans hg)
  rw [CodeIndex.mem_overlapping]
  simp only [hlines, hformed.lines_eq, codeLines, mem_ascending, List.mem_map]
  constructor
  · rintro ⟨line, hline, a, ⟨op, hop, rfl⟩, rfl⟩
    exact ⟨op, hop, hline⟩
  · rintro ⟨op, hop, hline⟩
    exact ⟨_, hline, _, ⟨op, hop, rfl⟩, rfl⟩

/-- **The fragments that stay** are those without an operation in a covered line. -/
theorem get?_invalidate_iff (h : x.Consistent limit) {id : FragmentId} {f : Fragment} :
    (x.invalidate address len).2.store.get? id = some f ↔
      x.store.get? id = some f ∧
        ∀ op ∈ f.ops, CodeIndex.covers (codeLine op.address) address len = false := by
  rw [invalidate_eq, get?_forgetAll_iff _ h]
  refine and_congr_right fun hf => ?_
  -- the trace in progress is not the one of a fragment
  have hother : x.recorderTouches address len ≠ some f.entry := by
    intro htouches
    obtain ⟨r, hr, hentry, -⟩ := recorderTouches_eq_some_iff.mp htouches
    have hrecording := (h.recording f.entry).mpr ⟨r, hr, hentry⟩
    cases hrecording.symm.trans (h.stored id f hf)
  rw [mem_overwritten, or_iff_left hother, h.mem_overlapping_iff hf]
  simp

/-- **The trace in progress stays** if neither its entry nor an instruction lies in a covered line. -/
theorem recorder_invalidate_iff (h : x.Consistent limit) {r : Recorder} :
    (x.invalidate address len).2.recorder = some r ↔
      x.recorder = some r ∧
        ∀ a ∈ r.entry :: r.reversed.map (·.address), CodeIndex.covers (codeLine a) address len = false := by
  rw [invalidate_eq, recorder_forgetAll_iff]
  refine and_congr_right fun hr => ?_
  -- its entry has no fragment that could be indexed
  have hother : r.entry ∉ x.index.overlapping address len := by
    intro hmem
    obtain ⟨line, -, hline⟩ := CodeIndex.mem_overlapping.mp hmem
    obtain ⟨id, hid⟩ := h.indexed line r.entry hline
    cases ((h.recording r.entry).mpr ⟨r, hr, rfl⟩).symm.trans hid
  rw [mem_overwritten, or_iff_right hother, recorderTouches_eq_some_iff]
  simp [hr]

end Consistent

end FragmentCache

/-! ## The bytes behind an address -/

/-- A fetch from the address reads a byte of main memory among `len` bytes from `first` on. -/
def Cpu.FetchesFrom (c : Cpu) (address : UInt64) (first len : Nat) : Prop :=
  ∃ offset, c.resolve .word .fetch address = .ok (.ram offset) ∧ offset.toNat < first + len ∧
    first < offset.toNat + 4

namespace Cpu

/-- **Where an unmapped address leads** in main memory, if its upper half is a sign: to its distance from the
base of `kseg0`, or from the base of `kseg1`. -/
theorem offset_of_resolve {c : Cpu} {address offset : UInt64}
    (h : c.resolve .word .fetch address = .ok (.ram offset)) (hsign : Address.kseg0Base ≤ address)
    (hunmapped : (Address.segment address).isMapped = false) :
    address.toNat % 4 = 0 ∧
      (address.toNat = Address.kseg0Base.toNat + offset.toNat ∨
        (address.toNat = Address.kseg0Base.toNat + 2 ^ 29 + offset.toNat ∧ offset.toNat < 2 ^ 29)) := by
  have hbase : Address.kseg0Base.toNat = 2 ^ 64 - 2 ^ 31 := rfl
  have hbound := address.toNat_lt
  rw [UInt64.le_iff_toNat_le] at hsign
  unfold resolve at h
  split at h
  · cases h
  rename_i haligned
  have hfour : address.toNat % 4 = 0 := by
    have hmask : address &&& 3 = 0 := by simpa [Width.isAligned, Width.alignmentMask] using haligned
    have hand := congrArg UInt64.toNat hmask
    rw [UInt64.toNat_and] at hand
    change address.toNat &&& (2 ^ 2 - 1) = 0 at hand
    rwa [Nat.and_two_pow_sub_one_eq_mod] at hand
  refine ⟨hfour, ?_⟩
  have hoffset : (address - Address.kseg0Base).toNat = address.toNat - Address.kseg0Base.toNat :=
    UInt64.toNat_sub_of_le _ _ (UInt64.le_iff_toNat_le.mpr hsign)
  dsimp only at h
  split at h
  -- the window of main memory is not looked up
  · obtain rfl := Location.ram.inj (Except.ok.inj h)
    left
    omega
  rename_i hbeyond
  right
  have heighth := Address.eighth_of_unmapped hunmapped
  have hphysical : Address.unmappedPhysical? address = some (Address.compat address &&& 0x1FFFFFFF).toUInt64 := by
    unfold Address.unmappedPhysical?
    rw [hunmapped, if_neg Bool.false_ne_true]
  have hp := Address.toNat_unmappedPhysical? hphysical
  unfold Tlb.physical at h
  rw [hphysical] at h
  dsimp only at h
  split at h
  · rename_i hin
    obtain rfl := Location.ram.inj (Except.ok.inj h)
    rw [hoffset] at hbeyond
    rw [hp] at hin ⊢
    omega
  · cases h

end Cpu

/-- **A load covers what is fetched from it** through a window at sign-extended addresses. -/
theorem covers_of_fetchesFrom {c : Cpu} {address : UInt64} {first len : Nat} (hfit : first + len < 0x60000000)
    (hsign : Address.kseg0Base ≤ address) (hunmapped : (Address.segment address).isMapped = false)
    (h : c.FetchesFrom address first len) :
    CodeIndex.covers (codeLine address) (Address.kseg0Base + UInt64.ofNat first) (UInt64.ofNat len) = true := by
  obtain ⟨offset, hresolve, hfrom, hto⟩ := h
  have hbase : Address.kseg0Base.toNat = 2 ^ 64 - 2 ^ 31 := rfl
  have hfirst : (Address.kseg0Base + UInt64.ofNat first).toNat = 2 ^ 64 - 2 ^ 31 + first := by
    rw [UInt64.toNat_add, UInt64.toNat_ofNat', hbase]
    omega
  obtain ⟨hfour, haddress | ⟨haddress, hlow⟩⟩ := Cpu.offset_of_resolve hresolve hsign hunmapped
  · unfold CodeIndex.covers
    rw [CodeIndex.within_of_overlap hfour (by omega) (by omega) (by omega), Bool.true_or]
  -- through the other window
  · have halias : Address.unmappedAlias? (Address.kseg0Base + UInt64.ofNat first) =
        some (Address.kseg0Base + UInt64.ofNat first + Address.aliasDistance) := by
      unfold Address.unmappedAlias?
      rw [Address.segment_of_four (by omega)]
    have hview : (Address.kseg0Base + UInt64.ofNat first + Address.aliasDistance).toNat =
        2 ^ 64 - 2 ^ 31 + first + 2 ^ 29 := by
      rw [UInt64.toNat_add, hfirst, show Address.aliasDistance.toNat = 2 ^ 29 from rfl]
      omega
    have hwithin : CodeIndex.within (codeLine address)
        (Address.kseg0Base + UInt64.ofNat first + Address.aliasDistance) (UInt64.ofNat len) = true :=
      CodeIndex.within_of_overlap hfour (by omega) (by omega) (by omega)
    unfold CodeIndex.covers
    rw [halias]
    dsimp only
    rw [hwithin, Bool.or_true]

/-! ## Loading -/

theorem length_ofWords (program : List UInt32) : (Bytes.ofWords program).length = 4 * program.length := by
  unfold Bytes.ofWords
  rw [List.length_flatMap]
  simp [Nat.mul_comm]

/-- Loading a program drops what lies in the range through the windows. -/
theorem Machine.cache_loadProgram (m : Machine) (physical : Nat) (program : List UInt32) :
    (m.loadProgram physical program).cache =
      (m.cache.invalidate (Address.kseg0Base + UInt64.ofNat physical) (UInt64.ofNat (4 * program.length))).2 := by
  rw [← length_ofWords]
  rfl

/-- **Loading a program drops the code that it overwrites**, whatever was done to the machine before. What stays
is decided line by line, through both windows; and from a line that stays no overwritten byte is fetched at an
unmapped address whose upper half is a sign. -/
theorem loadProgram_drops (config : Configuration) (bus : Bus) (vector : VectorUnit)
    (operations : List Operation) (physical : Nat) (program : List UInt32)
    (hfit : physical + 4 * program.length < 0x60000000) :
    let m := (Machine.create config bus vector).operate operations
    let k := m.loadProgram physical program
    let stays (address : UInt64) : Prop :=
      CodeIndex.covers (codeLine address) (Address.kseg0Base + UInt64.ofNat physical)
        (UInt64.ofNat (4 * program.length)) = false
    (∀ id f, k.cache.store.get? id = some f ↔
        m.cache.store.get? id = some f ∧ ∀ op ∈ f.ops, stays op.address) ∧
      (∀ r, k.cache.recorder = some r ↔
        m.cache.recorder = some r ∧ ∀ address ∈ r.entry :: r.reversed.map (·.address), stays address) ∧
      ∀ address, stays address → Address.kseg0Base ≤ address → (Address.segment address).isMapped = false →
        ¬ k.cpu.FetchesFrom address physical (4 * program.length) := by
  intro m k stays
  have hconsistent : m.cache.Consistent (max 1 config.recompiler.maxFragmentOps.toNat) :=
    Machine.consistent_operate operations (FragmentCache.Consistent.create config.recompiler)
  have hcache : k.cache = _ := m.cache_loadProgram physical program
  rw [hcache]
  refine ⟨fun id f => hconsistent.get?_invalidate_iff, fun r => hconsistent.recorder_invalidate_iff, ?_⟩
  intro address hstays hsign hunmapped hfetches
  cases hstays.symm.trans (covers_of_fetchesFrom hfit hsign hunmapped hfetches)

/-- A machine that has run a loop of two words at the start of main memory, entered at an address, until it was
compiled. -/
def spinning (startPc : UInt64) : Machine :=
  (Machine.create
    { general := { startPc := startPc }
      memory := { ramSize := 16 }
      recompiler := { hotThreshold := 0 } } {} {}).operate
    [.loadProgram 0 [0x1000FFFF, 0x24210001], .run 10]

/-- The addresses and words of the fragment for an address. -/
def Machine.compiledWords (m : Machine) (entry : UInt64) : List (UInt64 × UInt32) :=
  match (m.cache.compiled? entry).bind m.cache.store.get? with
  | some f => f.ops.map fun op => (op.address, op.word)
  | none => []

/-- At the base of `kseg0` the loop is dropped when another one is loaded over it. -/
theorem loadProgram_drops_spinning :
    let m := spinning 0xFFFFFFFF80000000
    let k := m.loadProgram 0 [0x1000FFFF, 0x24210002]
    m.compiledWords 0xFFFFFFFF80000000 = [(0xFFFFFFFF80000000, 0x1000FFFF), (0xFFFFFFFF80000004, 0x24210001)] ∧
      k.compiledWords 0xFFFFFFFF80000000 = [] ∧
      ∀ address, CodeIndex.covers (codeLine address) (Address.kseg0Base + UInt64.ofNat 0) (UInt64.ofNat 8) = false →
        Address.kseg0Base ≤ address → (Address.segment address).isMapped = false →
        ¬ k.cpu.FetchesFrom address 0 8 :=
  ⟨by decide +kernel, by decide +kernel,
    (loadProgram_drops _ _ _ [.loadProgram 0 [0x1000FFFF, 0x24210001], .run 10] 0 [0x1000FFFF, 0x24210002]
      (by decide)).2.2⟩

/-- **A fragment of overwritten code.** At an address whose upper half is zero the same loop stays, although the
second word is fetched from the bytes that were overwritten, and is another one now. -/
theorem loaded_over :
    let k := (spinning 0x80000000).loadProgram 0 [0x1000FFFF, 0x24210002]
    k.compiledWords 0x80000000 = [(0x80000000, 0x1000FFFF), (0x80000004, 0x24210001)] ∧
      k.cpu.resolve .word .fetch 0x80000004 = .ok (.ram 4) ∧ (k.cpu.fetch 0x80000004).1 = .ok 0x24210002 := by
  decide +kernel

end Vr4300
