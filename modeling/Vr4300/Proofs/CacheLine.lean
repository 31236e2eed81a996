import Vr4300.Proofs.MappedCode
import Vr4300.Proofs.Recorded

/-!
# `Proofs.CacheLine` — what an operation on a cache line drops

An operation on a line of the instruction cache leaves a note of a range: from the start of the line, as many bytes
as a line has, and as many more as the address is behind the start. The range is looked up line by line, through the
window that the address lies in and through the other one. Behind the turn no fragment is left with an instruction
in the line of the address, through either window, and neither is a trace in progress (`cache_operation_drops_line`).

The topmost line of the address space is an exception. From an address behind its start the range reaches beyond
the last address, it wraps around, and a range that wraps around has no line: nothing is dropped
(`invalidate_of_top`, `topmost_line_stays`).

## Contents

* `lineStart`, `lineNote`: the note as a range of numbers;
* `covers_lineNote`, `covers_lineNote_alias`, `covers_of_top`: the lines in it;
* `FragmentCache.Lacks`, `lacks_drain`: nothing is left in a line;
* `cache_operation_drops_line`; a loop in `kseg0`, and a loop in the topmost line.
-/

namespace Vr4300

open FragmentCache

/-! ## The note -/

/-- The start of the topmost line of the address space. -/
def topLine : UInt64 := 0xFFFFFFFFFFFFFFE0

/-- The start of the line of an address. -/
def lineStart (address : UInt64) : UInt64 := address &&& ~~~(Cpu.codeLineSize - 1)

/-- The range that an operation on the line of an address notes, as its start and its length. -/
def lineNote (address : UInt64) : UInt64 × UInt64 :=
  (lineStart address, max Cpu.codeLineSize 1 + (address - lineStart address))

theorem codeInvalidations_apply (c : Cpu) (address : UInt64) :
    (c.apply (.invalidateCode address)).codeInvalidations = c.codeInvalidations ++ [lineNote address] := rfl

theorem toNat_lineStart (a : UInt64) : (lineStart a).toNat = a.toNat / 32 * 32 := by
  have hshift : lineStart a = a >>> 5 <<< 5 := by
    apply UInt64.toBitVec_inj.mp
    show a.toBitVec &&& ~~~(31#64) = a.toBitVec >>> 5 <<< 5
    rw [BitVec.shiftLeft_ushiftRight]
    rfl
  have hbound := a.toNat_lt
  rw [hshift, UInt64.toNat_shiftLeft, UInt64.toNat_shiftRight, show (5 : UInt64).toNat % 64 = 5 from rfl,
    Nat.shiftRight_eq_div_pow, Nat.shiftLeft_eq, Nat.mod_eq_of_lt (by omega)]

/-- The length counts from the start of the line. -/
theorem lineNote_snd (a : UInt64) : (lineNote a).2 = UInt64.ofNat (32 + a.toNat % 32) := by
  have hstart := toNat_lineStart a
  have hle : lineStart a ≤ a := by
    rw [UInt64.le_iff_toNat_le, hstart]
    omega
  apply UInt64.toNat_inj.mp
  show (32 + (a - lineStart a)).toNat = _
  rw [UInt64.toNat_add, UInt64.toNat_sub_of_le _ _ hle, UInt64.toNat_ofNat', hstart]
  show (32 + _) % _ = _
  congr 2
  omega

/-- **The line of the address is in the range**, below the topmost line and at its start. -/
theorem within_lineNote {a : UInt64} (h : a ≤ topLine) :
    CodeIndex.within (codeLine a) (lineNote a).1 (lineNote a).2 = true := by
  rcases UInt64.lt_or_eq_of_le h with hlt | rfl
  · have hbelow : a.toNat < 2 ^ 64 - 32 := UInt64.lt_iff_toNat_lt.mp hlt
    have hstart := toNat_lineStart a
    rw [lineNote_snd, show (lineNote a).1 = lineStart a from rfl, CodeIndex.within_iff (by omega),
      CodeIndex.toNat_codeLine]
    omega
  · decide

/-- Through the window that it lies in. -/
theorem covers_lineNote {a : UInt64} (h : a ≤ topLine) :
    CodeIndex.covers (codeLine a) (lineNote a).1 (lineNote a).2 = true := by
  unfold CodeIndex.covers
  rw [within_lineNote h, Bool.true_or]

theorem segment_lineStart (a : UInt64) : Address.segment (lineStart a) = Address.segment a := by
  have hstart := toNat_lineStart a
  have heighth : (lineStart a).toNat % 2 ^ 32 / 2 ^ 29 = a.toNat % 2 ^ 32 / 2 ^ 29 := by omega
  unfold Address.segment
  rw [Address.toNat_compat_shift, Address.toNat_compat_shift, heighth]

/-- The two windows show an address at a distance of whole lines, below the topmost line. -/
theorem lineStart_alias {a view : UInt64} (h : Address.unmappedAlias? a = some view) :
    Address.unmappedAlias? (lineStart a) = some (lineStart view) ∧ (lineNote view).2 = (lineNote a).2 ∧
      view ≤ topLine := by
  have hdistance : Address.aliasDistance.toNat = 2 ^ 29 := rfl
  have htop : topLine.toNat = 2 ^ 64 - 32 := rfl
  have hbound := a.toNat_lt
  have hstart := toNat_lineStart a
  have hview := toNat_lineStart view
  unfold Address.unmappedAlias? at h ⊢
  rw [segment_lineStart, lineNote_snd, lineNote_snd, UInt64.le_iff_toNat_le]
  split at h
  · rename_i hs
    have heighth := Address.eighth_of_unmapped (a := a) (by rw [hs]; rfl)
    obtain rfl := Option.some.inj h
    have hsum : (a + Address.aliasDistance).toNat = a.toNat + 2 ^ 29 := by
      rw [UInt64.toNat_add, hdistance]
      omega
    refine ⟨congrArg some (UInt64.toNat_inj.mp ?_), congrArg UInt64.ofNat (by omega), by omega⟩
    rw [UInt64.toNat_add, hdistance, hstart, hview, hsum]
    omega
  · rename_i hs
    have heighth := Address.eighth_of_unmapped (a := a) (by rw [hs]; rfl)
    obtain rfl := Option.some.inj h
    have hle : Address.aliasDistance ≤ a := by
      rw [UInt64.le_iff_toNat_le]
      omega
    have hdiff : (a - Address.aliasDistance).toNat = a.toNat - 2 ^ 29 := UInt64.toNat_sub_of_le _ _ hle
    refine ⟨congrArg some (UInt64.toNat_inj.mp ?_), congrArg UInt64.ofNat (by omega), by omega⟩
    rw [UInt64.toNat_sub_of_le _ _ (by rw [UInt64.le_iff_toNat_le]; omega), hdistance, hstart, hview, hdiff]
    omega
  · cases h

/-- Through the other window. -/
theorem covers_lineNote_alias {a view : UInt64} (h : Address.unmappedAlias? a = some view) :
    CodeIndex.covers (codeLine view) (lineNote a).1 (lineNote a).2 = true := by
  obtain ⟨halias, hlength, htop⟩ := lineStart_alias h
  have hwithin := within_lineNote htop
  rw [hlength] at hwithin
  unfold CodeIndex.covers
  rw [show (lineNote a).1 = lineStart a from rfl, halias]
  dsimp only
  rw [show lineStart view = (lineNote view).1 from rfl, hwithin, Bool.or_true]

/-- **Behind the start of the topmost line**, the range has no line. -/
theorem covers_of_top {a : UInt64} (h : topLine < a) (line : UInt64) :
    CodeIndex.covers line (lineNote a).1 (lineNote a).2 = false := by
  have htop : topLine.toNat = 2 ^ 64 - 32 := rfl
  have hbound := a.toNat_lt
  have habove := UInt64.lt_iff_toNat_lt.mp h
  have hstart : lineStart a = topLine := by
    apply UInt64.toNat_inj.mp
    rw [toNat_lineStart]
    omega
  -- the last byte is at an address below 32
  have hlast : (CodeIndex.lastLine topLine (lineNote a).2).toNat = 0 := by
    unfold CodeIndex.lastLine
    have hlen : (max (lineNote a).2 1).toNat = 32 + a.toNat % 32 := by
      rw [lineNote_snd, UInt64.toNat_max, UInt64.toNat_ofNat']
      show max _ 1 = _
      omega
    have hone : (1 : UInt64) ≤ max (lineNote a).2 1 := by
      rw [UInt64.le_iff_toNat_le, hlen]
      show 1 ≤ _
      omega
    rw [CodeIndex.toNat_codeLine, UInt64.toNat_add, UInt64.toNat_sub_of_le _ _ hone, hlen, htop]
    show (_ + (_ - 1)) % _ / 32 = 0
    omega
  have hwithin : CodeIndex.within line topLine (lineNote a).2 = false := by
    unfold CodeIndex.within
    have hfirst : (CodeIndex.firstLine topLine).toNat = (2 ^ 64 - 32) / 32 := CodeIndex.toNat_codeLine topLine
    simp only [Bool.and_eq_false_iff, decide_eq_false_iff_not, UInt64.le_iff_toNat_le, hlast, hfirst]
    omega
  have hmapped : Address.unmappedAlias? topLine = none := by decide
  unfold CodeIndex.covers
  rw [show (lineNote a).1 = lineStart a from rfl, hstart, hmapped, hwithin]
  rfl

/-! ## What is left -/

namespace FragmentCache

/-- **Nothing is left in a line**: neither an instruction of a fragment or of the trace in progress, nor an address
that the cache has something for. -/
structure Lacks (x : FragmentCache) (line : UInt64) : Prop where
  /-- Nothing is entered there. -/
  entries : ∀ k s, x.entries[k]? = some s → codeLine k ≠ line
  /-- No fragment has an operation there. -/
  code : ∀ id f, x.store.get? id = some f → ∀ op ∈ f.ops, codeLine op.address ≠ line
  /-- Neither the entry nor an instruction of the trace in progress is there. -/
  trace : ∀ r, x.recorder = some r → ∀ a ∈ r.entry :: r.reversed.map (·.address), codeLine a ≠ line

variable {x : FragmentCache} {limit : Nat} {line address len : UInt64}

/-- What is forgotten is not in the way. -/
theorem Lacks.forget (h : x.Lacks line) (entry : UInt64) : (x.forget entry).Lacks line := by
  obtain ⟨hentries, -, hrecorder⟩ := x.forget_parts entry
  constructor
  · intro k s hk
    rw [hentries, getElem?_erase_eq_some_iff] at hk
    exact h.entries k s hk.2
  · exact fun id f hf => h.code id f (get?_forget hf)
  · intro r hr
    rw [hrecorder] at hr
    exact h.trace r (Option.filter_eq_some_iff.mp hr).1

/-- **A covered line** is empty behind an invalidation. -/
theorem Consistent.lacks_invalidate (h : x.Consistent limit) (hcovers : CodeIndex.covers line address len = true) :
    (x.invalidate address len).2.Lacks line := by
  have hconsistent : (x.invalidate address len).2.Consistent limit :=
    forgetAll_preserves (P := (·.Consistent limit)) (fun _ entry hx => hx.forget entry) h _
  have hother {a : UInt64} (ha : CodeIndex.covers (codeLine a) address len = false) : codeLine a ≠ line := by
    rintro rfl
    cases ha.symm.trans hcovers
  have hcode : ∀ id f, (x.invalidate address len).2.store.get? id = some f → ∀ op ∈ f.ops,
      codeLine op.address ≠ line :=
    fun id f hf op hop => hother ((h.get?_invalidate_iff.mp hf).2 op hop)
  have htrace : ∀ r, (x.invalidate address len).2.recorder = some r →
      ∀ a ∈ r.entry :: r.reversed.map (·.address), codeLine a ≠ line :=
    fun r hr a ha => hother ((h.recorder_invalidate_iff.mp hr).2 a ha)
  refine ⟨?_, hcode, htrace⟩
  -- what the cache has for an address begins there
  intro k s hk
  cases s with
  | recording =>
    obtain ⟨r, hr, rfl⟩ := (hconsistent.recording k).mp hk
    exact htrace r hr _ List.mem_cons_self
  | compiled id =>
    obtain ⟨f, hf, hformed, -⟩ := hconsistent.compiled k id hk
    obtain ⟨op, rest, hops, rfl⟩ := hformed.first
    exact hcode id f hf op (by rw [hops]; exact List.mem_cons_self)

/-- A range without a line drops nothing. -/
theorem invalidate_of_not_covers (x : FragmentCache) (h : ∀ line, CodeIndex.covers line address len = false) :
    x.invalidate address len = (0, x) := by
  have hnone : (x.overwritten address len).toList = [] := by
    refine List.eq_nil_iff_forall_not_mem.mpr fun k hk => ?_
    rcases mem_overwritten.mp hk with hk | hk
    · obtain ⟨line, hline, -⟩ := CodeIndex.mem_overlapping.mp hk
      cases (h line).symm.trans hline
    · obtain ⟨r, -, -, a, -, ha⟩ := recorderTouches_eq_some_iff.mp hk
      cases (h (codeLine a)).symm.trans ha
  rw [invalidate_eq, hnone]
  rfl

/-- **An operation on the topmost line** drops nothing, but at its start. -/
theorem invalidate_of_top (x : FragmentCache) {a : UInt64} (h : topLine < a) :
    x.invalidate (lineNote a).1 (lineNote a).2 = (0, x) := x.invalidate_of_not_covers (covers_of_top h)

end FragmentCache

namespace Machine

variable {limit : Nat} {line : UInt64}

/-- Ranges that wait are looked at one after the other. -/
theorem lacks_foldl {range : UInt64 × UInt64} (hcovers : CodeIndex.covers line range.1 range.2 = true)
    (ranges : List (UInt64 × UInt64)) :
    ∀ {k : Machine}, k.cache.Consistent limit → range ∈ ranges →
      (ranges.foldl (fun m r => m.invalidateCode r.1 r.2) k).cache.Lacks line := by
  induction ranges with
  | nil => intro k _ hmem; cases hmem
  | cons r rest ih =>
    intro k h hmem
    rw [List.foldl_cons]
    rcases List.mem_cons.mp hmem with rfl | hmem
    · obtain ⟨n, cache, heq, hcache⟩ := foldl_invalidateCode_eq (P := (·.Lacks line))
        (fun _ entry hx => hx.forget entry) rest (k := k.invalidateCode range.1 range.2) (h.lacks_invalidate hcovers)
      rw [heq]
      exact hcache
    · exact ih (consistent_invalidateCode h r.1 r.2) hmem

/-- **The machine looks at the note.** -/
theorem lacks_drain {m : Machine} (h : m.cache.Consistent limit) {range : UInt64 × UInt64}
    (hmem : range ∈ m.cpu.codeInvalidations) (hcovers : CodeIndex.covers line range.1 range.2 = true) :
    m.drain.cache.Lacks line := by
  have hwaits : ¬ (m.cpu.codeInvalidations.isEmpty && !m.cpu.tlbDirty) = true := by
    rw [List.isEmpty_eq_false_iff_exists_mem.mpr ⟨range, hmem⟩]
    exact Bool.false_ne_true
  have hlooked := lacks_foldl hcovers m.cpu.codeInvalidations
    (k := m.onCpu fun c => { c with codeInvalidations := [], tlbDirty := false }) h hmem
  unfold drain
  dsimp only
  rw [if_neg hwaits]
  split
  · exact FragmentCache.forgetAll_preserves (P := (·.Lacks line)) (fun _ entry hx => hx.forget entry) hlooked _
  · exact hlooked

end Machine

/-! ## Behind an operation on a cache line -/

/-- The address of an operation on a line of the instruction cache, if the instruction is one. -/
def Execution.cacheOperation? (e : Execution) : Option UInt64 :=
  match Instruction.decode e.word with
  | .cache selector base offset => if selector.val % 4 = 0 then some (e.before.regs.get base + offset) else none
  | _ => none

/-- A word that is not fetched counts as a shift. -/
theorem Execution.cacheOperation?_of_zero {e : Execution} (h : e.word = 0) : e.cacheOperation? = none := by
  have hshift : Instruction.decode 0 = .shift .sll 0 0 (.constant 0) := by decide
  unfold cacheOperation?
  rw [h, hshift]

/-- It is carried out as a note, whether it is looked up in the slot of its opcode or in a fragment. -/
theorem Cpu.plan_cacheOperation {e : Execution} {v : UInt64} (hv : e.cacheOperation? = some v) :
    e.before.plan (.decode e.word) = .ok { effect := .invalidateCode v } ∧
      e.before.planGuarded (.decode e.word) = .ok { effect := .invalidateCode v } := by
  unfold Execution.cacheOperation? at hv
  split at hv
  · rename_i selector base offset hdecode
    rw [hdecode]
    split at hv
    · rename_i hselector
      obtain rfl := Option.some.inj hv
      exact ⟨if_pos hselector, if_pos hselector⟩
    · cases hv
  · cases hv

/-- An interpreted instruction is fetched, or is an exception in its place. -/
theorem Cpu.nextExecution_cases (c : Cpu) :
    (∃ b word, c.nextExecution = ⟨b, word, b.planGuarded (.decode word)⟩) ∨
      ∃ b t, c.nextExecution = ⟨b, 0, .error (.trap t)⟩ := by
  unfold Cpu.nextExecution
  rcases c.fetch c.pc with ⟨r, b⟩
  cases r with
  | ok word => exact .inl ⟨b, word, rfl⟩
  | error t => exact .inr ⟨b, t, rfl⟩

/-- **An instruction of a turn** that is an operation on a cache line leaves its note. -/
theorem Machine.Turn.planned_cacheOperation {m : Machine} {resumeAt : Option UInt64} {es : List Execution}
    {out : Option (Except FatalError Exit) × Machine} (ht : Turn m resumeAt es out) {e : Execution} (he : e ∈ es)
    {v : UInt64} (hv : e.cacheOperation? = some v) : e.planned = .ok { effect := .invalidateCode v } := by
  obtain ⟨hplan, hguarded⟩ := Cpu.plan_cacheOperation hv
  have hinterpreted {c : Cpu} (hc : e = c.nextExecution) : e.planned = .ok { effect := .invalidateCode v } := by
    rcases c.nextExecution_cases with ⟨b, word, hnext⟩ | ⟨b, t, hnext⟩
    · rw [hc, hnext] at hguarded ⊢
      exact hguarded
    · have hnone : e.cacheOperation? = none := Execution.cacheOperation?_of_zero (by rw [hc, hnext])
      cases hnone.symm.trans hv
  have hfragment {f : Fragment} {t : Tandem} (hmem : e ∈ Fragment.executions f.usesFloat f.ops t) :
      e.planned = .ok { effect := .invalidateCode v } := by
    obtain ⟨op, -, c, -, rfl⟩ := Fragment.mem_executions hmem
    show c.plan op.instruction = _
    rw [op.instruction_eq]
    exact hplan
  cases ht with
  | stop _ => cases he
  | breakpoint _ _ => cases he
  | fatal _ _ _ _ => exact hinterpreted (List.mem_singleton.mp he)
  | interpret _ _ _ _ => exact hinterpreted (List.mem_singleton.mp he)
  | fragmentFatal _ _ _ _ _ => exact hfragment he
  | fragment _ _ _ _ _ => exact hfragment he

/-- **An operation on a cache line drops the line**, whatever was done to the machine before, and after any number of
turns of a run. The run goes on behind it; and for an address up to the start of the topmost line, nothing is left
then in the line of the address, or in that line as the other window shows it. -/
theorem cache_operation_drops_line (config : Configuration) (bus : Bus) (vector : VectorUnit)
    (operations : List Operation) (horderly : ∀ o ∈ operations, o.Orderly) (budget : UInt64) (h0 : budget ≠ 0)
    (turns : Nat) (resumeAt : Option UInt64) :
    let k := (Machine.create config bus vector).operate operations
    let m := (Machine.loop turns k.resumeAt (k.prepare budget)).2
    ∀ v ∈ (m.turnExecutions resumeAt).filterMap Execution.cacheOperation?,
      (m.turn resumeAt).1 = none ∧
        (v ≤ topLine →
          (m.turn resumeAt).2.cache.Lacks (codeLine v) ∧
            ∀ view, Address.unmappedAlias? v = some view → (m.turn resumeAt).2.cache.Lacks (codeLine view)) := by
  intro k m v hmem
  obtain ⟨e, he, hv⟩ := List.mem_filterMap.mp hmem
  have hcreate := Machine.atRest_create config bus vector
  have hk : k.cpu.Free := Machine.free_operate operations ⟨hcreate.ticking.timed, hcreate.free⟩ horderly
  have hprepared := Machine.timed_prepare h0 hk.timed hk.unbounded
  obtain ⟨c, hchain, hends⟩ := Machine.loop_chain turns k.resumeAt (k.prepare budget) hprepared
  have hT : m.cpu.Timed := hends.timed (hchain.timed hprepared)
  have hconsistent : k.cache.Consistent (max 1 config.recompiler.maxFragmentOps.toNat) :=
    Machine.consistent_operate operations (FragmentCache.Consistent.create config.recompiler)
  have hturn := Machine.turn_spec m resumeAt
  -- the note is among those that the turn drains
  have hplanned := hturn.planned_cacheOperation he hv
  have hnote : e.leavesNote = true := by
    unfold Execution.leavesNote
    rw [hplanned]
    rfl
  obtain ⟨hout, b, hb, hnotes, hcache⟩ := hturn.noted hT
    (Machine.consistent_loop (m := k.prepare budget) turns k.resumeAt hconsistent) he hnote
  have hwaits : lineNote v ∈ b.cpu.codeInvalidations := by
    rw [(Prod.mk.inj (hnotes.trans (Execution.notes_after hplanned))).1, codeInvalidations_apply]
    exact List.mem_append_right _ List.mem_cons_self
  refine ⟨hout, fun htop => ?_⟩
  rw [hb]
  exact ⟨Machine.lacks_drain hcache hwaits (covers_lineNote htop),
    fun view hview => Machine.lacks_drain hcache hwaits (covers_lineNote_alias hview)⟩

/-! ## A loop in a device -/

/-- A device that holds a loop of three instructions. -/
def loopRom : Device := .memory "rom" 0xFE0 12 ⟨#[0x24, 0x21, 0, 1, 0x10, 0, 0xFF, 0xFE, 0x24, 0x42, 0, 1]⟩

/-- A machine with little main memory and this device, in which each landing starts a recording. -/
def looped : Machine :=
  Machine.create { memory := { ramSize := 32 }, recompiler := { hotThreshold := 0 } } (({} : Bus).add loopRom) {}

/-- A page pair maps the topmost page to the bytes of the loop. It is run from an address on until it is a
fragment. Then the processor is taken to an operation on the cache line of an address. -/
def flushing (entry address : UInt64) : List Operation :=
  [.changeProcessor fun c => { c with pc := entry, tlb := c.tlb.set 0 (.ofRegisters 0 0xC00000FFFFFFE000 3 3) },
    .loadProgram 0 [0xBCE00000],
    .run 12,
    .changeProcessor fun c => { c with pc := 0xFFFFFFFF80000000, regs := c.regs.set 7 address }]

theorem orderly_flushing (entry address : UInt64) : ∀ o ∈ flushing entry address, o.Orderly := by
  intro o ho
  simp only [flushing, List.mem_cons, List.not_mem_nil, or_false] at ho
  rcases ho with rfl | rfl | rfl | rfl
  · exact fun c h => Machine.free_of_events h rfl
  · trivial
  · trivial
  · exact fun c h => Machine.free_of_events h rfl

/-- In `kseg0` the loop is dropped, also if its line is named by the other window. -/
theorem cache_operation_drops_line_window :
    let k := looped.operate (flushing 0xFFFFFFFF80000FE0 0xFFFFFFFFA0000FE4)
    let m := (Machine.loop 0 k.resumeAt (k.prepare 1)).2
    (m.compiledWords 0xFFFFFFFF80000FE0).map Prod.fst =
        [0xFFFFFFFF80000FE0, 0xFFFFFFFF80000FE4, 0xFFFFFFFF80000FE8] ∧
      (m.turn none).1 = none ∧ (m.turn none).2.cache.Lacks (codeLine 0xFFFFFFFF80000FE4) := by
  intro k m
  have h := cache_operation_drops_line
    { memory := { ramSize := 32 }, recompiler := { hotThreshold := 0 } } (({} : Bus).add loopRom) {}
    (flushing 0xFFFFFFFF80000FE0 0xFFFFFFFFA0000FE4) (orderly_flushing _ _) 1 (by decide) 0 none
    0xFFFFFFFFA0000FE4 (by decide +kernel)
  exact ⟨by decide +kernel, h.1, (h.2 (by decide)).2 0xFFFFFFFF80000FE4 (by decide)⟩

/-- **A loop that stays.** In the topmost line it is named by an address in it, and stays. -/
theorem topmost_line_stays :
    let k := looped.operate (flushing topLine (topLine + 4))
    let m := (Machine.loop 0 k.resumeAt (k.prepare 1)).2
    (m.turnExecutions none).filterMap Execution.cacheOperation? = [topLine + 4] ∧
      ((m.turn none).2.compiledWords topLine).map Prod.fst = [topLine, topLine + 4, topLine + 8] ∧
      codeLine (topLine + 4) = codeLine topLine := by
  decide +kernel

end Vr4300
