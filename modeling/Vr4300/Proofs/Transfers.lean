import Vr4300.Cpu.Step

/-!
# `Proofs.Transfers` — what a word says about where execution goes on

A few words direct execution: the return from an exception, the jumps, and the branches. Which words these are, under
which condition they do so, where they lead and what they write besides is said here of the word itself, by its
fields and with numbers. The decoder and the plans agree with it, and every other instruction that completes goes on
at its natural successor.

## Contents

* `Transfer`, `Transfer.ofWord`, `Encoding.linkRegister?`, `transfer_of_link`;
* `Encoding.relativeTarget`, `Encoding.regionTarget`: the targets as numbers (`branchTarget_eq`, `jumpTarget_eq`);
* `Instruction.Directs`, `directs_decode`: how the transfers decode;
* `Cpu.plan_rule`: what holds of every effect and every fault holds of the instructions that are no transfers;
* `Cpu.Level`, `level_plan`: plans that go on at the natural successor;
* `Cpu.transferPlan`, `plan_transfer`: a transfer does what its word says;
* `Cpu.following`, `follow_plan`, `regs_plan`: where a plan leads, and what a transfer writes.
-/

namespace Vr4300

/-! ## Words -/

/-- How an instruction directs execution. -/
inductive Transfer where
  /-- It does not. -/
  | none
  /-- Out of a handler. -/
  | leave
  /-- To a place in the region of the delay slot. -/
  | region
  /-- To the address in a register. -/
  | register (rs : Reg)
  /-- To a place at a distance from the delay slot, if a condition holds. If it does not, a likely branch skips the
  delay slot. -/
  | relative (test : BranchTest) (likely : Bool)
deriving DecidableEq, Repr

open Encoding in
/-- How a word directs execution. -/
def Transfer.ofWord (w : UInt32) : Transfer :=
  match (opcode w).toNat with
  | 0x00 => if (funct w).toNat = 0x08 ∨ (funct w).toNat = 0x09 then .register (rs w) else .none
  | 0x01 =>
    match (rt w).val with
    | 0x00 | 0x10 => .relative (.negative (rs w)) false
    | 0x01 | 0x11 => .relative (.notNegative (rs w)) false
    | 0x02 | 0x12 => .relative (.negative (rs w)) true
    | 0x03 | 0x13 => .relative (.notNegative (rs w)) true
    | _ => .none
  | 0x02 | 0x03 => .region
  | 0x04 => .relative (.equal (rs w) (rt w)) false
  | 0x05 => .relative (.notEqual (rs w) (rt w)) false
  | 0x06 => .relative (.notPositive (rs w)) false
  | 0x07 => .relative (.positive (rs w)) false
  | 0x10 => if 0x10 ≤ (rs w).val ∧ (funct w).toNat = 0x18 then .leave else .none
  | 0x11 =>
    if (rs w).val = 0x08 then
      .relative (.floatCondition ((rt w).val.testBit 0)) ((rt w).val.testBit 1)
    else .none
  | 0x14 => .relative (.equal (rs w) (rt w)) true
  | 0x15 => .relative (.notEqual (rs w) (rt w)) true
  | 0x16 => .relative (.notPositive (rs w)) true
  | 0x17 => .relative (.positive (rs w)) true
  | _ => .none

namespace Encoding

/-- The register that a transfer writes its return address to. -/
def linkRegister? (w : UInt32) : Option Reg :=
  match (opcode w).toNat with
  | 0x00 => if (funct w).toNat = 0x09 then some (rd w) else none
  | 0x01 => if 0x10 ≤ (rt w).val ∧ (rt w).val ≤ 0x13 then some 31 else none
  | 0x03 => some 31
  | _ => none

/-- Only transfers link. -/
theorem transfer_of_link {w : UInt32} {rd : Reg} (h : linkRegister? w = some rd) : Transfer.ofWord w ≠ .none := by
  unfold linkRegister? at h
  unfold Transfer.ofWord
  split at h
  · rename_i hop
    split at h
    · rename_i hf
      rw [hop, if_pos (.inr hf)]
      simp
    · cases h
  · rename_i hop
    split at h
    · rename_i hrt
      obtain hrt | hrt | hrt | hrt :
          (rt w).val = 0x10 ∨ (rt w).val = 0x11 ∨ (rt w).val = 0x12 ∨ (rt w).val = 0x13 := by
        omega
      all_goals
        rw [hop, hrt]
        simp
    · cases h
  · rename_i hop
    rw [hop]
    simp
  · cases h

/-! ## Targets -/

/-- The distance of a branch from its delay slot, in instructions: the low half of the word, with its sign. -/
def displacement (w : UInt32) : Int := (w.toNat : Int).bmod 65536

/-- The place that a branch at `pc` leads to. -/
def relativeTarget (pc : UInt64) (w : UInt32) : UInt64 :=
  UInt64.ofInt (pc.toNat + 4 + 4 * displacement w)

/-- The place that a jump at `pc` leads to: an instruction in the 256 MiB around its delay slot. -/
def regionTarget (pc : UInt64) (w : UInt32) : UInt64 :=
  UInt64.ofNat ((pc + 4).toNat / 0x10000000 * 0x10000000 + 4 * (w.toNat % 0x4000000))

theorem ofInt_toNat (x : UInt64) : UInt64.ofInt x.toNat = x := by
  have h := x.toNat_lt
  have hrange : Int.toNat ((x.toNat : Int) % 2 ^ 64) = x.toNat := by omega
  exact (congrArg UInt64.ofNat hrange).trans UInt64.ofNat_toNat

theorem toBitVec_ofInt (i : Int) : (UInt64.ofInt i).toBitVec = BitVec.ofInt 64 i := by
  apply BitVec.eq_of_toNat_eq
  rw [BitVec.toNat_ofInt]
  show (UInt64.ofNat (i % 2 ^ 64).toNat).toNat = _
  rw [UInt64.toNat_ofNat']
  omega

theorem shiftLeft_two (x : UInt64) : x <<< 2 = 4 * x := by
  apply UInt64.toNat_inj.mp
  rw [UInt64.toNat_shiftLeft, UInt64.toNat_mul, Nat.shiftLeft_eq]
  show x.toNat * 4 % 2 ^ 64 = 4 * x.toNat % 2 ^ 64
  rw [Nat.mul_comm]

theorem signedImmediate_eq (w : UInt32) : signedImmediate w = UInt64.ofInt (displacement w) := by
  have hbits : (signedImmediate w).toBitVec = (w.toBitVec.setWidth 16).signExtend 64 := rfl
  have hlow : (w.toBitVec.setWidth 16).toInt = displacement w := BitVec.toInt_setWidth _
  apply UInt64.toBitVec_inj.mp
  rw [hbits, BitVec.signExtend, hlow, toBitVec_ofInt]

/-- **A branch** leads to the instruction at its displacement from the delay slot. -/
theorem branchTarget_eq (pc : UInt64) (w : UInt32) :
    branchTarget pc (branchOffset w) = relativeTarget pc w := by
  unfold relativeTarget
  rw [UInt64.ofInt_add, UInt64.ofInt_add, UInt64.ofInt_mul, ofInt_toNat, ← signedImmediate_eq]
  unfold branchTarget branchOffset
  rw [shiftLeft_two]
  rfl

theorem toNat_regionBase (a : UInt64) :
    (a &&& ~~~(0x0FFFFFFF : UInt64)).toNat = (a.toNat / 0x10000000) <<< 28 := by
  have hshift : a &&& ~~~(0x0FFFFFFF : UInt64) = a >>> 28 <<< 28 := by
    apply UInt64.toBitVec_inj.mp
    show a.toBitVec &&& ~~~(0x0FFFFFFF#64) = a.toBitVec >>> 28 <<< 28
    rw [BitVec.shiftLeft_ushiftRight]
    rfl
  have hbound := a.toNat_lt
  rw [hshift, UInt64.toNat_shiftLeft, UInt64.toNat_shiftRight, show (28 : UInt64).toNat % 64 = 28 from rfl,
    Nat.shiftRight_eq_div_pow, Nat.mod_eq_of_lt]
  rw [Nat.shiftLeft_eq]
  omega

/-- **A jump** leads to the instruction with its number in the region of the delay slot. -/
theorem jumpTarget_eq (pc : UInt64) (w : UInt32) : jumpTarget pc (regionOffset w) = regionTarget pc w := by
  have hfield : (Encoding.target w).toNat = w.toNat % 0x4000000 := by
    unfold Encoding.target
    rw [UInt32.toNat_and]
    exact Nat.and_two_pow_sub_one_eq_mod _ 26
  have hoffset : (regionOffset w).toNat = 4 * (w.toNat % 0x4000000) := by
    unfold regionOffset
    rw [shiftLeft_two, UInt64.toNat_mul, UInt32.toNat_toUInt64, hfield]
    show 4 * _ % 2 ^ 64 = _
    omega
  have hbound := (pc + 4).toNat_lt
  apply UInt64.toNat_inj.mp
  unfold jumpTarget regionTarget
  -- the offset has bits below the region only
  rw [UInt64.toNat_or, toNat_regionBase, hoffset, ← Nat.shiftLeft_add_eq_or_of_lt (by omega),
    UInt64.toNat_ofNat', Nat.shiftLeft_eq]
  omega

end Encoding

/-! ## Decoding -/

namespace Instruction

open Encoding

/-- The instruction directs execution. -/
def transfers : Instruction → Bool
  | .jump _ _ | .jumpRegister _ _ | .branch _ _ _ _ => true
  | .system op => op == .eret
  | _ => false

/-- A register, if there is a return address to write. -/
def linkOf (link : Bool) : Option Reg := if link then some linkRegister else none

/-- The instruction directs execution as the word says. -/
def Directs (i : Instruction) (w : UInt32) : Prop :=
  match Transfer.ofWord w with
  | .none => i.transfers = false
  | .leave => i = .system .eret ∧ linkRegister? w = none
  | .region => ∃ link, i = .jump link (regionOffset w) ∧ linkRegister? w = linkOf link
  | .register rs => i = .jumpRegister rs (linkRegister? w)
  | .relative test likely =>
    ∃ link, i = .branch test likely link (branchOffset w) ∧ linkRegister? w = linkOf link

theorem directs_of_none {i : Instruction} {w : UInt32} (hw : Transfer.ofWord w = .none) (hi : i.transfers = false) :
    i.Directs w := by
  unfold Directs
  rw [hw]
  exact hi

theorem transfers_decodeSpecial {w : UInt32} (h : ¬ ((funct w).toNat = 0x08 ∨ (funct w).toNat = 0x09)) :
    (decodeSpecial w).transfers = false := by
  unfold decodeSpecial
  dsimp only
  split <;> first | rfl | exact absurd (.inl ‹_›) h | exact absurd (.inr ‹_›) h

theorem directs_decodeSpecial {w : UInt32} (h : (opcode w).toNat = 0x00) : (decodeSpecial w).Directs w := by
  unfold Directs Transfer.ofWord linkRegister?
  rw [h]
  by_cases hf : (funct w).toNat = 0x08 ∨ (funct w).toNat = 0x09
  · unfold decodeSpecial
    rcases hf with hf | hf <;> rw [hf] <;> rfl
  · simp only [if_neg hf]
    exact transfers_decodeSpecial hf

theorem directs_decodeRegisterImmediate {w : UInt32} (h : (opcode w).toNat = 0x01) :
    (decodeRegisterImmediate w).Directs w := by
  unfold decodeRegisterImmediate
  dsimp only
  split
  -- a selector without an instruction
  case h_15 =>
    have hword : Transfer.ofWord w = .none := by
      unfold Transfer.ofWord
      simp only [h]
    exact directs_of_none hword rfl
  all_goals
    rename_i ht
    unfold Directs Transfer.ofWord linkRegister?
    rw [h, ht]
    first | rfl | exact Exists.intro _ ⟨rfl, rfl⟩

theorem transfers_decodeSystem {w : UInt32} (h : ¬ (0x10 ≤ (rs w).val ∧ (funct w).toNat = 0x18)) :
    (decodeSystem w).transfers = false := by
  unfold decodeSystem
  split
  -- the selectors that leave the choice to the function field
  case h_5 =>
    split
    · rfl
    · split <;> first | rfl | exact absurd ⟨Nat.not_lt.mp ‹_›, ‹_›⟩ h
  all_goals rfl

theorem directs_decodeSystem {w : UInt32} (h : (opcode w).toNat = 0x10) : (decodeSystem w).Directs w := by
  unfold Directs Transfer.ofWord linkRegister?
  rw [h]
  by_cases hf : 0x10 ≤ (rs w).val ∧ (funct w).toNat = 0x18
  · simp only [if_pos hf]
    unfold decodeSystem
    split
    case h_5 =>
      rw [if_neg (Nat.not_lt.mpr hf.1), hf.2]
      exact ⟨rfl, trivial⟩
    all_goals
      rename_i hs
      exact absurd hf.1 (by omega)
  · simp only [if_neg hf]
    exact transfers_decodeSystem hf

theorem directs_decodeFloat {w : UInt32} (h : (opcode w).toNat = 0x11) : (decodeFloat w).Directs w := by
  unfold decodeFloat
  split <;> simp_all [Directs, Transfer.ofWord, linkRegister?, transfers, linkOf]

theorem directs_decodeLatch {w : UInt32} (h : (opcode w).toNat = 0x12) : (decodeLatch w).Directs w := by
  unfold Directs Transfer.ofWord
  rw [h]
  unfold decodeLatch
  show transfers _ = false
  split <;> rfl

/-- **A word decodes** to an instruction that directs execution as the word says. -/
theorem directs_decode (w : UInt32) : (decode w).Directs w := by
  unfold decode
  dsimp only
  split
  -- the groups with a table of their own
  case h_1 h => exact directs_decodeSpecial h
  case h_2 h => exact directs_decodeRegisterImmediate h
  case h_17 h => exact directs_decodeSystem h
  case h_18 h => exact directs_decodeFloat h
  case h_19 h => exact directs_decodeLatch h
  -- an opcode without an instruction
  case h_58 =>
    have hword : Transfer.ofWord w = .none := by
      unfold Transfer.ofWord
      split <;> first | rfl | contradiction
    exact directs_of_none hword rfl
  all_goals
    rename_i h
    unfold Directs Transfer.ofWord linkRegister?
    rw [h]
    first | rfl | exact Exists.intro _ ⟨rfl, rfl⟩

end Instruction

namespace Cpu

/-! ## Plans that go on -/

/-- An access that is refused names its address. -/
theorem badAddress_resolve {c : Cpu} {w : Width} {access : Access} {address : UInt64} {t : Trap}
    (h : c.resolve w access address = .error t) : t.badAddress? = some address := by
  have htlb {t : Trap} (h : c.tlb.physical address access c.asid = .error t) : t.badAddress? = some address := by
    unfold Tlb.physical Tlb.translate at h
    dsimp only at h
    repeat' split at h
    all_goals
      cases h
      try rfl
  unfold resolve at h
  dsimp only at h
  split at h
  · cases h
    split <;> rfl
  · split at h
    · cases h
    · cases hphysical : c.tlb.physical address access c.asid with
      | ok p => rw [hphysical] at h; cases h
      | error x =>
        rw [hphysical] at h
        obtain rfl := Except.error.inj h
        exact htlb hphysical

section Rule

/-- The exception of an instruction that finds the floating-point unit not usable. -/
def floatUnusable : Fault := .trap (.coprocessorUnusable 1)

variable {P : Except Fault Plan → Prop} (heffect : ∀ e, P (.ok { effect := e }))
  (hfault : ∀ f, f ≠ floatUnusable → P (.error f))
include heffect hfault

theorem rule_checked (rd : Reg) (result : Option UInt64) : P (writesChecked rd result) := by
  cases result with
  | none => exact hfault _ (by decide)
  | some v => exact heffect _

theorem rule_located {c : Cpu} {w : Width} {access : Access} {address : UInt64} {f : Location → Effect} :
    P (c.locate w access address >>= fun l => pure { effect := f l }) := by
  unfold locate
  cases h : c.resolve w access address with
  | error t =>
    refine hfault (.trap t) fun ht => ?_
    obtain rfl := Fault.trap.inj ht
    cases badAddress_resolve h
  | ok l => exact heffect (f l)

theorem rule_recorded (c : Cpu) (raised : FloatingPoint.ExceptionSet) (effect : FloatingPoint.Fcr31 → Effect) :
    P (c.recorded raised effect) := by
  unfold recorded
  split
  · exact heffect _
  · exact hfault _ (by simp [floatUnusable])

theorem rule_float (c : Cpu) (op : FloatOp) : P (c.planFloat op) := by
  cases op with
  | ctc1 rt fs =>
    show P (planFloatControl fs (c.regs.get rt))
    unfold planFloatControl
    split
    · dsimp only
      split
      · exact hfault _ (by simp [floatUnusable])
      · exact heffect _
    · exact heffect _
  | mfc1 rt fs => exact heffect _
  | dmfc1 rt fs => exact heffect _
  | cfc1 rt fs => exact heffect _
  | mtc1 rt fs => exact heffect _
  | dmtc1 rt fs => exact heffect _
  | mov p fd fs => exact heffect _
  | _ => exact rule_recorded heffect hfault _ _ _

/-- **An instruction that is no transfer** has one effect, or a fault of its own. -/
theorem plan_rule (c : Cpu) {i : Instruction} (h : i.transfers = false) : P (c.plan i) := by
  cases i with
  | jump link offset => cases h
  | jumpRegister rs link => cases h
  | branch test likely link offset => cases h
  | immediate op rt rs value =>
    cases op <;> first | exact heffect _ | exact rule_checked heffect hfault _ _
  | register op rd rs rt =>
    cases op <;> first | exact heffect _ | exact rule_checked heffect hfault _ _
  | readHiLo half rd => cases half <;> exact heffect _
  | writeHiLo half rs => cases half <;> exact heffect _
  | trapIf test rs operand =>
    unfold plan
    dsimp only
    split
    · exact hfault _ (by decide)
    · exact heffect _
  | cache selector base offset =>
    unfold plan
    dsimp only
    split <;> exact heffect _
  | load op rt base offset => cases op <;> exact rule_located heffect hfault
  | store op rt base offset => cases op <;> exact rule_located heffect hfault
  | float op => exact rule_float heffect hfault c op
  | system op =>
    cases op with
    | eret => cases h
    | _ => exact heffect _
  | latch op =>
    show P (c.planLatch op)
    unfold planLatch
    split
    · cases op <;> exact heffect _
    · exact hfault _ (by decide)
  | shift op rd rt amount => exact heffect _
  | multiply op rs rt => exact heffect _
  | sync => exact heffect _
  | syscall => exact hfault _ (by decide)
  | breakpoint => exact hfault _ (by decide)
  | reserved word => exact hfault _ (by simp [floatUnusable])
  | unimplemented word => exact hfault _ (by simp [floatUnusable])

end Rule

/-- What is planned goes on at the natural successor. -/
def Level (planned : Except Fault Plan) : Prop := ∀ p, planned = .ok p → p.flow = .sequential

/-- **An instruction that is no transfer** goes on at the natural successor. -/
theorem level_plan (c : Cpu) {i : Instruction} (h : i.transfers = false) : Level (c.plan i) := by
  refine c.plan_rule (P := Level) (fun e p hp => ?_) (fun f _ p hp => ?_) h
  · obtain rfl := Except.ok.inj hp
    rfl
  · cases hp

/-- **No instruction** blames the floating-point unit by itself. -/
theorem plan_ne_floatUnusable (c : Cpu) (i : Instruction) : c.plan i ≠ .error floatUnusable := by
  cases h : i.transfers with
  | false =>
    refine c.plan_rule (P := (· ≠ .error floatUnusable)) (fun e he => ?_) (fun f hf hp => ?_) h
    · cases he
    · exact hf (Except.error.inj hp)
  | true =>
    intro hp
    cases i with
    | _ => first | cases hp | cases h

/-! ## Transfers -/

/-- The condition of a branch holds. -/
def Taken (c : Cpu) : BranchTest → Prop
  | .equal rs rt => c.regs.get rs = c.regs.get rt
  | .notEqual rs rt => c.regs.get rs ≠ c.regs.get rt
  | .notPositive rs => (c.regs.get rs).toInt64.toInt ≤ 0
  | .positive rs => 0 < (c.regs.get rs).toInt64.toInt
  | .negative rs => (c.regs.get rs).toInt64.toInt < 0
  | .notNegative rs => 0 ≤ (c.regs.get rs).toInt64.toInt
  | .floatCondition value => c.fcr31.condition = value

theorem testHolds_iff (c : Cpu) (test : BranchTest) : c.testHolds test = true ↔ c.Taken test := by
  cases test <;> simp [testHolds, Taken, Int64.le_iff_toInt_le, Int64.lt_iff_toInt_lt]

instance (c : Cpu) (test : BranchTest) : Decidable (c.Taken test) :=
  decidable_of_iff _ (c.testHolds_iff test)

/-- **Where execution goes on** behind a word that completes: the address of the next instruction, and where
execution goes on behind that one if it is in a delay slot. -/
def following (c : Cpu) (w : UInt32) : UInt64 × Option UInt64 :=
  let base := c.delaySlot.getD (c.pc + 4)
  match Transfer.ofWord w with
  | .none => (base, none)
  | .leave =>
    (if c.cp0.hasStatus Control.statusERL then c.cp0.get Control.errorEpc else c.cp0.get Control.epc, none)
  | .region => (base, some (Encoding.regionTarget c.pc w))
  | .register rs => (base, some (c.regs.get rs))
  | .relative test likely =>
    if c.Taken test then (base, some (Encoding.relativeTarget c.pc w))
    else (if likely then base + 4 else base, none)

/-- What a transfer does. -/
def transferPlan (c : Cpu) (w : UInt32) : Transfer → Plan
  | .none => {}
  | .leave => { effect := .leaveException, flow := .resume c.returnAddress }
  | .region =>
    { effect := c.linkEffect (Encoding.linkRegister? w), flow := .branch (Encoding.regionTarget c.pc w) }
  | .register rs =>
    { effect := c.linkEffect (Encoding.linkRegister? w), flow := .branch (c.regs.get rs) }
  | .relative test likely =>
    { effect := c.linkEffect (Encoding.linkRegister? w)
      flow :=
        if c.Taken test then .branch (Encoding.relativeTarget c.pc w)
        else if likely then .nullify
        else .sequential }

theorem planBranch_eq (c : Cpu) {w : UInt32} (test : BranchTest) (likely : Bool) {link : Bool}
    (hlink : Encoding.linkRegister? w = Instruction.linkOf link) :
    c.planBranch test likely link (Encoding.branchOffset w) = c.transferPlan w (.relative test likely) := by
  unfold planBranch transferPlan
  rw [Encoding.branchTarget_eq, hlink]
  simp only [testHolds_iff]
  rfl

/-- **A transfer** does what its word says, in every state. -/
theorem plan_transfer (c : Cpu) {w : UInt32} (h : Transfer.ofWord w ≠ .none) :
    c.plan (.decode w) = .ok (c.transferPlan w (Transfer.ofWord w)) := by
  have hdirects := Instruction.directs_decode w
  unfold Instruction.Directs at hdirects
  cases hw : Transfer.ofWord w with
  | none => exact absurd hw h
  | leave =>
    rw [hw] at hdirects
    rw [hdirects.1]
    rfl
  | region =>
    rw [hw] at hdirects
    obtain ⟨link, hi, hlink⟩ := hdirects
    rw [hi]
    dsimp only [transferPlan]
    rw [← Encoding.jumpTarget_eq, hlink]
    rfl
  | register rs =>
    rw [hw] at hdirects
    rw [show Instruction.decode w = _ from hdirects]
    rfl
  | relative test likely =>
    rw [hw] at hdirects
    obtain ⟨link, hi, hlink⟩ := hdirects
    rw [hi]
    exact congrArg Except.ok (c.planBranch_eq test likely hlink)

theorem level_decode (c : Cpu) {w : UInt32} (h : Transfer.ofWord w = .none) : Level (c.plan (.decode w)) := by
  have hdirects := Instruction.directs_decode w
  unfold Instruction.Directs at hdirects
  rw [h] at hdirects
  exact c.level_plan hdirects

variable {c : Cpu} {w : UInt32} {p : Plan}

/-- **A plan leads** where its word says, whatever was carried out before. -/
theorem follow_plan (h : c.plan (.decode w) = .ok p) (b : Cpu) :
    ((b.follow c.successor p.flow).pc, (b.follow c.successor p.flow).delaySlot) = c.following w := by
  by_cases ht : Transfer.ofWord w = .none
  · rw [c.level_decode ht p h]
    unfold following
    rw [ht]
    rfl
  · rw [plan_transfer c ht] at h
    obtain rfl := Except.ok.inj h
    unfold following transferPlan
    cases Transfer.ofWord w with
    | none => rfl
    | leave => rfl
    | region => rfl
    | register rs => rfl
    | relative test likely =>
      dsimp only
      by_cases htaken : c.Taken test
      · rw [if_pos htaken, if_pos htaken]
        rfl
      · rw [if_neg htaken, if_neg htaken]
        cases likely <;> rfl

/-- **What a transfer writes** to the general registers: at most the return address. -/
theorem regs_plan (h : c.plan (.decode w) = .ok p) (ht : Transfer.ofWord w ≠ .none) :
    (c.apply p.effect).regs =
      match Encoding.linkRegister? w with
      | none => c.regs
      | some rd => c.regs.set rd (c.pc + 8) := by
  have hlink (link : Option Reg) :
      (c.apply (c.linkEffect link)).regs =
        match link with
        | none => c.regs
        | some rd => c.regs.set rd (c.pc + 8) := by
    cases link <;> rfl
  rw [plan_transfer c ht] at h
  obtain rfl := Except.ok.inj h
  cases hw : Transfer.ofWord w with
  | none => exact absurd hw ht
  | leave =>
    have hdirects := Instruction.directs_decode w
    unfold Instruction.Directs at hdirects
    rw [hw] at hdirects
    rw [hdirects.2]
    rfl
  | region => exact hlink _
  | register rs => exact hlink _
  | relative test likely => exact hlink _

end Cpu

end Vr4300
