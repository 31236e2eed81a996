import Mathlib.Tactic.IntervalCases
import Vr4300.Proofs.DerivedState

/-!
# `Proofs.Recording` — what an instruction does to the floating-point control register

Some forty operations of the floating-point unit raise exceptions, and each records what it raised in the control
register before it writes a result. Which words do so is said here of the word itself, by its fields. Whatever the
operation, what it leaves in the register is settled by the register before and the set that it raised; every other
instruction but the write of the register leaves it alone.

## Contents

* `Fcr31.settings`, `Fcr31.Proper`, `Fcr31.Traps`; the fields behind each update, bit by bit;
* `Fcr31.Records`, `records_record`: what recording leaves;
* `FloatRole.ofWord`: what a word means for the register (`role_decode`);
* `Cpu.raised?`: the exceptions that an operation raises;
* `Cpu.leaves`: what is left in the register by what is planned (`leaves_of_bystander`, `records_plan`).
-/

namespace Vr4300

namespace FloatingPoint

/-! ## The fields -/

namespace Fcr31

/-- The bits of the rounding mode, of the enables and of the flushing of denormals. -/
def settingsMask : BitVec 32 := 0x01000F83

/-- What software chooses: the rounding mode, the enables and whether denormals are flushed. -/
def settings (r : Fcr31) : BitVec 32 := r.raw &&& settingsMask

/-- The bits that hold no field are clear. -/
def Proper (r : Fcr31) : Prop := r.raw &&& ~~~writable = 0

/-- One of the exceptions traps: the operation is unimplemented, or it is one of the other five, in the order of
their bits, whose enable is set. -/
def Traps (r : Fcr31) (raised : ExceptionSet) : Prop :=
  raised.bits.getLsbD 5 = true ∨ ∃ k < 5, raised.bits.getLsbD k = true ∧ r.raw.getLsbD (7 + k) = true

section

variable (r : Fcr31) (raised : ExceptionSet)

theorem getLsbD_setCause (i : Nat) :
    (r.setCause raised).raw.getLsbD i =
      if 12 ≤ i ∧ i < 18 then raised.bits.getLsbD (i - 12) else r.raw.getLsbD i := by
  by_cases hi : i < 32
  · unfold setCause causeMask
    interval_cases i <;> simp
  · rw [if_neg (by omega), BitVec.getLsbD_of_ge _ i (by omega), BitVec.getLsbD_of_ge _ i (by omega)]

theorem getLsbD_addFlags (i : Nat) :
    (r.addFlags raised).raw.getLsbD i =
      (r.raw.getLsbD i || (decide (2 ≤ i ∧ i < 7) && raised.bits.getLsbD (i - 2))) := by
  by_cases hi : i < 32
  · unfold addFlags
    interval_cases i <;> simp [ExceptionSet.ieee, Inter.inter]
  · have hfield : ¬ (2 ≤ i ∧ i < 7) := by omega
    rw [BitVec.getLsbD_of_ge _ i (by omega), BitVec.getLsbD_of_ge _ i (by omega), decide_eq_false hfield]
    rfl

theorem getLsbD_setCondition (value : Bool) (i : Nat) :
    (r.setCondition value).raw.getLsbD i = if i = 23 then value else r.raw.getLsbD i := by
  by_cases hi : i < 32
  · unfold setCondition conditionBit
    cases value <;> interval_cases i <;> simp
  · rw [if_neg (by omega), BitVec.getLsbD_of_ge _ i (by omega), BitVec.getLsbD_of_ge _ i (by omega)]

end

section

variable {r r' : Fcr31}

/-- Fields are read off the bits that hold them. -/
theorem settings_congr (h : ∀ i, settingsMask.getLsbD i = true → r'.raw.getLsbD i = r.raw.getLsbD i) :
    r'.settings = r.settings := by
  apply BitVec.eq_of_getLsbD_eq
  intro i _
  unfold settings
  rw [BitVec.getLsbD_and, BitVec.getLsbD_and]
  cases hm : settingsMask.getLsbD i with
  | true => rw [h i hm]
  | false => rw [Bool.and_false, Bool.and_false]

theorem proper_iff : r.Proper ↔ ∀ i < 32, writable.getLsbD i = false → r.raw.getLsbD i = false := by
  unfold Proper
  rw [BitVec.eq_of_getLsbD_eq_iff]
  refine forall₂_congr fun i hi => ?_
  simp only [BitVec.getLsbD_and, BitVec.getLsbD_not, hi, decide_true, Bool.true_and]
  cases r.raw.getLsbD i <;> cases writable.getLsbD i <;> simp

theorem getLsbD_flags (r : Fcr31) (k : Nat) :
    r.flags.bits.getLsbD k = (decide (k < 5) && r.raw.getLsbD (2 + k)) := by
  rw [flags, BitVec.getLsbD_setWidth, BitVec.getLsbD_extractLsb']
  by_cases hk : k < 5
  · rw [decide_eq_true hk, decide_eq_true (show k < 6 by omega), Bool.true_and, Bool.true_and]
  · rw [decide_eq_false hk, Bool.false_and, Bool.and_false]

theorem getLsbD_enables (r : Fcr31) {k : Nat} (hk : k < 6) :
    r.enables.bits.getLsbD k = (decide (k = 5) || r.raw.getLsbD (7 + k) && decide (k < 5)) := by
  show ((r.raw.extractLsb' 7 5).setWidth 6 ||| 32#6).getLsbD k = _
  interval_cases k <;> simp

/-- The exceptions that trap are those among the enables and the unimplemented operation. -/
theorem causeTraps_iff (r : Fcr31) : r.causeTraps = true ↔ r.Traps r.cause := by
  have hbits : r.causeTraps = true ↔ ∃ k < 6, (r.cause.bits &&& r.enables.bits).getLsbD k = true := by
    unfold causeTraps
    rw [bne_iff_ne, ne_eq, show (r.cause ∩ r.enables).bits = r.cause.bits &&& r.enables.bits from rfl,
      BitVec.eq_of_getLsbD_eq_iff]
    push Not
    simp
  rw [hbits]
  unfold Traps
  constructor
  · rintro ⟨k, hk, hboth⟩
    rw [BitVec.getLsbD_and, Bool.and_eq_true, getLsbD_enables r hk] at hboth
    obtain ⟨hcause, henabled⟩ := hboth
    rcases Nat.lt_or_ge k 5 with hlt | hge
    · refine .inr ⟨k, hlt, hcause, ?_⟩
      simpa [hlt, Nat.ne_of_lt hlt] using henabled
    · obtain rfl : k = 5 := by omega
      exact .inl hcause
  · rintro (hcause | ⟨k, hk, hcause, henabled⟩)
    · refine ⟨5, by omega, ?_⟩
      rw [BitVec.getLsbD_and, hcause, getLsbD_enables r (by omega)]
      rfl
    · refine ⟨k, by omega, ?_⟩
      rw [BitVec.getLsbD_and, hcause, getLsbD_enables r (by omega), henabled]
      simp [hk]

end

/-! ## Recording -/

/-- **What recording leaves**: the exceptions are the cause, and it is a trap or they are added to the flags. -/
structure Records (r : Fcr31) (raised : ExceptionSet) (trapped : Bool) (r' : Fcr31) : Prop where
  /-- The cause is what was raised. -/
  cause : r'.cause = raised
  /-- It traps if one of the exceptions does. -/
  traps : trapped = true ↔ r.Traps raised
  /-- The flags stay, or take up what was raised. -/
  flags : r'.flags = if trapped then r.flags else r.flags ∪ (raised ∩ .ieee)
  /-- What software chose stays. -/
  settings : r'.settings = r.settings

variable (r : Fcr31) (raised : ExceptionSet)

theorem record_fst : (r.record raised).1 = !(r.setCause raised).causeTraps := by
  unfold record
  dsimp only
  cases (r.setCause raised).causeTraps <;> rfl

/-- The bits behind a recording. -/
theorem getLsbD_record (i : Nat) :
    (r.record raised).2.raw.getLsbD i =
      if 12 ≤ i ∧ i < 18 then raised.bits.getLsbD (i - 12)
      else r.raw.getLsbD i || ((r.record raised).1 && decide (2 ≤ i ∧ i < 7) && raised.bits.getLsbD (i - 2)) := by
  unfold record
  dsimp only
  cases (r.setCause raised).causeTraps with
  | true =>
    rw [if_pos rfl, getLsbD_setCause]
    simp
  | false =>
    rw [if_neg Bool.false_ne_true, getLsbD_addFlags, getLsbD_setCause]
    split
    · rename_i hi
      rw [decide_eq_false (show ¬ (2 ≤ i ∧ i < 7) by omega), Bool.false_and, Bool.or_false]
    · rw [Bool.true_and]

/-- What an operation traps by is what it raised and what was enabled before. -/
theorem traps_congr {r r' : Fcr31} (h : r'.settings = r.settings) : r'.Traps raised ↔ r.Traps raised := by
  have hbit : ∀ k < 5, r'.raw.getLsbD (7 + k) = r.raw.getLsbD (7 + k) := by
    intro k hk
    have hsettings := congrArg (fun bits => bits.getLsbD (7 + k)) h
    have hmask : settingsMask.getLsbD (7 + k) = true := by interval_cases k <;> rfl
    simpa [settings, hmask] using hsettings
  unfold Traps
  refine or_congr_right (exists_congr fun k => and_congr_right fun hk => ?_)
  rw [hbit k hk]

/-- The bits of what software chose lie apart from the other fields. -/
theorem apart_of_settingsMask {i : Nat} (h : settingsMask.getLsbD i = true) :
    ¬ (12 ≤ i ∧ i < 18) ∧ ¬ (2 ≤ i ∧ i < 7) ∧ i ≠ 23 := by
  refine ⟨?_, ?_, ?_⟩
  · rintro ⟨hlow, hhigh⟩
    interval_cases i <;> cases h
  · rintro ⟨hlow, hhigh⟩
    interval_cases i <;> cases h
  · rintro rfl
    cases h

theorem settings_setCause : (r.setCause raised).settings = r.settings := by
  refine settings_congr fun i hi => ?_
  rw [getLsbD_setCause, if_neg (apart_of_settingsMask hi).1]

theorem cause_setCause : (r.setCause raised).cause = raised := by
  refine congrArg ExceptionSet.mk (BitVec.eq_of_getLsbD_eq fun k hk => ?_)
  rw [BitVec.getLsbD_extractLsb', getLsbD_setCause, if_pos (by omega), decide_eq_true hk, Bool.true_and,
    Nat.add_sub_cancel_left]

/-- **Recording** records. -/
theorem records_record : r.Records raised (!(r.record raised).1) (r.record raised).2 where
  cause := by
    refine congrArg ExceptionSet.mk (BitVec.eq_of_getLsbD_eq fun k hk => ?_)
    rw [BitVec.getLsbD_extractLsb', getLsbD_record, if_pos (by omega), decide_eq_true hk, Bool.true_and,
      Nat.add_sub_cancel_left]
  traps := by
    have hcause := (r.setCause raised).causeTraps_iff
    rw [cause_setCause, traps_congr raised (r.settings_setCause raised)] at hcause
    rw [← hcause, record_fst, Bool.not_not]
  flags := by
    cases hquiet : (r.record raised).1 with
    | false =>
      refine congrArg ExceptionSet.mk (BitVec.eq_of_getLsbD_eq fun k hk => ?_)
      show (r.record raised).2.flags.bits.getLsbD k = r.flags.bits.getLsbD k
      rw [getLsbD_flags, getLsbD_flags]
      by_cases hfield : k < 5
      · rw [getLsbD_record, if_neg (by omega), hquiet, Bool.false_and, Bool.false_and, Bool.or_false]
      · rw [decide_eq_false hfield, Bool.false_and, Bool.false_and]
    | true =>
      refine congrArg ExceptionSet.mk (BitVec.eq_of_getLsbD_eq fun k hk => ?_)
      show (r.record raised).2.flags.bits.getLsbD k = (r.flags.bits ||| raised.bits &&& 31#6).getLsbD k
      rw [BitVec.getLsbD_or, BitVec.getLsbD_and, getLsbD_flags, getLsbD_flags]
      by_cases hfield : k < 5
      · have hieee : (31#6).getLsbD k = true := by interval_cases k <;> rfl
        rw [getLsbD_record, if_neg (by omega), hquiet, decide_eq_true hfield, decide_eq_true (by omega), hieee,
          Nat.add_sub_cancel_left]
        simp
      · obtain rfl : k = 5 := by omega
        simp
  settings := by
    refine settings_congr fun i hi => ?_
    obtain ⟨hcause, hflags, -⟩ := apart_of_settingsMask hi
    rw [getLsbD_record, if_neg hcause, decide_eq_false hflags, Bool.and_false, Bool.false_and, Bool.or_false]

theorem condition_record : (r.record raised).2.condition = r.condition := by
  rw [condition, getLsbD_record, if_neg (by omega), decide_eq_false (by omega), Bool.and_false, Bool.false_and,
    Bool.or_false, condition]

variable {r raised} {r' : Fcr31} {trapped : Bool}

theorem Records.setCondition (h : r.Records raised trapped r') (value : Bool) :
    r.Records raised trapped (r'.setCondition value) where
  cause := by
    refine Eq.trans (congrArg ExceptionSet.mk (BitVec.eq_of_getLsbD_eq fun k hk => ?_)) h.cause
    rw [BitVec.getLsbD_extractLsb', BitVec.getLsbD_extractLsb', getLsbD_setCondition, if_neg (by omega)]
  traps := h.traps
  flags := by
    refine Eq.trans (congrArg ExceptionSet.mk (BitVec.eq_of_getLsbD_eq fun k hk => ?_)) h.flags
    show (r'.setCondition value).flags.bits.getLsbD k = r'.flags.bits.getLsbD k
    rw [getLsbD_flags, getLsbD_flags, getLsbD_setCondition, if_neg (by omega)]
  settings := by
    refine Eq.trans (settings_congr fun i hi => ?_) h.settings
    rw [getLsbD_setCondition, if_neg (apart_of_settingsMask hi).2.2]

theorem Proper.record (h : r.Proper) (raised : ExceptionSet) : (r.record raised).2.Proper := by
  rw [proper_iff] at h ⊢
  intro i hi hmask
  have hcause : ¬ (12 ≤ i ∧ i < 18) := by
    rintro ⟨hlow, hhigh⟩
    interval_cases i <;> cases hmask
  have hflags : ¬ (2 ≤ i ∧ i < 7) := by
    rintro ⟨hlow, hhigh⟩
    interval_cases i <;> cases hmask
  rw [getLsbD_record, if_neg hcause, h i hi hmask, decide_eq_false hflags, Bool.and_false, Bool.false_and,
    Bool.or_false]

theorem Proper.setCondition (h : r.Proper) (value : Bool) : (r.setCondition value).Proper := by
  rw [proper_iff] at h ⊢
  intro i hi hmask
  have hcondition : i ≠ 23 := by
    rintro rfl
    cases hmask
  rw [getLsbD_setCondition, if_neg hcondition, h i hi hmask]

theorem proper_zero : ({} : Fcr31).Proper := rfl

theorem proper_ofRaw (word : BitVec 32) : (ofRaw word).Proper := by
  rw [proper_iff]
  intro i _ hmask
  rw [ofRaw, BitVec.getLsbD_and, hmask, Bool.and_false]

end Fcr31

end FloatingPoint

/-! ## Words -/

/-- What a word means for the floating-point control register. -/
inductive FloatRole where
  /-- Nothing: it moves, loads, stores or branches, or has nothing to do with floating point. -/
  | bystander
  /-- It writes the register. -/
  | writes (rt : Reg)
  /-- It is arithmetic or a conversion, or no operation that there is. -/
  | computes
  /-- It is a comparison. -/
  | compares
deriving DecidableEq, Repr

open Encoding in
/-- What a word means for the floating-point control register. The unit's opcode is 0x11. The field of `rs` tells
moves, branches and formats apart; the formats 0x10 and 0x11 are singles and doubles. -/
def FloatRole.ofWord (w : UInt32) : FloatRole :=
  if (opcode w).toNat = 0x11 then
    match (rs w).val with
    | 0x00 | 0x01 | 0x02 | 0x04 | 0x05 | 0x08 => .bystander
    | 0x06 => if rd w = 31 then .writes (rt w) else .bystander
    | 0x10 | 0x11 =>
      if (funct w).toNat = 0x06 then .bystander
      else if 0x30 ≤ (funct w).toNat then .compares
      else .computes
    | _ => .computes
  else .bystander

/-- What an operation means for it. -/
def FloatOp.role : FloatOp → FloatRole
  | .mfc1 .. | .dmfc1 .. | .cfc1 .. | .mtc1 .. | .dmtc1 .. | .mov .. => .bystander
  | .ctc1 rt fs => if fs = 31 then .writes rt else .bystander
  | .compare .. => .compares
  | _ => .computes

namespace Instruction

open Encoding

/-- What an instruction means for it. -/
def role : Instruction → FloatRole
  | .float op => op.role
  | _ => .bystander

theorem role_decodeFloatFormat (p : FloatingPoint.Precision) (w : UInt32) :
    (decodeFloatFormat p w).role =
      if (funct w).toNat = 0x06 then .bystander
      else if 0x30 ≤ (funct w).toNat then .compares
      else .computes := by
  unfold decodeFloatFormat
  dsimp only
  split
  -- a function without an operation, or a comparison
  case h_21 =>
    have hmov : (funct w).toNat ≠ 0x06 := by assumption
    rw [if_neg hmov]
    split <;> rfl
  all_goals
    rename_i hfunct
    rw [hfunct]
    first | rfl | cases p <;> rfl

theorem role_decodeIntegerFormat (source : FloatingPoint.IntegerFormat) (w : UInt32) :
    (decodeIntegerFormat source w).role = .computes := by
  unfold decodeIntegerFormat
  split <;> rfl

theorem role_decodeFloat {w : UInt32} (h : (opcode w).toNat = 0x11) :
    (decodeFloat w).role = FloatRole.ofWord w := by
  unfold FloatRole.ofWord
  rw [if_pos h]
  unfold decodeFloat
  split
  case h_6 hfmt =>
    rw [hfmt]
    rfl
  case h_8 hfmt =>
    rw [hfmt]
    exact role_decodeFloatFormat .single w
  case h_9 hfmt =>
    rw [hfmt]
    exact role_decodeFloatFormat .double w
  case h_10 hfmt =>
    rw [hfmt]
    exact role_decodeIntegerFormat .word w
  case h_11 hfmt =>
    rw [hfmt]
    exact role_decodeIntegerFormat .long w
  -- a format that there is none of
  case h_12 =>
    split <;> first | rfl | contradiction
  all_goals
    rename_i hfmt
    rw [hfmt]
    rfl

theorem role_of_needsFloat {i : Instruction} (h : i.needsFloat = false) : i.role = .bystander := by
  cases i with
  | float op => cases h
  | _ => rfl

/-- **A word decodes** to an instruction that means what the word does. -/
theorem role_decode (w : UInt32) : (decode w).role = FloatRole.ofWord w := by
  by_cases hfloat : (opcode w).toNat = 0x11
  · have hdecode : decode w = decodeFloat w := by
      unfold decode
      rw [hfloat]
      rfl
    rw [hdecode, role_decodeFloat hfloat]
  · unfold FloatRole.ofWord
    rw [if_neg hfloat]
    unfold decode
    dsimp only
    split
    case h_1 => exact role_of_needsFloat (needsFloat_decodeSpecial w)
    case h_2 => exact role_of_needsFloat (needsFloat_decodeRegisterImmediate w)
    case h_17 => exact role_of_needsFloat (needsFloat_decodeSystem w)
    case h_18 h => exact absurd h hfloat
    case h_19 => exact role_of_needsFloat (needsFloat_decodeLatch w)
    all_goals rfl

end Instruction

/-! ## Plans -/

/-- What an effect leaves in the register, if it writes it. -/
def Effect.fcr31? : Effect → Option FloatingPoint.Fcr31
  | .float _ _ _ v => some v
  | .fcr31 v => some v
  | _ => Option.none

namespace Cpu

open FloatingPoint

/-- The exceptions that an operation of the unit raises, if it computes or compares. -/
def floatRaised? (c : Cpu) (op : FloatOp) : Option ExceptionSet :=
  let mode := c.fcr31.rounding
  match op with
  | .binary op p _ fs ft => some (binary p op mode (c.floatOperand p fs) (c.floatOperand p ft)).raised
  | .sqrt p _ fs => some (sqrt p mode (c.floatOperand p fs)).raised
  | .abs p _ fs => some (abs p (c.floatOperand p fs)).raised
  | .neg p _ fs => some (neg p (c.floatOperand p fs)).raised
  | .toInteger p target fixed _ fs => some (toInteger p target (fixed.getD mode) (c.floatOperand p fs)).raised
  | .narrow _ fs => some (narrow mode (c.floatOperand .double fs)).raised
  | .widen _ fs => some (widen (c.floatOperand .single fs)).raised
  | .fromInteger source p _ fs =>
    some (fromInteger source p mode (c.floatOperand (integerPrecision source) fs)).raised
  | .compare p condition fs ft =>
    some (compareOperands p condition (c.floatOperand p fs) (c.floatOperand p ft)).2
  | .unknown => some .unimplemented
  | _ => none

/-- The exceptions that an instruction raises, if it computes or compares. -/
def raised? (c : Cpu) : Instruction → Option ExceptionSet
  | .float op => c.floatRaised? op
  | _ => none

theorem isSome_raised? (c : Cpu) (i : Instruction) :
    (c.raised? i).isSome = true ↔ i.role = .computes ∨ i.role = .compares := by
  cases i with
  | float op =>
    cases op with
    | ctc1 rt fs =>
      simp only [raised?, floatRaised?, Instruction.role, FloatOp.role]
      split <;> simp
    | _ => simp [raised?, floatRaised?, Instruction.role, FloatOp.role]
  | _ => simp [raised?, Instruction.role]

/-- What is left in the register by what is planned. -/
def leaves (c : Cpu) : Except Fault Plan → Fcr31
  | .ok p => p.effect.fcr31?.getD c.fcr31
  | .error (.floatingPoint v) => v
  | .error _ => c.fcr31

theorem recorded_eq (c : Cpu) (raised : ExceptionSet) (effect : Fcr31 → Effect) :
    c.recorded raised effect =
      if (c.fcr31.record raised).1 then .ok { effect := effect (c.fcr31.record raised).2 }
      else .error (.floatingPoint (c.fcr31.record raised).2) := by
  unfold recorded
  rcases c.fcr31.record raised with ⟨quiet, r⟩
  cases quiet <;> rfl

/-- **An operation that raises exceptions** records them, and then writes the register no further, or the condition
if it is a comparison. -/
theorem plan_of_raised {c : Cpu} {i : Instruction} {raised : ExceptionSet} (h : c.raised? i = some raised) :
    ∃ effect : Fcr31 → Effect, c.plan i = c.recorded raised effect ∧
      ((∀ v, (effect v).fcr31? = some v) ∨
        i.role = .compares ∧ ∃ holds, ∀ v, (effect v).fcr31? = some (v.setCondition holds)) := by
  cases i with
  | float op =>
    cases op with
    | compare p condition fs ft =>
      obtain rfl := Option.some.inj h
      exact ⟨_, rfl, .inr ⟨rfl, _, fun _ => rfl⟩⟩
    | mfc1 | dmfc1 | cfc1 | mtc1 | dmtc1 | ctc1 | mov => cases h
    | _ =>
      obtain rfl := Option.some.inj h
      exact ⟨_, rfl, .inl fun _ => rfl⟩
  | _ => cases h

theorem leaves_checked (c : Cpu) (rd : Reg) (result : Option UInt64) :
    c.leaves (writesChecked rd result) = c.fcr31 := by
  cases result <;> rfl

theorem leaves_located {c : Cpu} {w : Width} {access : Access} {address : UInt64} {f : Location → Effect}
    (h : ∀ l, (f l).fcr31? = none) :
    c.leaves (c.locate w access address >>= fun l => pure { effect := f l }) = c.fcr31 := by
  unfold locate
  cases c.resolve w access address with
  | error t => rfl
  | ok l =>
    show (f l).fcr31?.getD c.fcr31 = c.fcr31
    rw [h]
    rfl

theorem leaves_load (c : Cpu) (op : LoadOp) (rt : Reg) (address : UInt64) :
    c.leaves (c.planLoadOp op rt address) = c.fcr31 := by
  cases op <;> exact leaves_located fun _ => rfl

theorem leaves_store (c : Cpu) (op : StoreOp) (rt : Reg) (address : UInt64) :
    c.leaves (c.planStoreOp op rt address) = c.fcr31 := by
  have hconditional (w : Width) : c.leaves (c.planConditionalStore w rt address) = c.fcr31 :=
    leaves_located fun _ => by split <;> rfl
  cases op with
  | sc => exact hconditional .word
  | scd => exact hconditional .double
  | _ => exact leaves_located fun _ => rfl

/-- **A bystander** leaves the register alone. -/
theorem leaves_of_bystander (c : Cpu) {i : Instruction} (h : i.role = .bystander) :
    c.leaves (c.plan i) = c.fcr31 := by
  cases i with
  | immediate op rt rs value => cases op <;> first | rfl | exact c.leaves_checked _ _
  | register op rd rs rt => cases op <;> first | rfl | exact c.leaves_checked _ _
  | load op rt base offset => exact c.leaves_load op rt _
  | store op rt base offset => exact c.leaves_store op rt _
  | readHiLo half rd => cases half <;> rfl
  | writeHiLo half rs => cases half <;> rfl
  | trapIf test rs operand =>
    unfold plan
    dsimp only
    split <;> rfl
  | cache selector base offset =>
    unfold plan
    dsimp only
    split <;> rfl
  | jump link offset => cases link <;> rfl
  | jumpRegister rs link => cases link <;> rfl
  | branch test likely link offset => cases link <;> rfl
  | system op => cases op <;> rfl
  | latch op =>
    show c.leaves (c.planLatch op) = c.fcr31
    unfold planLatch
    split
    · cases op <;> rfl
    · rfl
  | float op =>
    cases op with
    | ctc1 rt fs =>
      have hfs : fs ≠ 31 := by
        rintro rfl
        cases h
      show c.leaves (planFloatControl fs _) = c.fcr31
      unfold planFloatControl
      rw [if_neg hfs]
      rfl
    | mfc1 | dmfc1 | cfc1 | mtc1 | dmtc1 | mov => rfl
    | _ => cases h
  | _ => rfl

/-- **The write of the register** leaves the fields of the word that is written. -/
theorem leaves_of_writes (c : Cpu) {i : Instruction} {rt : Reg} (h : i.role = .writes rt) :
    c.leaves (c.plan i) = .ofRaw (c.regs.get rt).toUInt32.toBitVec := by
  cases i with
  | float op =>
    cases op with
    | ctc1 rt' fs =>
      by_cases hfs : fs = 31
      · have hrole : (if fs = 31 then FloatRole.writes rt' else .bystander) = .writes rt := h
        rw [if_pos hfs] at hrole
        obtain rfl := FloatRole.writes.inj hrole
        show c.leaves (planFloatControl fs _) = _
        unfold planFloatControl
        rw [if_pos hfs]
        dsimp only
        split <;> rfl
      · have hrole : (if fs = 31 then FloatRole.writes rt' else .bystander) = .writes rt := h
        rw [if_neg hfs] at hrole
        cases hrole
    | _ => cases h
  | _ => cases h

end Cpu

end Vr4300
