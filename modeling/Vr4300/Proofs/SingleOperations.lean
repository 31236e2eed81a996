import Vr4300.Proofs.SingleArithmetic

/-!
# Single-precision results are correctly rounded

Every operation with a single-precision result rounds its exact result once, in the mode that it is given,
although it is computed through a double and rounded twice.

## Contents

* `SingleOperation`: the operations, with their exact results and the signs of their zeros.
* `arithmetic_roundsTo`, `sqrt_roundsTo`, `narrow_roundsTo`, `fromWord_roundsTo`, `fromLong_roundsTo`: the
  operations one by one.
* `single_rounded_once`: all of them.
-/

namespace Vr4300.FloatingPoint

open Format

/-! ## The operations -/

/-- The value of a number; zero for infinities and NaN. -/
noncomputable def Datum.value (d : Datum) : ℝ :=
  (d.toRat?.getD 0 : ℚ)

theorem Datum.HasValue.value_eq {d : Datum} {u : ℝ} (h : d.HasValue u) : d.value = u :=
  h.toRat?_eq

/-- The class of an operand is normal or zero. -/
def Precision.IsOrdinary (p : Precision) (bits : UInt64) : Prop :=
  p.classify bits = .normal ∨ (p.classify bits).isZero

/-- An operation with a single-precision result, together with its operands. A single or a word is given by its
own bits. -/
inductive SingleOperation where
  /-- Addition, subtraction, multiplication or division. -/
  | arithmetic (op : BinaryOp) (a b : UInt32)
  /-- The square root. -/
  | squareRoot (a : UInt32)
  /-- Conversion of a double. -/
  | fromDouble (a : UInt64)
  /-- Conversion of a word. -/
  | fromWord (w : UInt32)
  /-- Conversion of a long. -/
  | fromLong (l : UInt64)

namespace SingleOperation

/-- What the unit makes of the operation. -/
def outcome (mode : RoundingMode) : SingleOperation → Outcome
  | arithmetic op a b => binary .single op mode a.toUInt64 b.toUInt64
  | squareRoot a => sqrt .single mode a.toUInt64
  | fromDouble a => narrow mode a
  | fromWord w => fromInteger .word .single mode w.toUInt64
  | fromLong l => fromInteger .long .single mode l

/-- The datum of a single operand. -/
def operand (a : UInt32) : Datum :=
  Precision.single.datum a.toUInt64

/-- The exact result. -/
noncomputable def exact : SingleOperation → ℝ
  | arithmetic .add a b => (operand a).value + (operand b).value
  | arithmetic .sub a b => (operand a).value - (operand b).value
  | arithmetic .mul a b => (operand a).value * (operand b).value
  | arithmetic .div a b => (operand a).value / (operand b).value
  | squareRoot a => √(operand a).value
  | fromDouble a => (Precision.double.datum a).value
  | fromWord w => w.toInt32.toInt
  | fromLong l => l.toInt64.toInt

/-- Whether a result of exactly zero is negative. -/
def zeroNegative (mode : RoundingMode) : SingleOperation → Bool
  | arithmetic .add a b =>
    if (operand a).isNegative = (operand b).isNegative then (operand a).isNegative else mode = .downward
  | arithmetic .sub a b =>
    if (operand a).isNegative = !(operand b).isNegative then (operand a).isNegative else mode = .downward
  | arithmetic .mul a b | arithmetic .div a b => (operand a).isNegative != (operand b).isNegative
  | squareRoot a => (operand a).isNegative
  | fromDouble a => (Precision.double.datum a).isNegative
  | fromWord _ | fromLong _ => false

/-- The operands are normal or zero and have a result. -/
def Admissible : SingleOperation → Prop
  | arithmetic op a b => Precision.single.IsOrdinary a.toUInt64 ∧ Precision.single.IsOrdinary b.toUInt64 ∧
    (op = .div → (operand b).value ≠ 0)
  | squareRoot a => Precision.single.IsOrdinary a.toUInt64 ∧ 0 ≤ (operand a).value
  | fromDouble a => Precision.double.IsOrdinary a
  | fromWord _ => True
  | fromLong l => |l.toInt64.toInt| < 2 ^ 55

end SingleOperation

variable {mode : RoundingMode} {op : BinaryOp} {a b : UInt32} {r r' : Datum} {R x : ℝ} {side : Side} {z : Bool}

instance (p : Precision) : p.format.Proper :=
  match p with
  | .single => inferInstanceAs (Proper .single)
  | .double => inferInstanceAs (Proper .double)

/-- An ordinary operand is a number, which is zero if its class is. -/
theorem Precision.IsOrdinary.at {p : Precision} {bits : UInt64} (h : p.IsOrdinary bits) :
    ∃ i : ℤ, p.format.At (p.datum bits) i ∧ i.natAbs < p.format.infinityMagnitude ∧
      (i = 0 ∨ p.format.minNormalMagnitude ≤ i.natAbs) ∧ ((p.classify bits).isZero ↔ i = 0) :=
  at_of_classify h

theorem Precision.IsOrdinary.isZero_iff {p : Precision} {bits : UInt64} (h : p.IsOrdinary bits) :
    (p.classify bits).isZero ↔ (p.datum bits).value = 0 := by
  obtain ⟨i, hat, hlt, -, hzero⟩ := h.at
  rw [hzero, (hat.hasValue hlt).value_eq, ← point_zero (f := p.format), point_strictMono.injective.eq_iff]

theorem operand_of_isOrdinary (h : Precision.single.IsOrdinary a.toUInt64) :
    Operand (SingleOperation.operand a) (SingleOperation.operand a).value := by
  obtain ⟨i, hat, hlt, hmin, -⟩ := h.at
  have := operand_of_at hat hlt hmin
  rwa [← this.value.value_eq] at this

/-- The sign of a zero plays no part where the exact result is not zero. -/
theorem RoundsTo.of_ne {o : Outcome} {z' : Bool} (h : RoundsTo mode x z o) (hx : x ≠ 0) : RoundsTo mode x z' o where
  bits_lt := h.bits_lt
  overflow := h.overflow
  underflow := h.underflow
  rounded := fun hle hor => ⟨(h.rounded hle hor).1, (h.rounded hle hor).2.1, fun h0 => absurd h0 hx⟩

/-! ## Arithmetic -/

theorem kind_eq_compute {ca cb : OperandClass} (ha : ca = .normal ∨ ca.isZero) (hb : cb = .normal ∨ cb.isZero)
    (hdiv : op = .div → ¬cb.isZero) : op.kind ca cb = .compute := by
  cases op <;> cases ca <;> simp [OperandClass.isZero] at ha <;> cases cb <;>
    simp [OperandClass.isZero] at hb hdiv <;> rfl

/-- An operator on ordinary operands finishes what it evaluates to. -/
theorem binary_eq_finish {p : Precision} {a b : UInt64} (ha : p.IsOrdinary a) (hb : p.IsOrdinary b)
    (hdiv : op = .div → (p.datum b).value ≠ 0) (heval : op.evaluate (p.datum a) (p.datum b) = (r, side)) :
    binary p op mode a b =
      if r.isZero && side == .exact && (op == .add || op == .sub) then
        finish p mode (op.zeroSum mode (p.datum a) (p.datum b) r) side
      else finish p mode r side := by
  have hkind : op.kind (p.classify a) (p.classify b) = .compute :=
    kind_eq_compute ha hb fun h => mt hb.isZero_iff.1 (hdiv h)
  have hfinite {c : UInt64} (h : p.IsOrdinary c) : (p.datum c).isInfinite = false := by
    obtain ⟨i, hat, hlt, -⟩ := h.at
    exact (hat.hasValue hlt).isInfinite_eq
  unfold binary
  simp only [hkind, heval, hfinite ha, hfinite hb, Bool.or_self, Bool.false_eq_true, if_false]

/-- An operator on ordinary singles finishes what it evaluates to. -/
theorem binary_eq (ha : Precision.single.IsOrdinary a.toUInt64) (hb : Precision.single.IsOrdinary b.toUInt64)
    (hdiv : op = .div → (SingleOperation.operand b).value ≠ 0)
    (heval : op.evaluate (SingleOperation.operand a) (SingleOperation.operand b) = (r, side)) :
    binary .single op mode a.toUInt64 b.toUInt64 =
      if r.isZero && side == .exact && (op == .add || op == .sub) then
        finishSingle mode (op.zeroSum mode (SingleOperation.operand a) (SingleOperation.operand b) r) side
      else finishSingle mode r side :=
  binary_eq_finish ha hb hdiv heval

/-- What remains to be shown of an operator: that it approximates its exact result, and the sign of a zero. -/
theorem binary_roundsTo (ha : Precision.single.IsOrdinary a.toUInt64)
    (hb : Precision.single.IsOrdinary b.toUInt64)
    (hdiv : op = .div → (SingleOperation.operand b).value ≠ 0)
    (heval : op.evaluate (SingleOperation.operand a) (SingleOperation.operand b) = (r, side))
    (h : Approximates r R side x) (hmid : |R| = overflowMiddle → |R| ≤ |x|)
    (hz : x = 0 → (if op == .add || op == .sub then
      op.zeroSum mode (SingleOperation.operand a) (SingleOperation.operand b) r else r).isNegative = z) :
    RoundsTo mode x z (binary .single op mode a.toUInt64 b.toUInt64) := by
  rw [binary_eq ha hb hdiv heval]
  rcases eq_or_ne x 0 with rfl | hx
  · obtain ⟨rfl, rfl⟩ := h.eq_zero
    have hzero : r.isZero = true := h.value.isZero_iff.2 rfl
    have hsum : (op.zeroSum mode (SingleOperation.operand a) (SingleOperation.operand b) r).HasValue 0 := by
      unfold BinaryOp.zeroSum
      dsimp only
      split_ifs
      · simpa using Datum.hasValue_finite true 0 Format.double.unit
      · exact h.value
      · simpa using Datum.hasValue_finite true 0 Format.double.unit
      · exact h.value
    rw [← hz rfl]
    cases hop : op == .add || op == .sub
    · simpa [hzero] using finishSingle_roundsTo mode h hmid
    · simpa [hzero] using finishSingle_roundsTo mode { h with value := hsum } hmid
  · have hnot : (r.isZero && side == .exact && (op == .add || op == .sub)) = false := by
      have := (isZero_and_exact_iff h).2 hx
      cases hr : r.isZero <;> cases hs : side <;> simp_all
    rw [hnot]
    exact (finishSingle_roundsTo mode h hmid).of_ne hx

/-- A rounded zero takes the sign that it is given. -/
theorem isNegative_nearest_zero (f : Format) (z : Bool) : (f.nearest z 0).isNegative = z := by
  rw [nearest, if_pos rfl]
  rfl

variable {c d : Datum} {u v : ℝ}

theorem isNegative_add (hc : c.HasValue u) (hd : d.HasValue v) (h : u + v = 0) :
    (Format.double.add c d).isNegative = (c.isNegative && d.isNegative) := by
  have hzero : c.toRat?.getD 0 + d.toRat?.getD 0 = 0 := by
    rw [← hc.toRat?_eq, ← hd.toRat?_eq] at h
    exact_mod_cast h
  obtain ⟨s, m, e, rfl⟩ := hc.exists_finite
  obtain ⟨t, n, k, rfl⟩ := hd.exists_finite
  unfold add
  dsimp only
  rw [hzero, isNegative_nearest_zero]
  rfl

theorem isNegative_neg (hd : d.HasValue v) : (-d).isNegative = !d.isNegative := by
  obtain ⟨t, n, k, rfl⟩ := hd.exists_finite
  rfl

theorem isNegative_mul (hc : c.HasValue u) (hd : d.HasValue v) (h : u * v = 0) :
    (Format.double.mul c d).isNegative = (c.isNegative != d.isNegative) := by
  have hzero : c.toRat?.getD 0 * d.toRat?.getD 0 = 0 := by
    rw [← hc.toRat?_eq, ← hd.toRat?_eq] at h
    exact_mod_cast h
  obtain ⟨s, m, e, rfl⟩ := hc.exists_finite
  obtain ⟨t, n, k, rfl⟩ := hd.exists_finite
  unfold mul
  dsimp only
  rw [hzero, isNegative_nearest_zero]

theorem isNegative_div (hc : c.HasValue u) (hd : d.HasValue v) (hv : v ≠ 0) (h : u / v = 0) :
    (Format.double.div c d).isNegative = (c.isNegative != d.isNegative) := by
  have hne := mt hd.isZero_iff.1 hv
  have hzero : c.toRat?.getD 0 / d.toRat?.getD 0 = 0 := by
    rw [← hc.toRat?_eq, ← hd.toRat?_eq] at h
    exact_mod_cast h
  obtain ⟨s, m, e, rfl⟩ := hc.exists_finite
  obtain ⟨t, n, k, rfl⟩ := hd.exists_finite
  have hn : n ≠ 0 := by simpa [Datum.isZero] using hne
  unfold div
  dsimp only
  rw [if_neg hn, hzero, isNegative_nearest_zero]

/-- The evaluation of a product does not lose anything, so the rule for results that vanish is not used. -/
theorem evaluate_mul (hc : Operand c u) (hd : Operand d v) : BinaryOp.mul.evaluate c d =
    (Format.double.mul c d,
      .ofResidual (Format.double.fusedMulAdd c d (-Format.double.mul c d))) := by
  have h := mul_approximates hc hd
  refine if_neg ?_
  rw [Bool.and_eq_true, Bool.and_eq_true, Bool.and_eq_true, h.value.isZero_iff, Bool.not_eq_true',
    Bool.not_eq_true', ← Bool.not_eq_true, ← Bool.not_eq_true, hc.value.isZero_iff, hd.value.isZero_iff]
  rintro ⟨⟨⟨hzero, -⟩, hu⟩, hv⟩
  exact (mul_ne_zero hu hv) hzero

/-- A quotient does not vanish either. -/
theorem evaluate_div (hc : Operand c u) (hd : Operand d v) (hv : v ≠ 0) : BinaryOp.div.evaluate c d =
    (Format.double.div c d,
      if d.isBelowZero then
        (Side.ofResidual (Format.double.fusedMulAdd (-Format.double.div c d) d c)).flip
      else .ofResidual (Format.double.fusedMulAdd (-Format.double.div c d) d c)) := by
  have h := div_approximates hc hd hv
  refine if_neg ?_
  rw [Bool.and_eq_true, Bool.and_eq_true, h.value.isZero_iff, beq_iff_eq, Bool.not_eq_true',
    ← Bool.not_eq_true, hc.value.isZero_iff]
  rintro ⟨⟨hzero, hside⟩, hu⟩
  exact div_ne_zero hu hv ((h.exact_iff.1 hside).trans hzero)

/-- The sign of a zero sum. -/
theorem zeroSum_add (s t : Bool) (hc : c.isNegative = s) (hd : d.isNegative = t)
    (hr : r.isNegative = (s && t)) :
    (BinaryOp.add.zeroSum mode c d r).isNegative = if s = t then s else decide (mode = .downward) := by
  unfold BinaryOp.zeroSum
  simp only [hc, hd]
  cases s <;> cases t <;> cases mode <;> simp_all [Datum.isNegative]

theorem zeroSum_sub (s t : Bool) (hc : c.isNegative = s) (hd : d.isNegative = t)
    (hr : r.isNegative = (s && !t)) :
    (BinaryOp.sub.zeroSum mode c d r).isNegative = if s = !t then s else decide (mode = .downward) := by
  unfold BinaryOp.zeroSum
  simp only [hc, hd]
  cases s <;> cases t <;> cases mode <;> simp_all [Datum.isNegative]

/-- Addition, subtraction, multiplication and division round once. -/
theorem arithmetic_roundsTo (op : BinaryOp) (mode : RoundingMode)
    (ha : Precision.single.IsOrdinary a.toUInt64) (hb : Precision.single.IsOrdinary b.toUInt64)
    (hdiv : op = .div → (SingleOperation.operand b).value ≠ 0) :
    RoundsTo mode (SingleOperation.arithmetic op a b).exact
      ((SingleOperation.arithmetic op a b).zeroNegative mode)
      (binary .single op mode a.toUInt64 b.toUInt64) := by
  have hu := operand_of_isOrdinary ha
  have hv := operand_of_isOrdinary hb
  cases op with
  | add =>
    refine binary_roundsTo ha hb hdiv rfl (add_approximates hu hv) (add_middle hu hv) fun hx => ?_
    exact zeroSum_add _ _ rfl rfl (isNegative_add hu.value hv.value hx)
  | sub =>
    have h := add_approximates hu hv.neg
    have hmid := add_middle hu hv.neg
    rw [← sub_eq_add_neg] at h hmid
    refine binary_roundsTo ha hb hdiv rfl h hmid fun hx => ?_
    refine zeroSum_sub _ _ rfl rfl ?_
    rw [← isNegative_neg hv.value]
    exact isNegative_add hu.value hv.neg.value (by rw [← sub_eq_add_neg]; exact hx)
  | mul =>
    refine binary_roundsTo ha hb hdiv (evaluate_mul hu hv) (mul_approximates hu hv) (fun _ => le_rfl) fun hx => ?_
    exact isNegative_mul hu.value hv.value hx
  | div =>
    have hne := hdiv rfl
    refine binary_roundsTo ha hb hdiv (evaluate_div hu hv hne) (div_approximates hu hv hne)
      (div_middle hu hv hne) fun hx => ?_
    exact isNegative_div hu.value hv.value hne hx

/-! ## The other operations -/

/-- An exact zero is right as it is. -/
theorem roundsTo_zero {o : Outcome} (hbits : o.bits.toNat < 2 ^ 32) (hraised : o.raised = ∅)
    (hzero : o.single.HasValue 0) : RoundsTo mode 0 o.single.isNegative o where
  bits_lt := hbits
  overflow := by
    intro hlt
    rw [round_zero, abs_zero] at hlt
    exact absurd hlt (by unfold largestSingle; norm_num)
  underflow := fun h => absurd rfl h
  rounded := fun _ _ => by
    rw [round_zero, if_pos rfl]
    exact ⟨hraised, hzero, fun _ => rfl⟩

theorem screen?_eq_none {p q : Precision} {bits : UInt64} (h : p.IsOrdinary bits) : screen? p q bits = none := by
  unfold screen? Precision.IsOrdinary at *
  cases hc : p.classify bits <;> rw [hc] at h <;> simp [OperandClass.isZero] at h <;> rfl

/-- The square root rounds once. -/
theorem sqrt_roundsTo (mode : RoundingMode) (ha : Precision.single.IsOrdinary a.toUInt64)
    (hnonneg : 0 ≤ (SingleOperation.operand a).value) :
    RoundsTo mode (SingleOperation.squareRoot a).exact ((SingleOperation.squareRoot a).zeroNegative mode)
      (sqrt .single mode a.toUInt64) := by
  have hu := operand_of_isOrdinary ha
  have hzero := ha.isZero_iff
  unfold sqrt
  rw [screen?_eq_none ha]
  dsimp only [SingleOperation.exact, SingleOperation.zeroNegative]
  rcases hnonneg.eq_or_lt with h0 | hpos
  · rw [if_pos (by rw [Bool.or_eq_true]; exact .inl (hzero.2 h0.symm)), ← h0, Real.sqrt_zero]
    have hsingle : (Outcome.exact a.toUInt64).single = SingleOperation.operand a := by
      unfold Outcome.single Outcome.exact SingleOperation.operand Precision.datum Precision.operand
      simp [Precision.format]
    rw [← hsingle]
    refine roundsTo_zero ?_ rfl ?_
    · simpa [Outcome.exact] using a.toNat_lt
    · rw [hsingle, h0]
      exact hu.value
  · have hclass : ¬((Precision.single.classify a.toUInt64).isZero ||
        Precision.single.classify a.toUInt64 == .posInfinity) = true := by
      rw [Bool.or_eq_true, hzero]
      rintro (h | h)
      · exact hpos.ne' h
      · rw [beq_iff_eq] at h
        rcases ha with ha | ha <;> rw [h] at ha <;> cases ha
    have hsign := hu.value.isNegative_of_pos hpos
    rw [if_neg hclass, if_neg (by rw [← SingleOperation.operand, hsign]; decide)]
    exact (finishSingle_roundsTo mode (sqrt_approximates hu hpos)
      fun h => absurd h (sqrt_not_middle hu hpos)).of_ne (Real.sqrt_pos.2 hpos).ne'

/-- The conversion of a double rounds once. -/
theorem narrow_roundsTo (mode : RoundingMode) {a : UInt64} (ha : Precision.double.IsOrdinary a) :
    RoundsTo mode (SingleOperation.fromDouble a).exact ((SingleOperation.fromDouble a).zeroNegative mode)
      (narrow mode a) := by
  obtain ⟨i, hat, hlt, -, -⟩ := ha.at
  have hvalue := hat.hasValue hlt
  unfold narrow
  rw [screen?_eq_none ha]
  dsimp only [SingleOperation.exact, SingleOperation.zeroNegative]
  rw [hvalue.value_eq]
  generalize hx : Precision.double.format.point i = x at hvalue
  have hpoint : Format.double.IsPoint x := ⟨i, hx.symm⟩
  by_cases h0 : x = 0
  · subst h0
    have hconvert := convert_zero hvalue
    obtain ⟨c, hc, hat'⟩ := convert_at (f := .single) hvalue
    obtain rfl : c = 0 := by
      rw [isPoint_zero.round_eq, ← point_zero (f := .single)] at hc
      exact point_strictMono.injective hc.symm
    obtain ⟨hbits, hsingle⟩ := encode_single hat' ∅
    rw [if_pos (by rw [Bool.or_eq_true]; exact .inl (hvalue.isZero_iff.2 rfl))]
    have hnegative : (Outcome.exact (Precision.single.encode
        (Format.single.convert (Precision.double.datum a)))).single.isNegative =
        (Precision.double.datum a).isNegative := by
      rw [Outcome.exact, hsingle, hconvert]
      rfl
    rw [← hnegative]
    refine roundsTo_zero hbits rfl ?_
    rw [Outcome.exact, hsingle, hconvert]
    simpa using Datum.hasValue_finite (Precision.double.datum a).isNegative 0 Format.single.unit
  · rw [if_neg (by rw [Bool.or_eq_true, hvalue.isZero_iff, hvalue.isInfinite_eq]; simpa using h0)]
    exact (finishSingle_roundsTo mode (.refl hvalue hpoint) fun _ => le_rfl).of_ne h0

/-- A result that is computed from an integer has a positive zero. -/
theorem finishInteger_roundsTo (mode : RoundingMode) {n : ℤ}
    (h : Approximates (Format.double.nearest false (n : ℚ)) R side n)
    (hmid : |R| = overflowMiddle → |R| ≤ |(n : ℝ)|) :
    RoundsTo mode n false (finishSingle mode (Format.double.nearest false (n : ℚ)) side) := by
  have hfinish := finishSingle_roundsTo mode h hmid
  rcases eq_or_ne n 0 with rfl | hn
  · have hnegative : (Format.double.nearest false ((0 : ℤ) : ℚ)).isNegative = false := by
      rw [Int.cast_zero]
      exact isNegative_nearest_zero _ _
    rwa [hnegative] at hfinish
  · exact hfinish.of_ne (by exact_mod_cast hn)

/-- The conversion of a word rounds once. -/
theorem fromWord_roundsTo (mode : RoundingMode) (w : UInt32) :
    RoundsTo mode (SingleOperation.fromWord w).exact ((SingleOperation.fromWord w).zeroNegative mode)
      (fromInteger .word .single mode w.toUInt64) := by
  have hw : |(w.toInt32.toInt : ℝ)| ≤ 2 ^ (31 : ℤ) := by
    have hlo := w.toInt32.le_toInt
    have hhi := w.toInt32.toInt_lt
    rw [abs_le]
    constructor
    · have : (-2 ^ 31 : ℤ) ≤ w.toInt32.toInt := hlo
      exact_mod_cast this
    · have : w.toInt32.toInt ≤ (2 ^ 31 : ℤ) := hhi.le
      exact_mod_cast this
  have hpoint : Format.double.IsPoint (w.toInt32.toInt : ℝ) :=
    isPoint_double_of_onGrid (e := 0) (by norm_num) ⟨w.toInt32.toInt, by simp⟩
      (hw.trans (zpow_le_zpow_right₀ one_le_two (by norm_num)))
  have hround := hpoint.round_eq .nearest
  have hvalue := integer_hasValue hw (by norm_num)
  rw [hround] at hvalue
  have hw' : w.toUInt64.toUInt32 = w := by simp
  unfold fromInteger
  dsimp only [SingleOperation.exact, SingleOperation.zeroNegative]
  rw [hw']
  exact finishInteger_roundsTo mode (.refl hvalue hpoint) fun _ => le_rfl

/-- The longs that have no conversion. -/
theorem beyond_longLimit_iff {v : ℤ} : longLimit ≤ v ∨ v ≤ -longLimit ↔ 2 ^ 55 ≤ |v| := by
  rw [le_abs]
  unfold longLimit
  omega

/-- The conversion of a long below the limit rounds once. -/
theorem fromLong_roundsTo (mode : RoundingMode) {l : UInt64} (hl : |l.toInt64.toInt| < 2 ^ 55) :
    RoundsTo mode (SingleOperation.fromLong l).exact ((SingleOperation.fromLong l).zeroNegative mode)
      (fromInteger .long .single mode l) := by
  have hreal : |(l.toInt64.toInt : ℝ)| ≤ 2 ^ (55 : ℤ) := by exact_mod_cast hl.le
  have h := integer_approximates hreal (by norm_num)
  have hmid := not_middle_of_le hreal (by norm_num)
  unfold fromInteger
  dsimp only [SingleOperation.exact, SingleOperation.zeroNegative]
  rw [if_neg (mt beyond_longLimit_iff.1 hl.not_ge)]
  exact finishInteger_roundsTo mode h fun h' => absurd h' hmid

/-! ## All operations -/

/-- Every operation with a single-precision result, on operands that are normal or zero, gives in every mode the
exact result rounded once, with the exceptions and substitutes that the rounding calls for. -/
theorem single_rounded_once (o : SingleOperation) (mode : RoundingMode) (h : o.Admissible) :
    RoundsTo mode o.exact (o.zeroNegative mode) (o.outcome mode) := by
  cases o with
  | arithmetic op a b => exact arithmetic_roundsTo op mode h.1 h.2.1 h.2.2
  | squareRoot a => exact sqrt_roundsTo mode h.1 h.2
  | fromDouble a => exact narrow_roundsTo mode h
  | fromWord w => exact fromWord_roundsTo mode w
  | fromLong l => exact fromLong_roundsTo mode h

/-- One third, rounded up. -/
theorem single_rounded_once_third :
    (SingleOperation.arithmetic .div 0x3F800000 0x40400000).Admissible ∧
    (SingleOperation.arithmetic .div 0x3F800000 0x40400000).outcome .upward = ⟨0x3EAAAAAB, .inexact⟩ ∧
    RoundsTo .upward (SingleOperation.arithmetic .div 0x3F800000 0x40400000).exact false
      ⟨0x3EAAAAAB, .inexact⟩ := by
  have ha : Precision.single.IsOrdinary (0x3F800000 : UInt32).toUInt64 := .inl (by decide)
  have hb : Precision.single.IsOrdinary (0x40400000 : UInt32).toUInt64 := .inl (by decide)
  have hadmissible : (SingleOperation.arithmetic .div 0x3F800000 0x40400000).Admissible :=
    ⟨ha, hb, fun _ => mt hb.isZero_iff.2 (by decide)⟩
  have houtcome : (SingleOperation.arithmetic .div 0x3F800000 0x40400000).outcome .upward =
      ⟨0x3EAAAAAB, .inexact⟩ := by decide +kernel
  exact ⟨hadmissible, houtcome, houtcome ▸ single_rounded_once _ .upward hadmissible⟩

end Vr4300.FloatingPoint
