import Vr4300.Proofs.DoubleProducts

/-!
# Overflow in double precision

A result overflows if the exact value, rounded in the mode with no bound on the exponent, lies beyond the largest
double. What the unit looks at is the nearest double, and then the double that it delivers: it raises the exception
if either of them is infinite. The two tests agree for every mode that leads away from zero. A mode that leads toward
zero takes whatever lies between the largest double and the limit to the largest double, but from the middle between
the two on the nearest double is infinite already. There the exception is raised for a result that is finite.

## Contents

* `largest_lt_abs_nearest_iff`: where the nearest double is infinite. `Spills`, `spills_iff`: where only that one is.
* `Delimits`: what the unit knows of an exact value at the end of the range. `Delimits.overflows_iff`: what it makes
  of it.
* `evaluate_delimits`: every operator knows that much.
* `overflows_unless_spills`: the exception is raised where it should be, and where the exact result spills.
-/

namespace Vr4300.FloatingPoint

open Format

variable {x u v : ℝ} {r r' a b : Datum} {side : Side} {mode : RoundingMode} {i : ℤ} {op : BinaryOp}

/-! ## The end of the range -/

/-- Below the limit there is nothing above the largest double. -/
theorem abs_le_largestDouble_of_lt (hx : Format.double.IsPoint x) (hlt : |x| < 2 ^ (1024 : ℤ)) :
    |x| ≤ largestDouble := by
  obtain ⟨i, rfl⟩ := hx
  rw [← size_infinityMagnitude_double, abs_point, size_strictMono.lt_iff_lt] at hlt
  exact abs_le_largestDouble_iff.2 hlt

theorem largestDouble_lt_abs_iff : largestDouble < |Format.double.point i| ↔
    Format.double.infinityMagnitude ≤ i.natAbs := by
  rw [← not_le, abs_le_largestDouble_iff, not_lt]

theorem abs_eq_largestDouble (hi : i.natAbs + 1 = Format.double.infinityMagnitude) :
    |Format.double.point i| = largestDouble := by
  rw [abs_point, ← size_largest_double, ← hi, Nat.add_sub_cancel]

/-- A number whose nearest double is not the largest one yet is not rounded beyond it. -/
theorem abs_round_le_of_nearest_lt (mode : RoundingMode) (hlt : |Format.double.round .nearest x| < largestDouble) :
    |Format.double.round mode x| ≤ largestDouble := by
  refine abs_round_le_of_le isPoint_largestDouble (not_lt.1 fun hgt => ?_)
  exact hlt.not_ge (le_abs_round_of_le .nearest isPoint_largestDouble hgt.le)

theorem isPoint_limit_double : Format.double.IsPoint (2 ^ (1024 : ℤ)) :=
  ⟨_, by rw [← size_infinityMagnitude_double, point_natCast]⟩

theorem largestDouble_add_halfStep : largestDouble + halfStep = (2 ^ 54 - 1) * halfStep := by
  rw [largestDouble_eq]
  ring

/-- Rounding to nearest does not look at the sign. -/
theorem abs_round_nearest (x : ℝ) : |Format.double.round .nearest x| = Format.double.round .nearest |x| := by
  rcases le_total 0 x with hx | hx
  · rw [abs_of_nonneg hx, abs_of_nonneg (round_nonneg _ hx)]
  · have hround : Format.double.round .nearest (-x) = -Format.double.round .nearest x := Format.round_neg _ .nearest x
    rw [abs_of_nonpos hx, hround, abs_of_nonpos (round_nonpos _ hx)]

/-- From the middle between the largest double and the limit on, the nearest double is infinite. -/
theorem largest_lt_abs_nearest_iff :
    largestDouble < |Format.double.round .nearest x| ↔ largestDouble + halfStep ≤ |x| := by
  constructor
  · intro hlt
    by_contra hx
    rw [not_le, largestDouble_add_halfStep] at hx
    exact hlt.not_ge (abs_le_largestDouble_of_lt (isPoint_round _ x) (abs_round_lt_limit hx))
  · intro hx
    rw [abs_round_nearest]
    rcases hx.eq_or_lt with heq | hlt
    · rw [← heq, largestDouble_add_halfStep, round_overflowMiddle_double]
      exact largestDouble_lt_limit
    · rcases le_or_gt (2 ^ (1024 : ℤ)) |x| with hlimit | hlimit
      · have hle := le_abs_round_of_le .nearest isPoint_limit_double hlimit
        rw [abs_round_nearest] at hle
        exact largestDouble_lt_limit.trans_le hle
      · -- the limit is closer than the largest double
        have hclose := abs_round_sub_le isPoint_limit_double |x|
        rw [abs_of_pos (sub_pos.2 hlimit)] at hclose
        have hsum := limit_eq
        have := largestDouble_add_halfStep
        have := (abs_le.1 hclose).1
        linarith

/-- The modes that do not lead away from zero do not enlarge a number. -/
theorem abs_round_le_of_inward (hmode : ¬(mode = .nearest ∨ mode.isOutward (x < 0))) :
    |Format.double.round mode x| ≤ |x| := by
  rcases lt_trichotomy x 0 with hx | rfl | hx
  · rw [abs_of_neg hx, abs_of_nonpos (round_nonpos mode hx.le)]
    exact neg_le_neg (le_round_of_inward (by simpa [hx] using hmode) hx)
  · rw [isPoint_zero.round_eq]
  · rw [abs_of_pos hx, abs_of_nonneg (round_nonneg mode hx.le)]
    exact round_le_of_inward (by simpa [hx.not_gt] using hmode) hx

/-- The modes that lead away from zero do not reduce a number. -/
theorem abs_le_abs_round_of_outward (hmode : mode.isOutward (x < 0)) : |x| ≤ |Format.double.round mode x| := by
  have hupward (y : ℝ) : y ≤ Format.double.round .upward y := by
    rcases isPoint_or_between (f := .double) y with hy | ⟨i, hy⟩
    · rw [hy.round_eq]
    · rw [round_between _ hy]
      exact hy.2.le
  cases mode with
  | nearest | towardZero => cases hmode
  | upward =>
    have hx : 0 ≤ x := by simpa [RoundingMode.isOutward] using hmode
    rw [abs_of_nonneg hx]
    exact (hupward x).trans (le_abs_self _)
  | downward =>
    have hx : x < 0 := by simpa [RoundingMode.isOutward] using hmode
    have hround : Format.double.round .upward (-x) = -Format.double.round .downward x :=
      Format.round_neg _ .upward x
    have hle := hupward (-x)
    rw [hround] at hle
    rw [abs_of_neg hx]
    exact hle.trans (neg_le_abs _)

/-- The least power of two that is beyond the range of doubles. -/
noncomputable def doubleLimit : ℝ :=
  (2 ^ 1024 : ℕ)

theorem doubleLimit_eq : doubleLimit = 2 ^ (1024 : ℤ) := by
  rw [doubleLimit, Nat.cast_pow, Nat.cast_ofNat, ← zpow_natCast]
  rfl

/-- The exact value lies between the largest double and the limit, not closer to the former, and the mode takes it
there nevertheless. -/
def Spills (mode : RoundingMode) (x : ℝ) : Prop :=
  ¬(mode = .nearest ∨ mode.isOutward (x < 0)) ∧ largestDouble + halfStep ≤ |x| ∧ |x| < doubleLimit

/-- The exact value spills if its nearest double is infinite and its rounding in the mode is not. -/
theorem spills_iff : Spills mode x ↔ largestDouble < |Format.double.round .nearest x| ∧
    |Format.double.round mode x| ≤ largestDouble := by
  rw [largest_lt_abs_nearest_iff, Spills, doubleLimit_eq]
  constructor
  · rintro ⟨hmode, hlo, hhi⟩
    exact ⟨hlo, abs_le_largestDouble_of_lt (isPoint_round _ x) ((abs_round_le_of_inward hmode).trans_lt hhi)⟩
  · rintro ⟨hlo, hle⟩
    refine ⟨?_, hlo, ?_⟩
    · rintro (rfl | hmode)
      · exact hle.not_gt (largest_lt_abs_nearest_iff.2 hlo)
      · have := abs_le_abs_round_of_outward hmode
        have := halfStep_pos
        linarith
    · by_contra hlimit
      have := le_abs_round_of_le mode isPoint_limit_double (not_lt.1 hlimit)
      exact hle.not_gt (largestDouble_lt_limit.trans_le this)

/-! ## The test for overflow -/

/-- The overflow exception is raised. -/
def Outcome.Overflows (o : Outcome) : Prop :=
  o.raised ∩ .overflow = .overflow

theorem overflowed_overflows (negative : Bool) (mode : RoundingMode) :
    (overflowed .double negative mode).Overflows := by
  show (ExceptionSet.overflow ∪ .inexact) ∩ .overflow = .overflow
  decide

theorem overflowed_double (negative : Bool) (mode : RoundingMode) :
    (overflowed .double negative mode).double =
      if mode = .nearest ∨ mode.isOutward negative then .infinity negative
      else .finite negative (2 ^ 53 - 1) 971 := by
  cases negative <;> cases mode <;> decide

theorem underflowed_not_overflows (negative : Bool) (mode : RoundingMode) :
    ¬(underflowed .double negative mode).Overflows := by
  show ¬(ExceptionSet.underflow ∪ .inexact) ∩ .overflow = .overflow
  decide

/-- The exception is raised if the nearest double or the one that the mode makes of it is infinite. -/
theorem finishDouble_overflows_iff :
    (finishDouble mode r side).Overflows ↔ r.isInfinite ∨ (mode.adjust side r).isInfinite := by
  by_cases hr : r.isInfinite
  · have hfinish : finishDouble mode r side = overflowed .double r.isBelowZero mode := if_pos hr
    rw [hfinish]
    exact iff_of_true (overflowed_overflows _ _) (.inl hr)
  by_cases hv : (mode.adjust side r).isInfinite
  · have hfinish : finishDouble mode r side = overflowed .double (mode.adjust side r).isBelowZero mode :=
      (if_neg hr).trans (if_pos hv)
    rw [hfinish]
    exact iff_of_true (overflowed_overflows _ _) (.inr hv)
  · rw [finishDouble_finite (Bool.not_eq_true _ ▸ hr) (Bool.not_eq_true _ ▸ hv)]
    refine iff_of_false ?_ (not_or.2 ⟨hr, hv⟩)
    split_ifs
    · exact underflowed_not_overflows _ _
    · exact (by decide : (∅ : ExceptionSet) ∩ .overflow ≠ .overflow)
    · exact (by decide : ExceptionSet.inexact ∩ .overflow ≠ .overflow)

/-- Two steps short of infinity, no mode leads there. -/
theorem adjust_finite (mode : RoundingMode) (side : Side) (hat : Format.double.At r i)
    (hi : i.natAbs + 1 < Format.double.infinityMagnitude) : (mode.adjust side r).isInfinite = false := by
  have hr := isInfinite_of_lt hat (by omega)
  have hnext := isInfinite_of_lt (hat.next (by omega)) (by omega)
  have hprevious := isInfinite_of_lt (hat.previous (by omega)) (by omega)
  unfold RoundingMode.adjust RoundingMode.adjust.stepTowardZero
  split <;> try split_ifs
  all_goals assumption

/-- The datum is the nearest double to the number, infinity included. If that is the largest one, the side is the one
on which the number lies, or calls a number exact that is not beyond it. -/
structure Delimits (r : Datum) (side : Side) (x : ℝ) : Prop where
  nearest : ∃ i, Format.double.round .nearest x = Format.double.point i ∧
    Format.double.At r (Format.double.clamp i)
  last : |Format.double.round .nearest x| = largestDouble →
    Approximates r (Format.double.round .nearest x) side x ∨ side = .exact ∧ |x| ≤ largestDouble

namespace Delimits

variable (h : Delimits r side x)
include h

/-- **The test for overflow** of a finished result: its nearest double is beyond the largest one, or its rounding. -/
theorem overflows_iff (mode : RoundingMode) : (finishDouble mode r side).Overflows ↔
    largestDouble < |Format.double.round .nearest x| ∨ largestDouble < |Format.double.round mode x| := by
  obtain ⟨i, hround, hat⟩ := h.nearest
  have hinf := one_lt_infinityMagnitude (f := .double)
  rw [finishDouble_overflows_iff]
  rcases lt_trichotomy (i.natAbs + 1) Format.double.infinityMagnitude with hlt | heq | hgt
  · -- far enough from infinity
    rw [clamp_of_natAbs_le (by omega)] at hat
    have hnearest : |Format.double.round .nearest x| < largestDouble := by
      rw [hround, abs_point, ← size_largest_double, size_strictMono.lt_iff_lt]
      omega
    rw [isInfinite_of_lt hat (by omega), adjust_finite mode side hat hlt]
    simp [hnearest.le, abs_round_le_of_nearest_lt mode hnearest]
  · -- the largest double
    rw [clamp_of_natAbs_le (by omega)] at hat
    have hnearest : |Format.double.round .nearest x| = largestDouble := hround ▸ abs_eq_largestDouble heq
    rw [isInfinite_of_lt hat (by omega), hnearest]
    simp only [Bool.false_eq_true, lt_irrefl, false_or]
    rcases h.last hnearest with happrox | ⟨rfl, hx⟩
    · rw [hround] at happrox
      obtain ⟨j, hj, hat'⟩ := adjust_at mode hat (by omega) hround happrox
      have := hat'.1
      rw [hj, largestDouble_lt_abs_iff, hat'.isInfinite_iff]
      omega
    · have hmode : |Format.double.round mode x| ≤ largestDouble := abs_round_le_of_le isPoint_largestDouble hx
      rw [adjust_exact, isInfinite_of_lt hat (by omega)]
      simp [hmode]
  · -- infinite
    have hclamp : (Format.double.clamp i).natAbs = Format.double.infinityMagnitude := by
      unfold clamp
      omega
    rw [hat.isInfinite_iff.2 hclamp, hround, largestDouble_lt_abs_iff]
    exact iff_of_true (.inl rfl) (.inl (by omega))

/-- What is finished once the nearest double is infinite. -/
theorem finishDouble_eq (mode : RoundingMode) (hnearest : largestDouble < |Format.double.round .nearest x|) :
    finishDouble mode r side = overflowed .double (x < 0) mode := by
  obtain ⟨i, hround, hat⟩ := h.nearest
  have hinf := one_lt_infinityMagnitude (f := .double)
  have hi := largestDouble_lt_abs_iff.1 (hround ▸ hnearest)
  have hclamp : (Format.double.clamp i).natAbs = Format.double.infinityMagnitude ∧
      (Format.double.clamp i < 0 ↔ i < 0) := by
    unfold clamp
    omega
  have hneg : r.isBelowZero = decide (x < 0) := by
    rw [Bool.eq_iff_iff, hat.isBelowZero_iff, hclamp.2, decide_eq_true_eq]
    constructor
    · intro hlt
      by_contra hx
      have hnonneg := hround ▸ round_nonneg (f := .double) .nearest (not_lt.1 hx)
      rw [← point_zero (f := .double), point_strictMono.le_iff_le] at hnonneg
      omega
    · intro hx
      have hnonpos := hround ▸ round_nonpos (f := .double) .nearest hx.le
      rw [← point_zero (f := .double), point_strictMono.le_iff_le] at hnonpos
      omega
  have hfinish : finishDouble mode r side = overflowed .double r.isBelowZero mode :=
    if_pos (hat.isInfinite_iff.2 hclamp.1)
  rw [hfinish, hneg]

/-- A zero may get another sign. -/
theorem of_zero (hr : r.isZero) (hr' : Format.double.At r' 0) : Delimits r' side x := by
  obtain ⟨i, hround, hat⟩ := h.nearest
  have hinf := one_lt_infinityMagnitude (f := .double)
  have hclamp := hat.isZero_iff.1 hr
  obtain rfl : i = 0 := by
    unfold clamp at hclamp
    omega
  refine ⟨⟨0, hround, by rwa [hclamp]⟩, fun hlast => ?_⟩
  rw [hround, point_zero, abs_zero] at hlast
  exact absurd hlast largestDouble_pos.ne

end Delimits

/-! ## The operators -/

/-- The exact result of an operator. -/
noncomputable def BinaryOp.exact (op : BinaryOp) (u v : ℝ) : ℝ :=
  match op with
  | .add => u + v
  | .sub => u - v
  | .mul => u * v
  | .div => u / v

theorem largestDouble_lt_of_eq {y : ℝ} (hy : |y| = largestDouble) : |y| < 2 ^ (1024 : ℤ) :=
  hy ▸ largestDouble_lt_limit

/-- A sum beyond the largest double that is rounded to it is close enough to its first term. -/
theorem abs_round_sub_le_largest (hu : |u| ≤ largestDouble) (hv : |v| ≤ largestDouble)
    (hx : largestDouble < |u + v|) (hlast : |Format.double.round .nearest (u + v)| = largestDouble) :
    |Format.double.round .nearest (u + v) - u| ≤ largestDouble := by
  rw [abs_le] at hu hv ⊢
  rcases lt_abs.1 hx with hpos | hneg
  · rw [abs_of_nonneg (round_nonneg _ (by linarith [largestDouble_pos]))] at hlast
    constructor <;> linarith
  · rw [abs_of_nonpos (round_nonpos _ (by linarith [largestDouble_pos]))] at hlast
    constructor <;> linarith

theorem sum_delimits (ha : a.HasValue u) (hb : b.HasValue v) (hpu : Format.double.IsPoint u)
    (hpv : Format.double.IsPoint v) (hu : |u| ≤ largestDouble) (hv : |v| ≤ largestDouble) :
    Delimits (Format.double.add a b) (.ofResidual (sumError a b (Format.double.add a b))) (u + v) where
  nearest := add_at ha hb
  last := by
    intro hlast
    have hfinite := largestDouble_lt_of_eq hlast
    have hvalue := add_hasValue (f := .double) ha hb (by rwa [size_infinityMagnitude_double])
    rcases le_or_gt |u + v| largestDouble with hx | hx
    · obtain ⟨-, hlost, hkept⟩ := sum_side ha hb hpu hpv hu hv hx
      by_cases hover : Overruns u v
      · exact .inr ⟨hlost hover, hx⟩
      · exact .inl (.of_round hvalue (hkept hover))
    · have harrived : |Format.double.round .nearest (Format.double.round .nearest (u + v) - u)| ≤ largestDouble :=
        abs_round_le_of_le isPoint_largestDouble (abs_round_sub_le_largest hu hv hx hlast)
      exact .inl (.of_round hvalue (sumError_side ha hb hpu hpv (hu.trans_lt largestDouble_lt_limit)
        (hv.trans_lt largestDouble_lt_limit) hfinite (harrived.trans_lt largestDouble_lt_limit)))

/-- What is rounded to the largest double is large itself. -/
theorem le_abs_of_round_eq (hlast : |Format.double.round .nearest x| = largestDouble) : 2 ^ (1000 : ℤ) ≤ |x| := by
  have hle := abs_round_le (f := .double) x
  have hpos := halfStep_pos
  rw [hlast, largestDouble_eq] at hle
  calc (2 : ℝ) ^ (1000 : ℤ) = 2 ^ 30 * halfStep := zpow_eq_halfStep 30
    _ ≤ (2 ^ 53 - 1) * halfStep := mul_le_mul_of_nonneg_right (by norm_num) hpos.le
    _ ≤ |x| := by linarith

/-- The largest double is not zero. -/
theorem not_isZero_of_round_eq (hr : r.HasValue u) (hlast : |u| = largestDouble) : r.isZero = false := by
  rw [← Bool.not_eq_true, hr.isZero_iff]
  exact abs_pos.1 (hlast ▸ largestDouble_pos)

theorem product_delimits (ha : a.HasValue u) (hb : b.HasValue v) (hpu : Format.double.IsPoint u)
    (hpv : Format.double.IsPoint v) :
    Delimits (BinaryOp.mul.evaluate a b).1 (BinaryOp.mul.evaluate a b).2 (u * v) where
  nearest := by
    have hfirst : (BinaryOp.mul.evaluate a b).1 = Format.double.mul a b := by
      unfold BinaryOp.evaluate
      dsimp only
      split_ifs <;> rfl
    rw [hfirst]
    exact mul_at ha hb
  last := by
    intro hlast
    have hlarge : (2 : ℝ) ^ (-900 : ℤ) ≤ |u * v| :=
      (zpow_le_zpow_right₀ one_le_two (by norm_num)).trans (le_abs_of_round_eq hlast)
    have happrox := approximates_mul ha hb (largestDouble_lt_of_eq hlast) (onGrid_product hpu hpv hlarge)
    rw [evaluate_mul_of_ne]
    · exact .inl happrox
    · exact not_isZero_of_round_eq happrox.value hlast

theorem quotient_delimits (ha : a.HasValue u) (hb : b.HasValue v) (hpu : Format.double.IsPoint u)
    (hpv : Format.double.IsPoint v) (hv : leastNormalDouble ≤ |v|) :
    Delimits (BinaryOp.div.evaluate a b).1 (BinaryOp.div.evaluate a b).2 (u / v) := by
  have hne : v ≠ 0 := abs_pos.1 (leastNormalDouble_pos.trans_le hv)
  refine ⟨?_, fun hlast => ?_⟩
  · have hfirst : (BinaryOp.div.evaluate a b).1 = Format.double.div a b := by
      unfold BinaryOp.evaluate
      dsimp only
      split_ifs <;> rfl
    rw [hfirst]
    exact div_at ha hb hne
  · -- the quotient is so large that the dividend is not small
    have hlarge : (2 : ℝ) ^ (-900 : ℤ) ≤ |u| := by
      calc (2 : ℝ) ^ (-900 : ℤ) ≤ 2 ^ ((1000 : ℤ) + -1022) := zpow_le_zpow_right₀ one_le_two (by norm_num)
        _ = 2 ^ (1000 : ℤ) * leastNormalDouble := by rw [leastNormalDouble_eq, zpow_add₀ two_ne_zero]
        _ ≤ |u / v| * |v| := mul_le_mul (le_abs_of_round_eq hlast) hv leastNormalDouble_pos.le (abs_nonneg _)
        _ = |u| := by rw [← abs_mul, div_mul_cancel₀ _ hne]
    have happrox := approximates_div ha hb hne (largestDouble_lt_of_eq hlast) (onGrid_quotient hpu hpv hlarge hne)
    rw [evaluate_div_of_ne (not_isZero_of_round_eq happrox.value hlast)]
    exact .inl happrox

/-- Every operator, applied to normal doubles, knows enough of its exact result to detect overflow. -/
theorem evaluate_delimits (op : BinaryOp) (ha : a.HasValue u) (hb : b.HasValue v) (hpu : Format.double.IsPoint u)
    (hpv : Format.double.IsPoint v) (hu : |u| ≤ largestDouble) (hv : |v| ≤ largestDouble)
    (hmin : leastNormalDouble ≤ |v|) :
    Delimits (op.evaluate a b).1 (op.evaluate a b).2 (op.exact u v) := by
  cases op with
  | add => exact sum_delimits ha hb hpu hpv hu hv
  | sub =>
    have hdifference := sum_delimits ha hb.neg hpu hpv.neg hu ((abs_neg v).trans_le hv)
    rwa [← sub_eq_add_neg] at hdifference
  | mul => exact product_delimits ha hb hpu hpv
  | div => exact quotient_delimits ha hb hpu hpv hmin

/-- An addition, a subtraction, a multiplication or a division of two doubles. -/
structure DoubleArithmetic where
  /-- The operator. -/
  op : BinaryOp
  /-- The first operand. -/
  a : UInt64
  /-- The second operand. -/
  b : UInt64

namespace DoubleArithmetic

/-- What the unit makes of the operation. -/
def outcome (mode : RoundingMode) (o : DoubleArithmetic) : Outcome :=
  binary .double o.op mode o.a o.b

/-- The exact result. -/
noncomputable def exact (o : DoubleArithmetic) : ℝ :=
  o.op.exact (Precision.double.datum o.a).value (Precision.double.datum o.b).value

/-- Both operands are normal. -/
def Admissible (o : DoubleArithmetic) : Prop :=
  Precision.double.classify o.a = .normal ∧ Precision.double.classify o.b = .normal

/-- The unit finishes what delimits the exact result. -/
theorem exists_delimits {o : DoubleArithmetic} (h : o.Admissible) (mode : RoundingMode) :
    ∃ r side, o.outcome mode = finishDouble mode r side ∧ Delimits r side o.exact := by
  obtain ⟨hu, hpu, hule⟩ := datum_hasValue (.inl h.1)
  obtain ⟨hv, hpv, hvle⟩ := datum_hasValue (.inl h.2)
  have hdelimits := evaluate_delimits o.op hu hv hpu hpv hule hvle (leastNormalDouble_le_value h.2)
  obtain ⟨r, side, heval⟩ : ∃ r side, o.op.evaluate (Precision.double.datum o.a) (Precision.double.datum o.b) =
    (r, side) := ⟨_, _, rfl⟩
  rw [heval] at hdelimits
  have houtcome : o.outcome mode = _ :=
    binary_eq_finish (.inl h.1) (.inl h.2) (fun _ => value_ne_zero h.2) heval
  rw [houtcome]
  split_ifs with hzero
  · -- an exact zero gets its sign
    rw [Bool.and_eq_true, Bool.and_eq_true] at hzero
    obtain ⟨i, -, hat⟩ := hdelimits.nearest
    have hat0 := hat.isZero_iff.1 hzero.1.1 ▸ hat
    exact ⟨_, _, rfl, hdelimits.of_zero hzero.1.1 (zeroSum_at _ _ _ _ hat0)⟩
  · exact ⟨_, _, rfl, hdelimits⟩

end DoubleArithmetic

/-- The largest double is delivered for a number that spills. -/
theorem Spills.overflowed_hasValue (h : Spills mode x) :
    (overflowed .double (x < 0) mode).double.HasValue (Format.double.round mode x) ∧
      |Format.double.round mode x| = largestDouble := by
  have hlarge : largestDouble ≤ |x| := by linarith [h.2.1, halfStep_pos]
  have habs : |Format.double.round mode x| = largestDouble :=
    (spills_iff.1 h).2.antisymm (le_abs_round_of_le mode isPoint_largestDouble hlarge)
  have hvalue : (2 ^ 53 - 1 : ℕ) * (2 : ℝ) ^ (971 : ℤ) = largestDouble := by
    rw [largestDouble, Nat.cast_mul, Nat.cast_pow, ← zpow_natCast]
    norm_num
  refine ⟨?_, habs⟩
  rw [overflowed_double, if_neg h.1]
  have hfinite := Datum.hasValue_finite (decide (x < 0)) (2 ^ 53 - 1) 971
  rcases lt_or_ge x 0 with hx | hx
  · rw [abs_of_nonpos (round_nonpos mode hx.le)] at habs
    rw [decide_eq_true hx] at hfinite ⊢
    convert hfinite using 1
    rw [if_pos rfl, neg_mul, hvalue]
    linarith
  · rw [abs_of_nonneg (round_nonneg mode hx)] at habs
    rw [decide_eq_false hx.not_gt] at hfinite ⊢
    convert hfinite using 1
    rw [if_neg Bool.false_ne_true, hvalue, habs]

/-- **Overflow** is raised exactly for a result that is rounded beyond the largest double, except where the exact
result spills: there it is raised too, although what is delivered is the rounding, the largest double. -/
theorem overflows_unless_spills (o : DoubleArithmetic) (mode : RoundingMode) (h : o.Admissible) :
    (((o.outcome mode).Overflows ↔ largestDouble < |Format.double.round mode o.exact|) ↔ ¬Spills mode o.exact) ∧
      (Spills mode o.exact → (o.outcome mode).raised = .overflow ∪ .inexact ∧
        (o.outcome mode).double.HasValue (Format.double.round mode o.exact) ∧
        |Format.double.round mode o.exact| = largestDouble) := by
  obtain ⟨r, side, houtcome, hdelimits⟩ := DoubleArithmetic.exists_delimits h mode
  rw [houtcome]
  constructor
  · rw [hdelimits.overflows_iff, spills_iff, not_and, not_le, or_iff_right_iff_imp]
  · intro hspills
    rw [hdelimits.finishDouble_eq mode (spills_iff.1 hspills).1]
    exact ⟨rfl, hspills.overflowed_hasValue⟩

/-- The largest power of two, doubled. -/
def DoubleArithmetic.doubled : DoubleArithmetic := ⟨.mul, 0x7FE0000000000000, 0x4000000000000000⟩

theorem overflows_unless_spills_doubled : DoubleArithmetic.doubled.Admissible ∧
    DoubleArithmetic.doubled.outcome .nearest = ⟨0x7FF0000000000000, .overflow ∪ .inexact⟩ ∧
    largestDouble < |Format.double.round .nearest DoubleArithmetic.doubled.exact| := by
  have hadmissible : DoubleArithmetic.doubled.Admissible := ⟨by decide, by decide⟩
  have houtcome : DoubleArithmetic.doubled.outcome .nearest = ⟨0x7FF0000000000000, .overflow ∪ .inexact⟩ := by
    decide +kernel
  have hspills : ¬Spills .nearest DoubleArithmetic.doubled.exact := fun h => h.1 (.inl rfl)
  have hoverflows : (DoubleArithmetic.doubled.outcome .nearest).Overflows := by
    rw [houtcome]
    exact overflowed_overflows false .nearest
  exact ⟨hadmissible, houtcome, ((overflows_unless_spills _ .nearest hadmissible).1.2 hspills).1 hoverflows⟩

/-- The largest double and half of the spacing below it. -/
def DoubleArithmetic.largestAndHalf : DoubleArithmetic := ⟨.add, 0x7FEFFFFFFFFFFFFF, 0x7C90000000000000⟩

theorem DoubleArithmetic.exact_largestAndHalf : largestAndHalf.exact = largestDouble + halfStep := by
  have ha : Precision.double.datum 0x7FEFFFFFFFFFFFFF = .finite false (2 ^ 53 - 1) 971 := by decide
  have hb : Precision.double.datum 0x7C90000000000000 = .finite false (2 ^ 52) 918 := by decide
  have hstep : (2 : ℝ) ^ (970 : ℤ) = 2 ^ 52 * 2 ^ (918 : ℤ) := by
    rw [← zpow_natCast, ← zpow_add₀ two_ne_zero]
    rfl
  rw [largestAndHalf, exact, ha, hb, (Datum.hasValue_finite _ _ _).value_eq, (Datum.hasValue_finite _ _ _).value_eq,
    BinaryOp.exact, step_eq, largestDouble_eq, halfStep_eq, hstep]
  generalize (2 : ℝ) ^ (918 : ℤ) = q
  norm_num
  ring

/-- It is rounded toward zero to the largest double, and overflow is raised nevertheless. -/
theorem overflows_within_range : DoubleArithmetic.largestAndHalf.Admissible ∧
    DoubleArithmetic.largestAndHalf.outcome .towardZero = ⟨0x7FEFFFFFFFFFFFFF, .overflow ∪ .inexact⟩ ∧
    ¬((DoubleArithmetic.largestAndHalf.outcome .towardZero).Overflows ↔
      largestDouble < |Format.double.round .towardZero DoubleArithmetic.largestAndHalf.exact|) := by
  have houtcome : DoubleArithmetic.largestAndHalf.outcome .towardZero =
      ⟨0x7FEFFFFFFFFFFFFF, .overflow ∪ .inexact⟩ := by
    decide +kernel
  refine ⟨⟨by decide, by decide⟩, houtcome, fun hiff => ?_⟩
  have hoverflows : (DoubleArithmetic.largestAndHalf.outcome .towardZero).Overflows := by
    rw [houtcome]
    exact overflowed_overflows false .towardZero
  have hpos := halfStep_pos
  have habs : |largestDouble + halfStep| = (2 ^ 54 - 1) * halfStep := by
    rw [largestDouble_add_halfStep]
    exact abs_of_pos (mul_pos (by norm_num) hpos)
  have hspills : Spills .towardZero DoubleArithmetic.largestAndHalf.exact := by
    rw [DoubleArithmetic.exact_largestAndHalf]
    refine ⟨by simp [RoundingMode.isOutward], ?_, ?_⟩
    · exact le_abs_self _
    · rw [habs, doubleLimit_eq, limit_eq]
      linarith
  exact (spills_iff.1 hspills).2.not_gt (hiff.1 hoverflows)

end Vr4300.FloatingPoint
