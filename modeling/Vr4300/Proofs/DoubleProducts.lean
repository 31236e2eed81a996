import Vr4300.Proofs.DoubleSums

/-!
# Products, quotients and roots of doubles

A product, a quotient and a root in double precision are computed as the nearest double and the side on which the
exact result lies, like a sum. The side comes from a single fused residual. As long as neither the exact result nor
the operand that is divided or whose root is taken comes near the least doubles, the residual is exact or large
enough to keep its sign, and every mode gives the exact result rounded once.

## Contents

* `mul_at`, `div_at`, `sqrt_at`: the nearest double, infinity included.
* `Moderate`: the numbers that are away from both ends of the range.
* `MultiplicativeOperation`: the operations, with their exact results.
* `moderate_rounded_once`: they round once.
-/

namespace Vr4300.FloatingPoint

open Format

variable {x u v : ℝ} {r a b : Datum} {side : Side} {mode : RoundingMode}

/-! ## The nearest double -/

theorem mul_at (ha : a.HasValue u) (hb : b.HasValue v) :
    ∃ i, Format.double.round .nearest (u * v) = Format.double.point i ∧
      Format.double.At (Format.double.mul a b) (Format.double.clamp i) := by
  obtain ⟨s, m, e, rfl⟩ := ha.exists_finite
  obtain ⟨t, n, k, rfl⟩ := hb.exists_finite
  rw [← ha.toRat?_eq, ← hb.toRat?_eq, ← Rat.cast_mul]
  exact nearest_at _ _

theorem div_at (ha : a.HasValue u) (hb : b.HasValue v) (hv : v ≠ 0) :
    ∃ i, Format.double.round .nearest (u / v) = Format.double.point i ∧
      Format.double.At (Format.double.div a b) (Format.double.clamp i) := by
  have hzero := mt hb.isZero_iff.1 hv
  obtain ⟨s, m, e, rfl⟩ := ha.exists_finite
  obtain ⟨t, n, k, rfl⟩ := hb.exists_finite
  have hn : n ≠ 0 := by simpa [Datum.isZero] using hzero
  rw [← ha.toRat?_eq, ← hb.toRat?_eq, ← Rat.cast_div, div, if_neg hn]
  exact nearest_at _ _

theorem sqrt_at (ha : a.HasValue u) (hu : 0 < u) :
    ∃ i, Format.double.round .nearest √u = Format.double.point i ∧
      Format.double.At (Format.double.sqrt a) (Format.double.clamp i) := by
  have hzero := mt ha.isZero_iff.1 hu.ne'
  have hpos := ha.isNegative_of_pos hu
  obtain ⟨s, m, e, rfl⟩ := ha.exists_finite
  have hm : m ≠ 0 := by simpa [Datum.isZero] using hzero
  obtain rfl : s = false := hpos
  rw [← ha.toRat?_eq] at hu ⊢
  rw [Format.sqrt, if_neg hm]
  exact nearestSqrt_at (by exact_mod_cast hu)

/-! ## Results away from the ends of the range -/

/-- The number lies away from both ends of the range of doubles. -/
def Moderate (x : ℝ) : Prop :=
  ((2 ^ 900 : ℕ) : ℝ)⁻¹ ≤ |x| ∧ |x| ≤ (2 ^ 1000 : ℕ)

theorem moderate_iff : Moderate x ↔ 2 ^ (-900 : ℤ) ≤ |x| ∧ |x| ≤ 2 ^ (1000 : ℤ) := by
  have hlow : ((2 ^ 900 : ℕ) : ℝ)⁻¹ = 2 ^ (-900 : ℤ) := by
    rw [Nat.cast_pow, Nat.cast_ofNat, ← zpow_natCast, ← zpow_neg]
    rfl
  have hhigh : ((2 ^ 1000 : ℕ) : ℝ) = 2 ^ (1000 : ℤ) := by
    rw [Nat.cast_pow, Nat.cast_ofNat, ← zpow_natCast]
    rfl
  rw [Moderate, hlow, hhigh]

namespace Moderate

variable (h : Moderate x)
include h

theorem low : 2 ^ (-900 : ℤ) ≤ |x| := (moderate_iff.1 h).1

theorem leastNormal_le : leastNormalDouble ≤ |x| :=
  (leastNormalDouble_le_zpow (by norm_num)).trans h.low

theorem le_largest : |x| ≤ largestDouble := by
  refine (moderate_iff.1 h).2.trans ?_
  calc (2 : ℝ) ^ (1000 : ℤ) = 2 ^ 30 * halfStep := zpow_eq_halfStep 30
    _ ≤ (2 ^ 54 - 2) * halfStep := mul_le_mul_of_nonneg_right (by norm_num) halfStep_pos.le
    _ = largestDouble := largestDouble_eq.symm

theorem round_lt (mode : RoundingMode) : |Format.double.round mode x| < 2 ^ (1024 : ℤ) :=
  (abs_round_le_of_le isPoint_largestDouble h.le_largest).trans_lt largestDouble_lt_limit

theorem round_ne_zero (mode : RoundingMode) : Format.double.round mode x ≠ 0 := by
  have hle := le_abs_round_of_le mode isPoint_leastNormalDouble h.leastNormal_le
  exact abs_pos.1 (leastNormalDouble_pos.trans_le hle)

end Moderate

/-- The outcome is the rounding of `x` to a double: it has the one pattern that stands for it, and it is inexact if
the rounding changed the number. -/
def RoundsToDouble (mode : RoundingMode) (x : ℝ) (o : Outcome) : Prop :=
  (∀ bits, o.bits = bits ↔ (Precision.double.datum bits).HasValue (Format.double.round mode x)) ∧
    o.raised = if Format.double.round mode x = x then ∅ else .inexact

/-- **A result that is finished from an approximation** is the rounding, away from the ends of the range. -/
theorem finishDouble_moderate (mode : RoundingMode) (hx : Moderate x)
    (hat : ∃ i, Format.double.round .nearest x = Format.double.point i ∧
      Format.double.At r (Format.double.clamp i))
    (h : Approximates r (Format.double.round .nearest x) side x) :
    RoundsToDouble mode x (finishDouble mode r side) := by
  obtain ⟨i, hround, hat⟩ := hat
  rw [hround] at h
  have hi := abs_le_largestDouble_iff.1
    (hround ▸ abs_round_le_of_le isPoint_largestDouble hx.le_largest)
  rw [clamp_of_natAbs_le hi.le] at hat
  have hsmall (hlt : |x| < leastNormalDouble) : Format.double.IsPoint x :=
    absurd hx.leastNormal_le hlt.not_ge
  obtain ⟨hraised, hvalue, -⟩ :=
    (finishDouble_rounds mode hat hround h hx.le_largest hsmall).rounded (.inr hx.leastNormal_le)
  refine ⟨fun bits => ⟨?_, fun hbits => ?_⟩, hraised⟩
  · rintro rfl
    exact hvalue
  · have heq : (finishDouble mode r side).bits = (Outcome.mk bits ∅).bits :=
      Outcome.bits_eq hvalue hbits fun h0 => absurd h0 (hx.round_ne_zero mode)
    exact heq

/-! ## The operations -/

/-- A product, a quotient or a root of doubles. -/
inductive MultiplicativeOperation where
  /-- The product of two doubles. -/
  | product (a b : UInt64)
  /-- The quotient of two doubles. -/
  | quotient (a b : UInt64)
  /-- The root of a double. -/
  | root (a : UInt64)

namespace MultiplicativeOperation

/-- What the unit makes of the operation. -/
def outcome (mode : RoundingMode) : MultiplicativeOperation → Outcome
  | product a b => binary .double .mul mode a b
  | quotient a b => binary .double .div mode a b
  | root a => FloatingPoint.sqrt .double mode a

/-- The exact result. -/
noncomputable def exact : MultiplicativeOperation → ℝ
  | product a b => (Precision.double.datum a).value * (Precision.double.datum b).value
  | quotient a b => (Precision.double.datum a).value / (Precision.double.datum b).value
  | root a => √(Precision.double.datum a).value

/-- The operands are normal, and the exact result lies away from the ends of the range. So does the operand that is
divided or whose root is taken, which is positive. -/
def Admissible : MultiplicativeOperation → Prop
  | product a b => Precision.double.classify a = .normal ∧ Precision.double.classify b = .normal ∧
    Moderate (product a b).exact
  | quotient a b => Precision.double.classify a = .normal ∧ Precision.double.classify b = .normal ∧
    Moderate (quotient a b).exact ∧ Moderate (Precision.double.datum a).value
  | root a => Precision.double.classify a = .normal ∧ Moderate (root a).exact ∧
    Moderate (Precision.double.datum a).value ∧ 0 < (Precision.double.datum a).value

end MultiplicativeOperation

/-- A product that does not vanish is evaluated with its residual. -/
theorem evaluate_mul_of_ne (hr : (Format.double.mul a b).isZero = false) : BinaryOp.mul.evaluate a b =
    (Format.double.mul a b, .ofResidual (Format.double.fusedMulAdd a b (-Format.double.mul a b))) := by
  refine if_neg ?_
  rw [hr]
  exact Bool.false_ne_true

/-- A quotient that does not vanish is evaluated with its remainder. -/
theorem evaluate_div_of_ne (hr : (Format.double.div a b).isZero = false) : BinaryOp.div.evaluate a b =
    (Format.double.div a b,
      if b.isBelowZero then (Side.ofResidual (Format.double.fusedMulAdd (-Format.double.div a b) b a)).flip
      else .ofResidual (Format.double.fusedMulAdd (-Format.double.div a b) b a)) := by
  refine if_neg ?_
  rw [hr]
  exact Bool.false_ne_true

/-- An approximation of a number in the normal range does not vanish. -/
theorem isZero_of_moderate (hx : Moderate x) (h : Approximates r (Format.double.round .nearest x) side x) :
    r.isZero = false := by
  rw [← Bool.not_eq_true, h.value.isZero_iff]
  exact hx.round_ne_zero .nearest

/-- A normal double is not below the least one. -/
theorem leastNormalDouble_le_value {bits : UInt64} (h : Precision.double.classify bits = .normal) :
    leastNormalDouble ≤ |(Precision.double.datum bits).value| := by
  have hordinary : Precision.double.IsOrdinary bits := .inl h
  obtain ⟨i, hat, hlt, hmin, hzero⟩ := hordinary.at
  have hi : i ≠ 0 := by
    rw [ne_eq, ← hzero, h]
    exact Bool.false_ne_true
  have hvalue : (Precision.double.datum bits).HasValue (Format.double.point i) := hat.hasValue hlt
  rw [hvalue.value_eq]
  exact leastNormalDouble_le_abs_iff.2 (hmin.resolve_left hi)

theorem value_ne_zero {bits : UInt64} (h : Precision.double.classify bits = .normal) :
    (Precision.double.datum bits).value ≠ 0 :=
  abs_pos.1 (leastNormalDouble_pos.trans_le (leastNormalDouble_le_value h))

/-- **A product** away from the ends of the range is rounded once. -/
theorem product_rounded {p q : UInt64} (mode : RoundingMode) (hp : Precision.double.classify p = .normal)
    (hq : Precision.double.classify q = .normal) (hx : Moderate (MultiplicativeOperation.product p q).exact) :
    RoundsToDouble mode (MultiplicativeOperation.product p q).exact (binary .double .mul mode p q) := by
  obtain ⟨hu, hpu, -⟩ := datum_hasValue (.inl hp)
  obtain ⟨hv, hpv, -⟩ := datum_hasValue (.inl hq)
  have happrox := approximates_mul hu hv (hx.round_lt .nearest) (onGrid_product hpu hpv hx.low)
  have heval := evaluate_mul_of_ne (isZero_of_moderate hx happrox)
  have hfinish : binary .double .mul mode p q = _ :=
    binary_eq_finish (.inl hp) (.inl hq) (fun h => by cases h) heval
  rw [isZero_of_moderate hx happrox] at hfinish
  rw [hfinish]
  exact finishDouble_moderate mode hx (mul_at hu hv) happrox

/-- **A quotient** away from the ends of the range is rounded once. -/
theorem quotient_rounded {p q : UInt64} (mode : RoundingMode) (hp : Precision.double.classify p = .normal)
    (hq : Precision.double.classify q = .normal) (hx : Moderate (MultiplicativeOperation.quotient p q).exact)
    (hp' : Moderate (Precision.double.datum p).value) :
    RoundsToDouble mode (MultiplicativeOperation.quotient p q).exact (binary .double .div mode p q) := by
  obtain ⟨hu, hpu, -⟩ := datum_hasValue (.inl hp)
  obtain ⟨hv, hpv, -⟩ := datum_hasValue (.inl hq)
  have hne := value_ne_zero hq
  have happrox := approximates_div hu hv hne (hx.round_lt .nearest) (onGrid_quotient hpu hpv hp'.low hne)
  have heval := evaluate_div_of_ne (isZero_of_moderate hx happrox)
  have hfinish : binary .double .div mode p q = _ := binary_eq_finish (.inl hp) (.inl hq) (fun _ => hne) heval
  rw [isZero_of_moderate hx happrox] at hfinish
  rw [hfinish]
  exact finishDouble_moderate mode hx (div_at hu hv hne) happrox

/-- **A root** of a number away from the ends of the range is rounded once. -/
theorem root_rounded {p : UInt64} (mode : RoundingMode) (hp : Precision.double.classify p = .normal)
    (hx : Moderate (MultiplicativeOperation.root p).exact) (hp' : Moderate (Precision.double.datum p).value)
    (hpos : 0 < (Precision.double.datum p).value) :
    RoundsToDouble mode (MultiplicativeOperation.root p).exact (FloatingPoint.sqrt .double mode p) := by
  obtain ⟨hu, hpu, -⟩ := datum_hasValue (.inl hp)
  have hlow : 2 ^ (-900 : ℤ) ≤ (Precision.double.datum p).value := abs_of_pos hpos ▸ hp'.low
  have happrox := approximates_sqrt hu hpos (hx.round_lt .nearest) (onGrid_root hpu hlow)
  have hfinish : FloatingPoint.sqrt .double mode p = finishDouble mode (Format.double.sqrt (Precision.double.datum p))
      (.ofResidual (Format.double.fusedMulAdd (-Format.double.sqrt (Precision.double.datum p))
        (Format.double.sqrt (Precision.double.datum p)) (Precision.double.datum p))) := by
    unfold FloatingPoint.sqrt
    rw [screen?_eq_none (.inl hp), hp]
    dsimp only
    rw [hu.isNegative_of_pos hpos]
    rfl
  rw [hfinish]
  exact finishDouble_moderate mode hx (sqrt_at hu hpos) happrox

/-- **Products, quotients and roots** of normal doubles, away from the underflow range and from the limit, are the
exact results rounded once, in every mode. -/
theorem moderate_rounded_once (o : MultiplicativeOperation) (mode : RoundingMode) (h : o.Admissible) :
    (∀ bits, (o.outcome mode).bits = bits ↔
      (Precision.double.datum bits).HasValue (Format.double.round mode o.exact)) ∧
    (o.outcome mode).raised = if Format.double.round mode o.exact = o.exact then ∅ else .inexact := by
  cases o with
  | product p q => exact product_rounded mode h.1 h.2.1 h.2.2
  | quotient p q => exact quotient_rounded mode h.1 h.2.1 h.2.2.1 h.2.2.2
  | root p => exact root_rounded mode h.1 h.2.1 h.2.2.1 h.2.2.2

/-- One divided by minus three. -/
def MultiplicativeOperation.minusThird : MultiplicativeOperation := .quotient 0x3FF0000000000000 0xC008000000000000

theorem MultiplicativeOperation.exact_minusThird : minusThird.exact = -1 / 3 := by
  have ha : Precision.double.datum 0x3FF0000000000000 = .finite false (2 ^ 52) (-52) := by decide
  have hb : Precision.double.datum 0xC008000000000000 = .finite true (3 * 2 ^ 51) (-51) := by decide
  rw [minusThird, exact, ha, hb, (Datum.hasValue_finite _ _ _).value_eq, (Datum.hasValue_finite _ _ _).value_eq]
  norm_num

theorem moderate_rounded_once_minusThird : MultiplicativeOperation.minusThird.Admissible ∧
    MultiplicativeOperation.minusThird.outcome .downward = ⟨0xBFD5555555555556, .inexact⟩ ∧
    (Precision.double.datum 0xBFD5555555555556).HasValue (Format.double.round .downward (-1 / 3)) := by
  have hone : Precision.double.datum 0x3FF0000000000000 = .finite false (2 ^ 52) (-52) := by decide
  have hmoderate {x : ℝ} (hlow : 1 / 4 ≤ |x|) (hhigh : |x| ≤ 1) : Moderate x := by
    refine moderate_iff.2 ⟨le_trans ?_ hlow, hhigh.trans (one_le_zpow₀ one_le_two (by norm_num))⟩
    calc (2 : ℝ) ^ (-900 : ℤ) ≤ 2 ^ (-2 : ℤ) := zpow_le_zpow_right₀ one_le_two (by norm_num)
      _ = 1 / 4 := by norm_num
  have hadmissible : MultiplicativeOperation.minusThird.Admissible := by
    refine ⟨by decide, by decide, hmoderate ?_ ?_, hmoderate ?_ ?_⟩
    · rw [← MultiplicativeOperation.minusThird, MultiplicativeOperation.exact_minusThird]
      norm_num [abs_div]
    · rw [← MultiplicativeOperation.minusThird, MultiplicativeOperation.exact_minusThird]
      norm_num [abs_div]
    · rw [hone, (Datum.hasValue_finite _ _ _).value_eq]
      norm_num
    · rw [hone, (Datum.hasValue_finite _ _ _).value_eq]
      norm_num
  have houtcome : MultiplicativeOperation.minusThird.outcome .downward = ⟨0xBFD5555555555556, .inexact⟩ := by
    decide +kernel
  have hrounded := (moderate_rounded_once MultiplicativeOperation.minusThird .downward hadmissible).1
  rw [houtcome, MultiplicativeOperation.exact_minusThird] at hrounded
  exact ⟨hadmissible, houtcome, (hrounded _).1 rfl⟩

end Vr4300.FloatingPoint
