import Vr4300.Proofs.Narrowing
import Vr4300.Proofs.Residuals

/-!
# What a product, a quotient and a root leave over

A product, a quotient or a square root of doubles is rounded to nearest, and a fused residual tells on which side of
it the exact result lies: the product less its rounding, the remainder of the division, the operand less the square
of its root. The residual is a multiple of a power of two that the operands give. Unless that power lies below the
least double, the residual keeps its sign when it is rounded itself, and the operation approximates its exact result.

## Contents

* `residual_size`, `onGrid_round_of_le`: the grid of a residual.
* `approximates_mul`, `approximates_div`, `approximates_sqrt`: the operations, given the grid of their residuals.
* `onGrid_product`, `onGrid_quotient`, `onGrid_root`: the grids, where the exact result and the first operand are not
  too small.
-/

namespace Vr4300.FloatingPoint

open Format

variable {a b : Datum} {u v x : ℝ}

theorem fractionBits_double : Format.double.fractionBits = 52 := by decide

/-! ## Grids -/

/-- What lies on the grid of the doubles is zero or not below the least of them. -/
theorem residual_size {e : ℤ} (he : -1074 ≤ e) (h : OnGrid e x) : x = 0 ∨ 2 ^ Format.double.unit ≤ |x| := by
  refine or_iff_not_imp_left.2 fun hx => le_trans ?_ (h.le_abs hx)
  rw [unit_double]
  exact zpow_le_zpow_right₀ one_le_two he

/-- A rounded number is on the grid that its size gives. -/
theorem onGrid_round_of_le {k : ℤ} (hx : 2 ^ k ≤ |x|) : OnGrid (k - 52) (Format.double.round .nearest x) := by
  refine OnGrid.of_le ⟨_, rfl⟩ ?_
  have hpos : 0 < |x| := lt_of_lt_of_le (by positivity) hx
  have hlog : k ≤ Int.log 2 |x| := (Int.zpow_le_iff_le_log one_lt_two hpos).1 (by exact_mod_cast hx)
  have : Int.log 2 |x| - (Format.double.fractionBits : ℤ) ≤ Format.double.quantum (Int.log 2 |x|) :=
    le_max_right _ _
  rw [fractionBits_double] at this
  push_cast at this
  omega

/-- A double on the grid that its significand fills. -/
theorem exists_onGrid_double (hu : Format.double.IsPoint u) : ∃ e : ℤ, OnGrid e u ∧ |u| < 2 ^ (e + 53) := by
  obtain ⟨e, -, hgrid, hlt, -⟩ := hu.exists_onGrid
  rw [fractionBits_double, add_assoc] at hlt
  exact ⟨e, hgrid, hlt⟩

/-! ## The operations -/

/-- The side that the residual of a product gives. -/
theorem approximates_mul (ha : a.HasValue u) (hb : b.HasValue v)
    (hfinite : |Format.double.round .nearest (u * v)| < 2 ^ (1024 : ℤ))
    (hgrid : OnGrid (-1074) (u * v - Format.double.round .nearest (u * v))) :
    Approximates (Format.double.mul a b) (Format.double.round .nearest (u * v))
      (.ofResidual (Format.double.fusedMulAdd a b (-Format.double.mul a b))) (u * v) := by
  have hvalue := mul_hasValue (f := .double) ha hb (by rwa [size_infinityMagnitude_double])
  have hside := fusedMulAdd_side (f := .double) ha hb hvalue.neg (residual_size le_rfl hgrid)
  exact .of_round hvalue hside

/-- The side that the remainder of a division gives. -/
theorem approximates_div (ha : a.HasValue u) (hb : b.HasValue v) (hv : v ≠ 0)
    (hfinite : |Format.double.round .nearest (u / v)| < 2 ^ (1024 : ℤ))
    (hgrid : OnGrid (-1074) (-Format.double.round .nearest (u / v) * v + u)) :
    Approximates (Format.double.div a b) (Format.double.round .nearest (u / v))
      (if b.isBelowZero then (Side.ofResidual (Format.double.fusedMulAdd (-Format.double.div a b) b a)).flip
        else .ofResidual (Format.double.fusedMulAdd (-Format.double.div a b) b a)) (u / v) := by
  have hvalue := div_hasValue (f := .double) ha hb hv (by rwa [size_infinityMagnitude_double])
  have hside := fusedMulAdd_side (f := .double) hvalue.neg hb ha (residual_size le_rfl hgrid)
  have hfactor : -Format.double.round .nearest (u / v) * v + u =
      v * (u / v - Format.double.round .nearest (u / v)) := by
    field_simp
    ring
  refine .of_round hvalue ?_
  rw [hside, hfactor]
  split_ifs with hneg
  · have hv' : 0 < -v := by linarith [hb.isBelowZero_iff.1 hneg]
    rw [← Side.ofSign_neg, ← neg_mul, Side.ofSign_mul_of_pos hv']
  · have hv' : 0 < v := lt_of_le_of_ne (not_lt.1 (mt hb.isBelowZero_iff.2 hneg)) hv.symm
    rw [Side.ofSign_mul_of_pos hv']

/-- The side that the square of a root gives. -/
theorem approximates_sqrt (ha : a.HasValue u) (hu : 0 < u)
    (hfinite : |Format.double.round .nearest √u| < 2 ^ (1024 : ℤ))
    (hgrid : OnGrid (-1074) (-Format.double.round .nearest √u * Format.double.round .nearest √u + u)) :
    Approximates (Format.double.sqrt a) (Format.double.round .nearest √u)
      (.ofResidual (Format.double.fusedMulAdd (-Format.double.sqrt a) (Format.double.sqrt a) a)) √u := by
  have hroot : 0 < √u := Real.sqrt_pos.2 hu
  have hvalue := sqrt_hasValue (f := .double) ha hu (by rwa [size_infinityMagnitude_double])
  have hside := fusedMulAdd_side (f := .double) hvalue.neg hvalue ha (residual_size le_rfl hgrid)
  have hnonneg : 0 ≤ Format.double.round .nearest √u := round_nonneg _ hroot.le
  have hfactor : -Format.double.round .nearest √u * Format.double.round .nearest √u + u =
      (√u + Format.double.round .nearest √u) * (√u - Format.double.round .nearest √u) := by
    have hsq := Real.mul_self_sqrt hu.le
    calc _ = √u * √u - Format.double.round .nearest √u * Format.double.round .nearest √u := by
          rw [hsq]
          ring
      _ = _ := by ring
  refine .of_round hvalue ?_
  rw [hside, hfactor, Side.ofSign_mul_of_pos (by linarith)]

/-! ## Operands that are not too small -/

/-- A double of some size is on the grid that its last significand bit gives there. -/
theorem onGrid_of_le {k : ℤ} (hu : Format.double.IsPoint u) (hk : 2 ^ k ≤ |u|) : OnGrid (k - 52) u := by
  have h := onGrid_round_of_le hk
  rwa [hu.round_eq] at h

/-- The residual of a product of doubles. -/
theorem onGrid_product (hu : Format.double.IsPoint u) (hv : Format.double.IsPoint v)
    (hx : 2 ^ (-900 : ℤ) ≤ |u * v|) : OnGrid (-1074) (u * v - Format.double.round .nearest (u * v)) := by
  obtain ⟨e, hue, hult⟩ := exists_onGrid_double hu
  obtain ⟨k, hvk, hvlt⟩ := exists_onGrid_double hv
  have hproduct : OnGrid (e + k) (u * v) := hue.mul hvk
  have hsize : (2 : ℝ) ^ (-900 : ℤ) < 2 ^ (e + 53 + (k + 53)) := by
    calc (2 : ℝ) ^ (-900 : ℤ) ≤ |u * v| := hx
      _ = |u| * |v| := abs_mul u v
      _ < 2 ^ (e + 53) * 2 ^ (k + 53) := mul_lt_mul'' hult hvlt (abs_nonneg u) (abs_nonneg v)
      _ = 2 ^ (e + 53 + (k + 53)) := (zpow_add₀ two_ne_zero _ _).symm
  have hexponent := (zpow_lt_zpow_iff_right₀ one_lt_two).1 hsize
  exact (hproduct.sub (onGrid_round _ hproduct)).of_le (by omega)

/-- The remainder of a division of doubles. -/
theorem onGrid_quotient (hu : Format.double.IsPoint u) (hv : Format.double.IsPoint v)
    (hulo : 2 ^ (-900 : ℤ) ≤ |u|) (hv0 : v ≠ 0) :
    OnGrid (-1074) (-Format.double.round .nearest (u / v) * v + u) := by
  have hvpos : 0 < |v| := abs_pos.2 hv0
  have hupos : 0 < |u| := lt_of_lt_of_le (by positivity) hulo
  obtain ⟨k, hvk, hvlt⟩ := exists_onGrid_double hv
  have hxpos : 0 < |u / v| := by
    rw [abs_div]
    positivity
  -- the powers of two around the quotient
  have hx : (2 : ℝ) ^ Int.log 2 |u / v| ≤ |u / v| := by
    exact_mod_cast Int.zpow_log_le_self one_lt_two hxpos
  have hlt : |u / v| < 2 ^ (Int.log 2 |u / v| + 1) := by
    exact_mod_cast Int.lt_zpow_succ_log_self one_lt_two |u / v|
  have hsize : (2 : ℝ) ^ (-900 : ℤ) < 2 ^ (Int.log 2 |u / v| + 1 + (k + 53)) := by
    calc (2 : ℝ) ^ (-900 : ℤ) ≤ |u| := hulo
      _ = |u / v| * |v| := by rw [abs_div, div_mul_cancel₀ _ hvpos.ne']
      _ < 2 ^ (Int.log 2 |u / v| + 1) * 2 ^ (k + 53) := mul_lt_mul'' hlt hvlt (abs_nonneg _) (abs_nonneg v)
      _ = 2 ^ (Int.log 2 |u / v| + 1 + (k + 53)) := (zpow_add₀ two_ne_zero _ _).symm
  have hexponent := (zpow_lt_zpow_iff_right₀ one_lt_two).1 hsize
  exact (((onGrid_round_of_le hx).neg.mul hvk).of_le (by omega)).add
    ((onGrid_of_le hu hulo).of_le (by norm_num))

/-- What the square of a rounded root leaves of a double. -/
theorem onGrid_root (hu : Format.double.IsPoint u) (hulo : 2 ^ (-900 : ℤ) ≤ u) :
    OnGrid (-1074) (-Format.double.round .nearest √u * Format.double.round .nearest √u + u) := by
  have hroot : (2 : ℝ) ^ (-450 : ℤ) ≤ |√u| := by
    rw [abs_of_nonneg (Real.sqrt_nonneg u)]
    refine Real.le_sqrt_of_sq_le (le_trans (le_of_eq ?_) hulo)
    rw [← zpow_natCast, ← zpow_mul]
    norm_num
  have hround := onGrid_round_of_le hroot
  exact ((hround.neg.mul hround).of_le (by norm_num)).add
    ((onGrid_of_le hu (hulo.trans (le_abs_self u))).of_le (by norm_num))

end Vr4300.FloatingPoint
