import Vr4300.Proofs.NearestRounding
import Vr4300.Proofs.TwoSum

/-!
# The sign of a residual

An operation in double precision returns the nearest double and looks at a residual, computed with the same
arithmetic, for the side on which the exact result lies. As long as nothing leaves the range of the format,
rounded operations have the values that the specification gives, and the residuals have the sign of the
difference between the exact result and the rounded one.

## Contents

* `add_hasValue`, `mul_hasValue`, `div_hasValue`, `sqrt_hasValue`: the value of an operation.
* `sumError_hasValue`, `sumError_side`: the residual of a sum.
* `fusedMulAdd_side`: the residual of a product, a quotient or a root.
-/

namespace Vr4300.FloatingPoint

open Format

namespace Datum

variable {d : Datum} {u : ℝ}

theorem HasValue.toRat?_eq (h : d.HasValue u) : ((d.toRat?.getD 0 : ℚ) : ℝ) = u := by
  obtain ⟨x, hx, rfl⟩ := h
  rw [hx]
  rfl

end Datum

namespace Format

variable {f : Format} [f.Proper] {a b c : Datum} {u v w : ℝ}

/-! ## Values of operations -/

theorem add_hasValue (ha : a.HasValue u) (hb : b.HasValue v)
    (hfinite : |f.round .nearest (u + v)| < f.size f.infinityMagnitude) :
    (f.add a b).HasValue (f.round .nearest (u + v)) := by
  obtain ⟨s, m, e, rfl⟩ := ha.exists_finite
  obtain ⟨t, n, k, rfl⟩ := hb.exists_finite
  rw [← ha.toRat?_eq, ← hb.toRat?_eq, ← Rat.cast_add] at hfinite ⊢
  exact nearest_hasValue _ hfinite

theorem mul_hasValue (ha : a.HasValue u) (hb : b.HasValue v)
    (hfinite : |f.round .nearest (u * v)| < f.size f.infinityMagnitude) :
    (f.mul a b).HasValue (f.round .nearest (u * v)) := by
  obtain ⟨s, m, e, rfl⟩ := ha.exists_finite
  obtain ⟨t, n, k, rfl⟩ := hb.exists_finite
  rw [← ha.toRat?_eq, ← hb.toRat?_eq, ← Rat.cast_mul] at hfinite ⊢
  exact nearest_hasValue _ hfinite

theorem div_hasValue (ha : a.HasValue u) (hb : b.HasValue v) (hv : v ≠ 0)
    (hfinite : |f.round .nearest (u / v)| < f.size f.infinityMagnitude) :
    (f.div a b).HasValue (f.round .nearest (u / v)) := by
  have hzero := mt hb.isZero_iff.1 hv
  obtain ⟨s, m, e, rfl⟩ := ha.exists_finite
  obtain ⟨t, n, k, rfl⟩ := hb.exists_finite
  have hn : n ≠ 0 := by simpa [Datum.isZero] using hzero
  rw [← ha.toRat?_eq, ← hb.toRat?_eq, ← Rat.cast_div] at hfinite ⊢
  rw [div, if_neg hn]
  exact nearest_hasValue _ hfinite

omit [f.Proper] in
theorem sqrt_hasValue (ha : a.HasValue u) (hu : 0 < u)
    (hfinite : |f.round .nearest √u| < f.size f.infinityMagnitude) :
    (f.sqrt a).HasValue (f.round .nearest √u) := by
  have hzero := mt ha.isZero_iff.1 hu.ne'
  have hpos := ha.isNegative_of_pos hu
  obtain ⟨s, m, e, rfl⟩ := ha.exists_finite
  have hm : m ≠ 0 := by simpa [Datum.isZero] using hzero
  obtain rfl : s = false := hpos
  rw [← ha.toRat?_eq] at hfinite hu ⊢
  rw [sqrt, if_neg hm]
  exact hasValue_of_at (nearestSqrt_at (by exact_mod_cast hu)) hfinite

/-! ## Residuals -/

theorem fusedMulAdd_side (ha : a.HasValue u) (hb : b.HasValue v) (hc : c.HasValue w)
    (hsize : u * v + w = 0 ∨ 2 ^ f.unit ≤ |u * v + w|) :
    Side.ofResidual (f.fusedMulAdd a b c) = .ofSign (u * v + w) := by
  obtain ⟨s, m, e, rfl⟩ := ha.exists_finite
  obtain ⟨t, n, k, rfl⟩ := hb.exists_finite
  obtain ⟨p, l, q, rfl⟩ := hc.exists_finite
  rw [← ha.toRat?_eq, ← hb.toRat?_eq, ← hc.toRat?_eq, ← Rat.cast_mul, ← Rat.cast_add] at hsize ⊢
  exact ofResidual_nearest _ hsize

end Format

theorem size_infinityMagnitude_double :
    Format.double.size Format.double.infinityMagnitude = 2 ^ (1024 : ℤ) := by
  have h : Format.double.infinityMagnitude = 2046 * 2 ^ Format.double.fractionBits + 2 ^ 52 := by decide
  have hunit : Format.double.unit = -1074 := by decide
  rw [h, size_block (by decide) (.inr (by decide)), hunit]
  calc ((2 ^ 52 : ℕ) : ℝ) * 2 ^ (-1074 + ((2046 : ℕ) : ℤ)) = 2 ^ (52 : ℤ) * 2 ^ (972 : ℤ) := by norm_num
    _ = 2 ^ (1024 : ℤ) := by rw [← zpow_add₀ two_ne_zero]; rfl

variable {a b : Datum} {u v x : ℝ} {k : ℤ}

/-- A number of moderate size is rounded to a finite double. -/
theorem abs_round_lt (hx : |x| ≤ 2 ^ k) (hk : k ≤ 1022) :
    |Format.double.round .nearest x| < Format.double.size Format.double.infinityMagnitude := by
  rw [size_infinityMagnitude_double]
  calc |Format.double.round .nearest x| ≤ 2 * |x| := abs_round_le _
    _ ≤ 2 * 2 ^ k := by gcongr
    _ = 2 ^ (k + 1) := by rw [zpow_add_one₀ two_ne_zero, mul_comm]
    _ < 2 ^ (1024 : ℤ) := zpow_lt_zpow_right₀ one_lt_two (by omega)

/-- The sum of two numbers of moderate size, and a bound for it. -/
theorem add_hasValue_of_le (ha : a.HasValue u) (hb : b.HasValue v) (hu : |u| ≤ 2 ^ k) (hv : |v| ≤ 2 ^ k)
    (hk : k ≤ 1020) : (Format.double.add a b).HasValue (Format.double.round .nearest (u + v)) ∧
      |Format.double.round .nearest (u + v)| ≤ 2 ^ (k + 2) := by
  have hsum : |u + v| ≤ 2 ^ (k + 1) := by
    calc |u + v| ≤ |u| + |v| := abs_add_le _ _
      _ ≤ 2 ^ k + 2 ^ k := by gcongr
      _ = 2 ^ (k + 1) := by rw [zpow_add_one₀ two_ne_zero, mul_two]
  refine ⟨add_hasValue ha hb (abs_round_lt hsum (by omega)), ?_⟩
  calc |Format.double.round .nearest (u + v)| ≤ 2 * |u + v| := abs_round_le _
    _ ≤ 2 * 2 ^ (k + 1) := by gcongr
    _ = 2 ^ (k + 2) := by
        rw [← zpow_one_add₀ two_ne_zero]
        congr 1
        ring

theorem sub_hasValue_of_le (ha : a.HasValue u) (hb : b.HasValue v) (hu : |u| ≤ 2 ^ k) (hv : |v| ≤ 2 ^ k)
    (hk : k ≤ 1020) : (Format.double.sub a b).HasValue (Format.double.round .nearest (u - v)) ∧
      |Format.double.round .nearest (u - v)| ≤ 2 ^ (k + 2) := by
  rw [sub_eq_add_neg]
  exact add_hasValue_of_le ha hb.neg hu (by rwa [abs_neg]) hk

/-- A sum that is a point itself, and below infinity in size, is computed exactly. -/
theorem add_hasValue_of_isPoint (ha : a.HasValue u) (hb : b.HasValue v) (hpoint : Format.double.IsPoint (u + v))
    (hlt : |u + v| < 2 ^ (1024 : ℤ)) : (Format.double.add a b).HasValue (u + v) := by
  have hround := hpoint.round_eq .nearest
  have := add_hasValue (f := .double) ha hb (by rwa [hround, size_infinityMagnitude_double])
  rwa [hround] at this

theorem sub_hasValue_of_isPoint (ha : a.HasValue u) (hb : b.HasValue v) (hpoint : Format.double.IsPoint (u - v))
    (hlt : |u - v| < 2 ^ (1024 : ℤ)) : (Format.double.sub a b).HasValue (u - v) := by
  rw [sub_eq_add_neg] at *
  exact add_hasValue_of_isPoint ha hb.neg hpoint hlt

/-- The computed error of a sum is the error, if neither the sum nor its difference to the first term leaves the
finite range. -/
theorem sumError_hasValue (ha : a.HasValue u) (hb : b.HasValue v) (hpu : Format.double.IsPoint u)
    (hpv : Format.double.IsPoint v) (hu : |u| < 2 ^ (1024 : ℤ)) (hv : |v| < 2 ^ (1024 : ℤ))
    (hs : |Format.double.round .nearest (u + v)| < 2 ^ (1024 : ℤ))
    (hb' : |Format.double.round .nearest (Format.double.round .nearest (u + v) - u)| < 2 ^ (1024 : ℤ)) :
    (sumError a b (Format.double.add a b)).HasValue (u + v - Format.double.round .nearest (u + v)) := by
  have hparts := parts_of_isPoint hpu hpv
  obtain ⟨hrest, hlost, hmissed, herror⟩ := parts_lt hpu hpv hu hv rfl rfl
  have hsum := add_hasValue (f := .double) ha hb (by rwa [size_infinityMagnitude_double])
  have harrived : (Format.double.sub (Format.double.add a b) a).HasValue
      (Format.double.round .nearest (Format.double.round .nearest (u + v) - u)) := by
    rw [sub_eq_add_neg] at hb' ⊢
    exact add_hasValue (f := .double) hsum ha.neg (by rwa [size_infinityMagnitude_double])
  generalize Format.double.round .nearest (u + v) = s at *
  generalize Format.double.round .nearest (s - u) = v' at *
  have hlost' : v' - (s - u) = u - (s - v') := by ring
  have herror' : u + v - s = u - (s - v') + (v - v') := by ring
  rw [hlost'] at hlost
  rw [herror'] at herror ⊢
  have hfirst := sub_hasValue_of_isPoint ha (sub_hasValue_of_isPoint hsum harrived hparts.rest hrest)
    (hlost' ▸ hparts.lost) hlost
  have hsecond := sub_hasValue_of_isPoint hb harrived hparts.missed hmissed
  exact add_hasValue_of_isPoint hfirst hsecond (herror' ▸ hparts.error) herror

/-- So it points to the side of the rounded sum on which the exact one lies. -/
theorem sumError_side (ha : a.HasValue u) (hb : b.HasValue v) (hpu : Format.double.IsPoint u)
    (hpv : Format.double.IsPoint v) (hu : |u| < 2 ^ (1024 : ℤ)) (hv : |v| < 2 ^ (1024 : ℤ))
    (hs : |Format.double.round .nearest (u + v)| < 2 ^ (1024 : ℤ))
    (hb' : |Format.double.round .nearest (Format.double.round .nearest (u + v) - u)| < 2 ^ (1024 : ℤ)) :
    Side.ofResidual (sumError a b (Format.double.add a b)) =
      .ofSign (u + v - Format.double.round .nearest (u + v)) :=
  (sumError_hasValue ha hb hpu hpv hu hv hs hb').ofResidual_eq

/-- For terms of moderate size nothing leaves the range. -/
theorem sumError_side_of_le (ha : a.HasValue u) (hb : b.HasValue v) (hpu : Format.double.IsPoint u)
    (hpv : Format.double.IsPoint v) (hu : |u| ≤ 2 ^ k) (hv : |v| ≤ 2 ^ k) (hk : k ≤ 1000) :
    Side.ofResidual (sumError a b (Format.double.add a b)) =
      .ofSign (u + v - Format.double.round .nearest (u + v)) := by
  have hlt : ∀ {x : ℝ} {j : ℤ}, |x| ≤ 2 ^ j → j < 1024 → |x| < 2 ^ (1024 : ℤ) := fun h hj =>
    h.trans_lt (zpow_lt_zpow_right₀ one_lt_two hj)
  obtain ⟨hs, hs'⟩ := add_hasValue_of_le ha hb hu hv (by omega)
  have hu' : |u| ≤ 2 ^ (k + 2) := hu.trans (zpow_le_zpow_right₀ one_le_two (by omega))
  obtain ⟨-, hb'⟩ := sub_hasValue_of_le hs ha hs' hu' (by omega)
  exact sumError_side ha hb hpu hpv (hlt hu (by omega)) (hlt hv (by omega)) (hlt hs' (by omega))
    (hlt hb' (by omega))

end Vr4300.FloatingPoint
