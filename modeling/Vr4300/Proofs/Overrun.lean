import Vr4300.Proofs.SingleOperations

/-!
# Where the residual of a sum is lost

The side of the rounded sum of two doubles on which the exact sum lies comes from a residual that is computed in
double precision too. It is right as long as no part of it leaves the finite range, and only the first part can:
the rounded sum less the first term. It does so where the second term is the largest double, the first one has the
other sign, and their sum lies in the middle between two doubles of the last block and is rounded away from the
first term. The residual is then not a number and points nowhere.

## Contents

* `largestDouble`, `leastNormalDouble`: the range. `halfStep`, `round_topBlock`: its last block.
* `Overruns`, `overruns_iff`: the operands for which the first part leaves the range.
* `sum_side`: the side that a residual gives.
-/

namespace Vr4300.FloatingPoint

open Format

/-! ## The largest doubles -/

/-- The largest finite double. -/
noncomputable def largestDouble : ℝ :=
  ((2 ^ 53 - 1) * 2 ^ 971 : ℕ)

/-- The least normal double. -/
noncomputable def leastNormalDouble : ℝ :=
  ((2 ^ 1022 : ℕ) : ℝ)⁻¹

/-- Half of the spacing of the last block of doubles. -/
noncomputable def halfStep : ℝ :=
  (2 ^ 970 : ℕ)

variable {x u v : ℝ}

theorem halfStep_pos : 0 < halfStep := by
  unfold halfStep
  positivity

theorem halfStep_eq : halfStep = 2 ^ (970 : ℤ) := by
  rw [halfStep, Nat.cast_pow, Nat.cast_ofNat, ← zpow_natCast]
  rfl

theorem leastNormalDouble_eq : leastNormalDouble = 2 ^ (-1022 : ℤ) := by
  rw [leastNormalDouble, Nat.cast_pow, Nat.cast_ofNat, ← zpow_natCast, ← zpow_neg]
  rfl

theorem leastNormalDouble_le_zpow {k : ℤ} (hk : -1022 ≤ k) : leastNormalDouble ≤ 2 ^ k := by
  rw [leastNormalDouble_eq]
  exact zpow_le_zpow_right₀ one_le_two hk

theorem zpow_eq_halfStep (k : ℕ) : (2 : ℝ) ^ (970 + (k : ℤ)) = 2 ^ k * halfStep := by
  rw [zpow_add₀ two_ne_zero, zpow_natCast, mul_comm, halfStep_eq]

theorem step_eq : (2 : ℝ) ^ (971 : ℤ) = 2 * halfStep := by
  simpa using zpow_eq_halfStep 1

theorem topBlock_eq : (2 : ℝ) ^ (1023 : ℤ) = 2 ^ 53 * halfStep := by
  simpa using zpow_eq_halfStep 53

theorem limit_eq : (2 : ℝ) ^ (1024 : ℤ) = 2 ^ 54 * halfStep := by
  simpa using zpow_eq_halfStep 54

theorem largestDouble_eq : largestDouble = (2 ^ 54 - 2) * halfStep := by
  have h : (2 ^ 53 - 1) * 2 ^ 971 = (2 ^ 54 - 2) * 2 ^ 970 := by
    rw [pow_succ 2 970]
    generalize 2 ^ 970 = q
    omega
  rw [largestDouble, h, Nat.cast_mul, ← halfStep]
  norm_num

theorem size_largest_double : Format.double.size (Format.double.infinityMagnitude - 1) = largestDouble := by
  have h : Format.double.infinityMagnitude - 1 = 2045 * 2 ^ Format.double.fractionBits + (2 ^ 53 - 1) := by
    decide
  rw [h, size_block (by decide) (.inr (by decide)), unit_double, largestDouble_eq,
    show (-1074 : ℤ) + (2045 : ℕ) = 971 by norm_num, step_eq]
  norm_num
  ring

theorem size_minNormal_double : Format.double.size Format.double.minNormalMagnitude = leastNormalDouble := by
  have h : Format.double.minNormalMagnitude = 0 * 2 ^ Format.double.fractionBits + 2 ^ 52 := by decide
  rw [h, size_block (by decide) (.inl rfl), unit_double, leastNormalDouble_eq, Nat.cast_pow, Nat.cast_ofNat,
    ← zpow_natCast, ← zpow_add₀ two_ne_zero]
  rfl

theorem isPoint_largestDouble : Format.double.IsPoint largestDouble :=
  ⟨_, by rw [← size_largest_double, point_natCast]⟩

theorem leastNormalDouble_pos : 0 < leastNormalDouble := by
  unfold leastNormalDouble
  positivity

theorem isPoint_leastNormalDouble : Format.double.IsPoint leastNormalDouble :=
  ⟨_, by rw [← size_minNormal_double, point_natCast]⟩

/-- Rounding does not lead past a double, toward zero either. -/
theorem le_abs_round_of_le (mode : RoundingMode) {D : ℝ} (hD : Format.double.IsPoint D) (hx : D ≤ |x|) :
    D ≤ |Format.double.round mode x| := by
  obtain ⟨i, rfl⟩ := hD
  rw [le_abs] at hx ⊢
  refine hx.imp (point_mono_round mode) fun h => ?_
  have := round_mono_point (f := .double) (i := -i) mode (x := x) (by rw [point_neg]; linarith)
  rw [point_neg] at this
  linarith

theorem abs_le_largestDouble_iff {i : ℤ} : |Format.double.point i| ≤ largestDouble ↔
    i.natAbs < Format.double.infinityMagnitude := by
  have := one_lt_infinityMagnitude (f := .double)
  rw [abs_point, ← size_largest_double, size_strictMono.le_iff_le]
  omega

theorem leastNormalDouble_le_abs_iff {i : ℤ} : leastNormalDouble ≤ |Format.double.point i| ↔
    Format.double.minNormalMagnitude ≤ i.natAbs := by
  rw [abs_point, ← size_minNormal_double, size_strictMono.le_iff_le]

theorem largestDouble_pos : 0 < largestDouble := by
  rw [largestDouble_eq]
  exact mul_pos (by norm_num) halfStep_pos

theorem largestDouble_lt_limit : largestDouble < 2 ^ (1024 : ℤ) := by
  have := halfStep_pos
  rw [largestDouble_eq, limit_eq]
  gcongr
  norm_num

/-- The rounding to nearest misses by half of the spacing at most. -/
theorem abs_round_sub_le_spacing (f : Format) (x : ℝ) : |f.round .nearest x - x| ≤ f.spacing x / 2 := by
  have hpos := spacing_pos (f := f) x
  have hinteger := RoundingMode.integer_nearest_eq_iff.1 (rfl : RoundingMode.nearest.integer (x / f.spacing x) = _)
  have hhalf : |x / f.spacing x - RoundingMode.nearest.integer (x / f.spacing x)| ≤ 1 / 2 :=
    hinteger.elim le_of_lt fun h => h.1.le
  calc |f.round .nearest x - x|
      = |(x / f.spacing x - RoundingMode.nearest.integer (x / f.spacing x)) * f.spacing x| := by
        rw [abs_sub_comm, Format.round, sub_mul, div_mul_cancel₀ _ hpos.ne']
    _ = |x / f.spacing x - RoundingMode.nearest.integer (x / f.spacing x)| * f.spacing x := by
        rw [abs_mul, abs_of_pos hpos]
    _ ≤ 1 / 2 * f.spacing x := by gcongr
    _ = f.spacing x / 2 := by ring

/-- Below a power of two the rounding misses by half of the spacing there at most. -/
theorem abs_round_sub_le_zpow {k : ℤ} (hx : |x| < 2 ^ k) (hk : 1 ≤ k) :
    |Format.double.round .nearest x - x| ≤ 2 ^ (k - 54) := by
  have hlog : Int.log 2 |x| < k := by
    rcases eq_or_ne x 0 with rfl | hne
    · rw [abs_zero, Int.log_zero_right]
      omega
    · exact (Int.lt_zpow_iff_log_lt one_lt_two (abs_pos.2 hne)).1 (by exact_mod_cast hx)
  have hspacing : Format.double.spacing x ≤ 2 ^ (k - 53) := by
    refine zpow_le_zpow_right₀ one_le_two (max_le ?_ ?_)
    · rw [unit_double]
      omega
    · rw [fractionBits_double]
      push_cast
      omega
  calc |Format.double.round .nearest x - x| ≤ Format.double.spacing x / 2 := abs_round_sub_le_spacing _ x
    _ ≤ 2 ^ (k - 53) / 2 := by gcongr
    _ = 2 ^ (k - 54) := by
        rw [show k - 53 = k - 54 + 1 by ring, zpow_add_one₀ two_ne_zero]
        ring

theorem abs_round_sub_le_halfStep (hx : |x| < 2 ^ (1024 : ℤ)) :
    |Format.double.round .nearest x - x| ≤ halfStep := by
  rw [halfStep_eq]
  exact abs_round_sub_le_zpow hx (by norm_num)

/-- The last block of doubles consists of multiples of its spacing. -/
theorem round_topBlock (mode : RoundingMode) (hlo : 2 ^ (1023 : ℤ) ≤ |x|) (hhi : |x| < 2 ^ (1024 : ℤ)) :
    Format.double.round mode x = mode.integer (x / (2 * halfStep)) * (2 * halfStep) := by
  have hspacing : Format.double.spacing x = 2 * halfStep := by
    rw [spacing, log_eq_of_bounds hlo hhi, ← step_eq]
    congr 1
  rw [Format.round, hspacing]

/-- Numbers closer to zero than the middle between the largest double and the limit stay in the finite range. -/
theorem abs_round_lt_limit (hx : |x| < (2 ^ 54 - 1) * halfStep) :
    |Format.double.round .nearest x| < 2 ^ (1024 : ℤ) := by
  have hpos := halfStep_pos
  rw [limit_eq]
  have hmiss := abs_round_sub_le_halfStep (x := x) (by rw [limit_eq]; linarith)
  calc |Format.double.round .nearest x| = |Format.double.round .nearest x - x + x| := by rw [sub_add_cancel]
    _ ≤ |Format.double.round .nearest x - x| + |x| := abs_add_le _ _
    _ < 2 ^ 54 * halfStep := by linarith

/-- That middle is rounded to the limit. -/
theorem round_overflowMiddle_double :
    Format.double.round .nearest ((2 ^ 54 - 1) * halfStep) = 2 ^ (1024 : ℤ) := by
  have hpos := halfStep_pos
  have habs : |(2 ^ 54 - 1) * halfStep| = (2 ^ 54 - 1) * halfStep := abs_of_pos (mul_pos (by norm_num) hpos)
  have hquotient : (2 ^ 54 - 1) * halfStep / (2 * halfStep) = 2 ^ 53 - 1 / 2 := by
    field_simp
  have hinteger : RoundingMode.nearest.integer ((2 : ℝ) ^ 53 - 1 / 2) = 2 ^ 53 := by
    rw [RoundingMode.integer_nearest_eq_iff]
    refine .inr ⟨?_, by decide⟩
    norm_num
  rw [round_topBlock .nearest, hquotient, hinteger, limit_eq]
  · push_cast
    ring
  · rw [habs, topBlock_eq]
    gcongr
    norm_num
  · rw [habs, limit_eq]
    gcongr
    norm_num

/-! ## The operands for which the residual is lost -/

/-- The second term is the largest double, with either sign. The first one has the other sign, and is such a
multiple of half of the spacing of the last block that the sum is a tie which goes to the side of the second
term. -/
def Overruns (u v : ℝ) : Prop :=
  |v| = largestDouble ∧ u * v < 0 ∧ ∃ m : ℕ, |u| = (m * 2 ^ 970 : ℕ) ∧ m % 4 = 3 ∧ m + 1 < 2 ^ 53

/-- The operands up to a change of both signs. -/
theorem Overruns.exists_multiple (h : Overruns u v) : ∃ m : ℕ, m % 4 = 3 ∧ m + 1 < 2 ^ 53 ∧
    (u = -(m * halfStep) ∧ v = largestDouble ∨ -u = -(m * halfStep) ∧ -v = largestDouble) := by
  obtain ⟨hv, hsign, m, hu, hmod, hlt⟩ := h
  rw [Nat.cast_mul, ← halfStep] at hu
  refine ⟨m, hmod, hlt, ?_⟩
  rcases mul_neg_iff.1 hsign with ⟨hupos, hvneg⟩ | ⟨huneg, hvpos⟩
  · rw [abs_of_pos hupos] at hu
    rw [abs_of_neg hvneg] at hv
    exact .inr ⟨by rw [hu], hv⟩
  · rw [abs_of_neg huneg] at hu
    rw [abs_of_pos hvpos] at hv
    exact .inl ⟨by rw [← hu, neg_neg], hv⟩

theorem overruns_neg : Overruns (-u) (-v) ↔ Overruns u v := by
  unfold Overruns
  rw [abs_neg, abs_neg, neg_mul_neg]

/-- With these operands the tie goes to the side of the second term. -/
theorem round_tie {m : ℕ} (hmod : m % 4 = 3) (hlt : m + 1 < 2 ^ 53) :
    Format.double.round .nearest (-(m * halfStep) + largestDouble) =
      (2 ^ 54 - 1) * halfStep + -(m * halfStep) := by
  have hpos := halfStep_pos
  obtain ⟨j, rfl⟩ : ∃ j, m = 4 * j + 3 := ⟨m / 4, by omega⟩
  have hle : 4 * (j : ℝ) ≤ 2 ^ 53 - 8 := by exact_mod_cast (by omega : 4 * (j : ℤ) ≤ 2 ^ 53 - 8)
  have hsum : -(((4 * j + 3 : ℕ) : ℝ) * halfStep) + largestDouble = (2 ^ 54 - 5 - 4 * j) * halfStep := by
    rw [largestDouble_eq]
    push_cast
    ring
  have habs : |(2 ^ 54 - 5 - 4 * (j : ℝ)) * halfStep| = (2 ^ 54 - 5 - 4 * j) * halfStep :=
    abs_of_pos (mul_pos (by linarith) hpos)
  have hquotient : (2 ^ 54 - 5 - 4 * (j : ℝ)) * halfStep / (2 * halfStep) =
      ((2 ^ 53 - 2 - 2 * j : ℤ) : ℝ) - 1 / 2 := by
    field_simp
    push_cast
    ring
  have hinteger : RoundingMode.nearest.integer (((2 ^ 53 - 2 - 2 * j : ℤ) : ℝ) - 1 / 2) = 2 ^ 53 - 2 - 2 * j := by
    rw [RoundingMode.integer_nearest_eq_iff, sub_sub_cancel_left, abs_neg, abs_of_pos one_half_pos]
    exact .inr ⟨rfl, (by decide : Even (2 ^ 53 - 2 : ℤ)).sub (even_two_mul _)⟩
  rw [hsum, round_topBlock .nearest, hquotient, hinteger]
  · push_cast
    ring
  · rw [habs, topBlock_eq]
    exact mul_le_mul_of_nonneg_right (by linarith) hpos.le
  · rw [habs, limit_eq]
    exact mul_lt_mul_of_pos_right (by linarith [show (0 : ℝ) ≤ j from j.cast_nonneg]) hpos

/-- The rounded sum less the first term leaves the finite range exactly for these operands. -/
theorem overruns_iff_of_nonneg (hv0 : 0 ≤ v) (hu : |u| ≤ largestDouble) (hv : |v| ≤ largestDouble)
    (hx : |u + v| ≤ largestDouble) :
    2 ^ (1024 : ℤ) ≤ |Format.double.round .nearest (Format.double.round .nearest (u + v) - u)| ↔
      Overruns u v := by
  have hpos := halfStep_pos
  have hlimit := hx.trans_lt largestDouble_lt_limit
  rw [abs_of_nonneg hv0, largestDouble_eq] at hv
  rw [largestDouble_eq, abs_le] at hu hx
  constructor
  · intro hover
    have hmiddle := le_of_not_gt (mt abs_round_lt_limit hover.not_gt)
    have hmiss := abs_le.1 (abs_round_sub_le_halfStep hlimit)
    -- the second term is the largest double, and half a step was added to the sum
    have hup : (2 ^ 54 - 1) * halfStep ≤ Format.double.round .nearest (u + v) - u := by
      rcases le_abs'.1 hmiddle with h | h
      · linarith
      · exact h
    have hvmax : v = (2 ^ 54 - 2) * halfStep := by linarith
    have hadded : Format.double.round .nearest (u + v) - (u + v) = halfStep := by linarith
    have hblock : 2 ^ (1023 : ℤ) ≤ |u + v| := by
      by_contra hlt
      have hless := abs_round_sub_le_zpow (not_le.1 hlt) (by norm_num)
      rw [hadded, abs_of_pos hpos] at hless
      have : (2 : ℝ) ^ ((1023 : ℤ) - 54) < halfStep := by
        rw [halfStep_eq]
        exact zpow_lt_zpow_right₀ one_lt_two (by norm_num)
      linarith
    rw [round_topBlock .nearest hblock hlimit] at hadded
    obtain ⟨n, hn⟩ : ∃ n, n = RoundingMode.nearest.integer ((u + v) / (2 * halfStep)) := ⟨_, rfl⟩
    rw [← hn] at hadded
    have hsum : u + v = (2 * n - 1) * halfStep := by linarith
    have hquotient : (u + v) / (2 * halfStep) = n - 1 / 2 := by
      rw [hsum]
      field_simp
    -- the tie went to an even multiple of the spacing
    have heven : Even n := by
      have htie := RoundingMode.integer_nearest_eq_iff.1 hn.symm
      rw [hquotient, sub_sub_cancel_left, abs_neg, abs_of_pos one_half_pos] at htie
      exact (htie.resolve_left (lt_irrefl _)).2
    obtain ⟨j, rfl⟩ := heven
    have hhi : 2 * (j + j) - 1 ≤ (2 ^ 54 - 2 : ℤ) := by
      have : (2 * ((j + j : ℤ) : ℝ) - 1) * halfStep ≤ (2 ^ 54 - 2) * halfStep := hsum ▸ hx.2
      exact_mod_cast le_of_mul_le_mul_right this hpos
    have hlo : (2 ^ 53 : ℤ) ≤ 2 * (j + j) - 1 := by
      rw [topBlock_eq, abs_of_nonneg (by linarith), hsum] at hblock
      exact_mod_cast le_of_mul_le_mul_right hblock hpos
    obtain ⟨m, hm⟩ : ∃ m : ℕ, (m : ℤ) = 2 ^ 54 - 1 - 4 * j := ⟨_, Int.toNat_of_nonneg (by omega)⟩
    have hm' : (m : ℝ) = 2 ^ 54 - 1 - 4 * j := by exact_mod_cast congrArg (Int.cast (R := ℝ)) hm
    have hfirst : u = -(m * halfStep) := by
      push_cast at hsum
      rw [hm']
      linarith
    have hmpos : 0 < (m : ℝ) * halfStep := mul_pos (by exact_mod_cast (by omega : 0 < m)) hpos
    refine ⟨?_, ?_, m, ?_, by omega, by omega⟩
    · rw [abs_of_nonneg hv0, hvmax, largestDouble_eq]
    · rw [hfirst, hvmax]
      exact mul_neg_of_neg_of_pos (neg_neg_of_pos hmpos) (mul_pos (by norm_num) hpos)
    · rw [hfirst, abs_neg, abs_of_pos hmpos, Nat.cast_mul, ← halfStep]
  · intro hover
    obtain ⟨m, hmod, hlt, ⟨rfl, rfl⟩ | ⟨-, hneg⟩⟩ := hover.exists_multiple
    · rw [round_tie hmod hlt, add_sub_cancel_right, round_overflowMiddle_double, abs_of_pos (by positivity)]
    · have := largestDouble_pos
      linarith

theorem overruns_iff (hu : |u| ≤ largestDouble) (hv : |v| ≤ largestDouble) (hx : |u + v| ≤ largestDouble) :
    2 ^ (1024 : ℤ) ≤ |Format.double.round .nearest (Format.double.round .nearest (u + v) - u)| ↔
      Overruns u v := by
  rcases le_total 0 v with hv0 | hv0
  · exact overruns_iff_of_nonneg hv0 hu hv hx
  · have hround (x : ℝ) : Format.double.round .nearest (-x) = -Format.double.round .nearest x :=
      Format.round_neg _ .nearest x
    have h := overruns_iff_of_nonneg (u := -u) (v := -v) (by linarith) (by rwa [abs_neg]) (by rwa [abs_neg])
      (by rwa [← neg_add, abs_neg])
    rwa [← neg_add, hround, ← neg_sub', hround, abs_neg, overruns_neg] at h

/-- The sum is of the last block and is not a double, but half a step away from the nearest ones. -/
theorem Overruns.inexact (h : Overruns u v) :
    Format.double.round .nearest (u + v) ≠ u + v ∧ 2 ^ (1023 : ℤ) ≤ |u + v| := by
  have hpos := halfStep_pos
  have htie {u v : ℝ} {m : ℕ} (hmod : m % 4 = 3) (hlt : m + 1 < 2 ^ 53) (hu : u = -(m * halfStep))
      (hv : v = largestDouble) :
      Format.double.round .nearest (u + v) = u + v + halfStep ∧ 2 ^ (1023 : ℤ) ≤ u + v := by
    have hm : (m : ℝ) ≤ 2 ^ 53 - 2 := by exact_mod_cast (by omega : (m : ℤ) ≤ 2 ^ 53 - 2)
    have hle := mul_le_mul_of_nonneg_right hm hpos.le
    rw [hu, hv, round_tie hmod hlt, topBlock_eq, largestDouble_eq]
    constructor <;> linarith
  obtain ⟨m, hmod, hlt, ⟨hu, hv⟩ | ⟨hu, hv⟩⟩ := h.exists_multiple
  · obtain ⟨hround, hle⟩ := htie hmod hlt hu hv
    exact ⟨by rw [hround]; linarith, hle.trans (le_abs_self _)⟩
  · obtain ⟨hround, hle⟩ := htie hmod hlt hu hv
    rw [← neg_add] at hround hle
    have hneg : Format.double.round .nearest (-(u + v)) = -Format.double.round .nearest (u + v) :=
      Format.round_neg _ .nearest _
    exact ⟨fun heq => by linarith, hle.trans (neg_le_abs _)⟩

/-! ## The residual -/

variable {a b r : Datum}

theorem add_at (ha : a.HasValue u) (hb : b.HasValue v) :
    ∃ i, Format.double.round .nearest (u + v) = Format.double.point i ∧
      Format.double.At (Format.double.add a b) (Format.double.clamp i) := by
  obtain ⟨s, m, e, rfl⟩ := ha.exists_finite
  obtain ⟨t, n, k, rfl⟩ := hb.exists_finite
  rw [← ha.toRat?_eq, ← hb.toRat?_eq, ← Rat.cast_add]
  exact nearest_at _ _

/-- A sum beyond the middle between the largest double and the limit is infinite. -/
theorem add_infinite (ha : a.HasValue u) (hb : b.HasValue v)
    (hover : 2 ^ (1024 : ℤ) ≤ |Format.double.round .nearest (u + v)|) :
    ∃ s, Format.double.add a b = .infinity s := by
  obtain ⟨i, hround, hat⟩ := add_at ha hb
  rw [hround, abs_point, ← size_infinityMagnitude_double, size_strictMono.le_iff_le] at hover
  have hinf := one_lt_infinityMagnitude (f := .double)
  have hclamp : (Format.double.clamp i).natAbs = Format.double.infinityMagnitude := by
    unfold clamp
    omega
  exact ⟨_, hat.eq_infinity hclamp (by omega)⟩

/-- Once its first part is infinite, the residual is not a number and points nowhere. -/
theorem sumError_side_of_infinite (ha : a.HasValue u) (hb : b.HasValue v) {s : ℝ} (hr : r.HasValue s)
    (hover : 2 ^ (1024 : ℤ) ≤ |Format.double.round .nearest (s - u)|) :
    Side.ofResidual (sumError a b r) = .exact := by
  rw [sub_eq_add_neg] at hover
  obtain ⟨t, ht⟩ := add_infinite hr ha.neg hover
  obtain ⟨s, m, e, rfl⟩ := hr.exists_finite
  obtain ⟨s', m', e', rfl⟩ := ha.exists_finite
  obtain ⟨s'', m'', e'', rfl⟩ := hb.exists_finite
  have hfirst : Format.double.sub (.finite s m e) (.finite s' m' e') = .infinity t := ht
  have hnan : sumError (.finite s' m' e') (.finite s'' m'' e'') (.finite s m e) = .nan := by
    unfold sumError
    dsimp only
    rw [hfirst]
    cases t <;> rfl
  rw [hnan]
  rfl

/-- The side that the residual of a sum gives: the right one, unless its first part overruns. -/
theorem sum_side (ha : a.HasValue u) (hb : b.HasValue v) (hpu : Format.double.IsPoint u)
    (hpv : Format.double.IsPoint v) (hu : |u| ≤ largestDouble) (hv : |v| ≤ largestDouble)
    (hx : |u + v| ≤ largestDouble) : (Format.double.add a b).HasValue (Format.double.round .nearest (u + v)) ∧
      (Overruns u v → Side.ofResidual (sumError a b (Format.double.add a b)) = .exact) ∧
      (¬Overruns u v → Side.ofResidual (sumError a b (Format.double.add a b)) =
        .ofSign (u + v - Format.double.round .nearest (u + v))) := by
  have hlimit : |Format.double.round .nearest (u + v)| < 2 ^ (1024 : ℤ) :=
    (abs_round_le_of_le isPoint_largestDouble hx).trans_lt largestDouble_lt_limit
  have hsum := add_hasValue (f := .double) ha hb (by rwa [size_infinityMagnitude_double])
  refine ⟨hsum, fun hover => ?_, fun hover => ?_⟩
  · exact sumError_side_of_infinite ha hb hsum ((overruns_iff hu hv hx).2 hover)
  · exact sumError_side ha hb hpu hpv (hu.trans_lt largestDouble_lt_limit)
      (hv.trans_lt largestDouble_lt_limit) hlimit (not_le.1 (mt (overruns_iff hu hv hx).1 hover))

end Vr4300.FloatingPoint
