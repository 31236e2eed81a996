import Vr4300.Proofs.Remainders
import Vr4300.Proofs.SingleResult

/-!
# Single-precision arithmetic in double precision

Operations on singles are computed on doubles. Products are exact there; of sums, quotients and roots the
residuals are so far above the least double that they keep their signs, and nothing comes near the upper end
of the range. So every operation yields an approximation of its exact result. None of them yields the overflow
middle for a result closer to zero.

## Contents

* `Operand`: a datum that is a single of class normal or zero.
* `add_approximates`, `mul_approximates`, `div_approximates`, `sqrt_approximates`.
* `add_middle`, `div_middle`, `not_middle`: the overflow middle.
-/

namespace Vr4300.FloatingPoint

open Format

/-! ## Operands -/

/-- The datum has the value of a single that is zero or in the normal range. -/
structure Operand (d : Datum) (u : ℝ) : Prop where
  value : d.HasValue u
  isPoint : Format.single.IsPoint u
  le_largest : |u| ≤ largestSingle
  normal : u = 0 ∨ leastNormalSingle ≤ |u|

section Class

variable {f : Format} [f.Proper] {bits : ℕ}

omit [f.Proper] in
theorem classify_eq_normal_iff : f.classify bits = .normal ↔
    f.minNormalMagnitude ≤ bits % f.signBit ∧ bits % f.signBit < f.infinityMagnitude := by
  unfold classify
  dsimp only
  split_ifs <;> simp <;> omega

theorem isZero_classify_iff : (f.classify bits).isZero ↔ bits % f.signBit = 0 := by
  have hinf := one_lt_infinityMagnitude (f := f)
  have hmin : 0 < f.minNormalMagnitude := by
    rw [minNormalMagnitude, Nat.pow_eq]
    positivity
  unfold classify
  dsimp only
  split_ifs <;> simp [OperandClass.isZero] <;> omega

omit [f.Proper] in
/-- The datum behind a pattern that does not lie above infinity. -/
theorem at_decode (h : bits % f.signBit ≤ f.infinityMagnitude) :
    ∃ i : ℤ, i.natAbs = bits % f.signBit ∧ f.At (f.decode bits) i := by
  unfold decode
  generalize decide (f.signBit ≤ bits % (2 * f.signBit)) = negative
  generalize bits % f.signBit = k at h ⊢
  cases negative with
  | false => exact ⟨k, rfl, h, false, rfl, by simp, by simp⟩
  | true => exact ⟨-k, by simp, by simpa using h, true, by simp, by simp, by simp⟩

/-- The datum behind a pattern whose class is normal or zero. -/
theorem at_of_classify (h : f.classify bits = .normal ∨ (f.classify bits).isZero) :
    ∃ i : ℤ, f.At (f.decode bits) i ∧ i.natAbs < f.infinityMagnitude ∧
      (i = 0 ∨ f.minNormalMagnitude ≤ i.natAbs) ∧ ((f.classify bits).isZero ↔ i = 0) := by
  have hinf := one_lt_infinityMagnitude (f := f)
  rw [classify_eq_normal_iff, isZero_classify_iff] at h
  obtain ⟨i, hi, hat⟩ := @at_decode f bits (by omega)
  refine ⟨i, hat, by omega, by omega, ?_⟩
  rw [isZero_classify_iff]
  omega

end Class

theorem operand_of_at {d : Datum} {i : ℤ} (h : Format.single.At d i)
    (hlt : i.natAbs < Format.single.infinityMagnitude)
    (hmin : i = 0 ∨ Format.single.minNormalMagnitude ≤ i.natAbs) :
    Operand d (Format.single.point i) where
  value := h.hasValue hlt
  isPoint := ⟨i, rfl⟩
  le_largest := by
    rw [← not_lt, largestSingle_lt_abs_iff]
    omega
  normal := by
    refine hmin.imp (fun h0 => by rw [h0, point_zero]) fun hle => ?_
    rw [← not_lt, abs_lt_leastNormalSingle_iff]
    omega

namespace Operand

variable {a : Datum} {u : ℝ}

theorem abs_lt (ha : Operand a u) : |u| < 2 ^ (128 : ℤ) :=
  ha.le_largest.trans_lt (by unfold largestSingle; norm_num)

theorem onGrid (ha : Operand a u) : OnGrid (-149) u := by
  obtain ⟨e, he, hgrid, -⟩ := ha.isPoint.exists_onGrid
  exact hgrid.of_le (by rwa [unit_single] at he)

theorem neg (ha : Operand a u) : Operand (-a) (-u) where
  value := ha.value.neg
  isPoint := ha.isPoint.neg
  le_largest := by
    rw [abs_neg]
    exact ha.le_largest
  normal := by
    rw [abs_neg, neg_eq_zero]
    exact ha.normal

theorem le_abs (ha : Operand a u) (hu : u ≠ 0) : 2 ^ (-126 : ℤ) ≤ |u| :=
  leastNormalSingle_eq ▸ ha.normal.resolve_left hu

end Operand

/-! ## The overflow middle -/

variable {a b : Datum} {u v x D : ℝ}

theorem overflowMiddle_eq : overflowMiddle = (2 ^ 25 - 1) * 2 ^ (103 : ℤ) := by
  have hlargest : Format.single.point (Format.single.infinityMagnitude - 1) = largestSingle := by
    rw [← size_largest, ← point_natCast]
    congr 1
  rw [overflowMiddle, middle, sub_add_cancel, hlargest, point_infinityMagnitude, largestSingle]
  norm_num

/-- Rounding does not lead past a double. -/
theorem abs_round_le_of_le {mode : RoundingMode} (hD : Format.double.IsPoint D) (hx : |x| ≤ D) :
    |Format.double.round mode x| ≤ D := by
  obtain ⟨i, rfl⟩ := hD
  rw [abs_le] at hx ⊢
  constructor
  · rw [← point_neg]
    exact point_mono_round _ (by rw [point_neg]; exact hx.1)
  · exact round_mono_point _ hx.2

/-- A number that a double keeps below the overflow middle is not rounded to it. -/
theorem not_middle (hD : Format.double.IsPoint D) (hx : |x| ≤ D) (hlt : D < overflowMiddle) :
    |Format.double.round .nearest x| ≠ overflowMiddle :=
  ((abs_round_le_of_le hD hx).trans_lt hlt).ne

theorem isPoint_double_of_onGrid {e : ℤ} (he : -1074 ≤ e) (h : OnGrid e x) (hx : |x| ≤ 2 ^ (e + 53)) :
    Format.double.IsPoint x :=
  isPoint_of_onGrid (by rwa [unit_double]) h (by rwa [fractionBits_double, add_assoc])

/-- Far below the limit of the range nothing is rounded to the overflow middle. -/
theorem not_middle_of_le {k : ℤ} (hx : |x| ≤ 2 ^ k) (hk : k ≤ 126) :
    |Format.double.round .nearest x| ≠ overflowMiddle := by
  refine not_middle (isPoint_double_of_onGrid (e := 126) (by norm_num) ⟨1, by simp⟩ ?_)
    (hx.trans (zpow_le_zpow_right₀ one_le_two hk)) ?_
  · norm_num
  · rw [overflowMiddle_eq]
    norm_num

/-- A term on a fine grid is so small that the sum stays below the overflow middle. -/
theorem add_not_middle (ha : Operand a u) {e : ℤ} (he : e ≤ 74)
    (hv : |v| < 2 ^ (e + Format.single.fractionBits + 1)) :
    |Format.double.round .nearest (u + v)| ≠ overflowMiddle := by
  have hv' : |v| ≤ 2 ^ (98 : ℤ) := by
    refine hv.le.trans (zpow_le_zpow_right₀ one_le_two ?_)
    have : (Format.single.fractionBits : ℤ) = 23 := by decide
    omega
  have hpoint : Format.double.IsPoint (largestSingle + 2 ^ (98 : ℤ)) := by
    refine isPoint_double_of_onGrid (e := 98) (by norm_num) ⟨2 ^ 30 - 2 ^ 6 + 1, ?_⟩ ?_
    · unfold largestSingle
      norm_num
    · unfold largestSingle
      norm_num
  refine not_middle hpoint ?_ ?_
  · exact (abs_add_le u v).trans (add_le_add ha.le_largest hv')
  · rw [overflowMiddle_eq]
    unfold largestSingle
    norm_num

/-- A sum is rounded to the overflow middle only if it does not lie closer to zero. -/
theorem add_middle (ha : Operand a u) (hb : Operand b v)
    (hmid : |Format.double.round .nearest (u + v)| = overflowMiddle) :
    |Format.double.round .nearest (u + v)| ≤ |u + v| := by
  obtain ⟨e, -, hue, hu, -⟩ := ha.isPoint.exists_onGrid
  obtain ⟨k, -, hvk, hv, -⟩ := hb.isPoint.exists_onGrid
  rcases le_or_gt e 74 with he | he
  · rw [add_comm] at hmid
    exact absurd hmid (add_not_middle hb he hu)
  rcases le_or_gt k 74 with hk | hk
  · exact absurd hmid (add_not_middle ha hk hv)
  -- both terms are on a coarse grid: the sum is a double, or it lies beyond the limit
  have hgrid := (hue.of_le he).add (hvk.of_le hk)
  rcases le_or_gt |u + v| (2 ^ (128 : ℤ)) with hle | hgt
  · rw [(isPoint_double_of_onGrid (by norm_num) hgrid (by simpa using hle)).round_eq]
  · have := point_lt_overflowMiddle.2
    rw [point_infinityMagnitude] at this
    rw [hmid]
    exact (this.trans hgt).le

/-- A quotient is rounded to the overflow middle only if it does not lie closer to zero. -/
theorem div_middle (ha : Operand a u) (hb : Operand b v) (hv0 : v ≠ 0)
    (hmid : |Format.double.round .nearest (u / v)| = overflowMiddle) :
    |Format.double.round .nearest (u / v)| ≤ |u / v| := by
  rw [hmid]
  by_contra hlt
  rw [not_le] at hlt
  have hbits : (Format.single.fractionBits : ℤ) = 23 := by decide
  obtain ⟨i, -, hui, hu, -⟩ := ha.isPoint.exists_onGrid
  obtain ⟨j, -, hvj, hv, -⟩ := hb.isPoint.exists_onGrid
  rw [hbits] at hu hv
  have hvpos : 0 < |v| := abs_pos.2 hv0
  have hquotient : |u / v| = |u| / |v| := abs_div u v
  rcases le_or_gt (103 + j) i with hle | hgt
  · -- the distance to the middle, times the divisor, is on a grid that is coarse for the divisor
    have hgrid : OnGrid (103 + j) (overflowMiddle * |v| - |u|) := by
      have habs : ∀ {e : ℤ} {y : ℝ}, OnGrid e y → OnGrid e |y| := fun {e y} h =>
        (abs_choice y).elim (fun h' => h'.symm ▸ h) fun h' => h'.symm ▸ h.neg
      refine OnGrid.sub ?_ ((habs hui).of_le hle)
      rw [overflowMiddle_eq]
      exact OnGrid.mul ⟨2 ^ 25 - 1, by norm_num⟩ (habs hvj)
    have hpos : 0 < overflowMiddle * |v| - |u| := by
      rw [hquotient, div_lt_iff₀ hvpos] at hlt
      linarith
    have hstep := hgrid.le_abs hpos.ne'
    rw [abs_of_pos hpos] at hstep
    have hfar : |u / v| ≤ overflowMiddle - 2 ^ (79 : ℤ) := by
      have hbound : (2 : ℝ) ^ (79 : ℤ) * |v| ≤ 2 ^ (103 + j) := by
        calc (2 : ℝ) ^ (79 : ℤ) * |v| ≤ 2 ^ (79 : ℤ) * 2 ^ (j + 23 + 1) := by gcongr
          _ = 2 ^ (103 + j) := by
              rw [← zpow_add₀ two_ne_zero]
              congr 1
              ring
      rw [hquotient, div_le_iff₀ hvpos, sub_mul]
      linarith
    refine not_middle (isPoint_double_of_onGrid (e := 79) (by norm_num) ⟨(2 ^ 25 - 1) * 2 ^ 24 - 1, ?_⟩ ?_)
      hfar (by linarith [show (0 : ℝ) < 2 ^ (79 : ℤ) by positivity]) hmid
    · rw [overflowMiddle_eq]
      norm_num
    · rw [overflowMiddle_eq]
      norm_num
  · -- the dividend is so much smaller that the quotient is far from the middle
    have hlow : (2 : ℝ) ^ j ≤ |v| := hvj.le_abs hv0
    have hfar : |u / v| ≤ 2 ^ (126 : ℤ) := by
      rw [hquotient, div_le_iff₀ hvpos]
      calc |u| ≤ 2 ^ (i + 23 + 1) := hu.le
        _ ≤ 2 ^ (126 + j) := zpow_le_zpow_right₀ one_le_two (by omega)
        _ = 2 ^ (126 : ℤ) * 2 ^ j := zpow_add₀ two_ne_zero _ _
        _ ≤ 2 ^ (126 : ℤ) * |v| := by gcongr
    exact not_middle_of_le hfar le_rfl hmid

/-! ## Approximations -/

theorem add_approximates (ha : Operand a u) (hb : Operand b v) :
    Approximates (Format.double.add a b) (Format.double.round .nearest (u + v))
      (.ofResidual (sumError a b (Format.double.add a b))) (u + v) :=
  .of_round (add_hasValue_of_le ha.value hb.value ha.abs_lt.le hb.abs_lt.le (by norm_num)).1
    (sumError_side_of_le ha.value hb.value (isPoint_double_of_single ha.isPoint)
      (isPoint_double_of_single hb.isPoint) ha.abs_lt.le hb.abs_lt.le (by norm_num))

/-- The product of two singles is a double. -/
theorem isPoint_mul (ha : Operand a u) (hb : Operand b v) : Format.double.IsPoint (u * v) := by
  have hbits : (Format.single.fractionBits : ℤ) = 23 := by decide
  obtain ⟨i, hi, hui, hu, -⟩ := ha.isPoint.exists_onGrid
  obtain ⟨j, hj, hvj, hv, -⟩ := hb.isPoint.exists_onGrid
  rw [unit_single] at hi hj
  rw [hbits] at hu hv
  refine isPoint_double_of_onGrid (e := i + j) (by omega) (hui.mul hvj) ?_
  calc |u * v| = |u| * |v| := abs_mul u v
    _ ≤ 2 ^ (i + 23 + 1) * 2 ^ (j + 23 + 1) := by gcongr
    _ = 2 ^ (i + 23 + 1 + (j + 23 + 1)) := (zpow_add₀ two_ne_zero _ _).symm
    _ ≤ 2 ^ (i + j + 53) := zpow_le_zpow_right₀ one_le_two (by omega)

theorem mul_approximates (ha : Operand a u) (hb : Operand b v) :
    Approximates (Format.double.mul a b) (u * v)
      (.ofResidual (Format.double.fusedMulAdd a b (-Format.double.mul a b))) (u * v) := by
  have hround := (isPoint_mul ha hb).round_eq (f := .double) .nearest
  have hsize : |u * v| ≤ 2 ^ (256 : ℤ) := by
    calc |u * v| = |u| * |v| := abs_mul u v
      _ ≤ 2 ^ (128 : ℤ) * 2 ^ (128 : ℤ) :=
          mul_le_mul ha.abs_lt.le hb.abs_lt.le (abs_nonneg v) (by positivity)
      _ = 2 ^ (256 : ℤ) := by rw [← zpow_add₀ two_ne_zero]; rfl
  have happrox := approximates_mul ha.value hb.value
    (by rw [← size_infinityMagnitude_double]; exact abs_round_lt hsize (by norm_num))
    (by rw [hround, sub_self]; exact .zero _)
  rwa [hround] at happrox

theorem div_bounds (ha : Operand a u) (hb : Operand b v) (hv : v ≠ 0) :
    |u / v| ≤ 2 ^ (254 : ℤ) ∧ (u ≠ 0 → 2 ^ (-254 : ℤ) ≤ |u / v|) := by
  have hvpos : 0 < |v| := abs_pos.2 hv
  rw [abs_div, div_le_iff₀ hvpos, le_div_iff₀ hvpos]
  constructor
  · calc |u| ≤ 2 ^ (128 : ℤ) := ha.abs_lt.le
      _ = 2 ^ (254 : ℤ) * 2 ^ (-126 : ℤ) := by rw [← zpow_add₀ two_ne_zero]; rfl
      _ ≤ 2 ^ (254 : ℤ) * |v| := by gcongr; exact hb.le_abs hv
  · intro hu
    calc (2 : ℝ) ^ (-254 : ℤ) * |v| ≤ 2 ^ (-254 : ℤ) * 2 ^ (128 : ℤ) := by gcongr; exact hb.abs_lt.le
      _ = 2 ^ (-126 : ℤ) := by rw [← zpow_add₀ two_ne_zero]; rfl
      _ ≤ |u| := ha.le_abs hu

/-- The side that the remainder of a division gives. -/
theorem div_approximates (ha : Operand a u) (hb : Operand b v) (hv : v ≠ 0) :
    Approximates (Format.double.div a b) (Format.double.round .nearest (u / v))
      (if b.isBelowZero then (Side.ofResidual (Format.double.fusedMulAdd (-Format.double.div a b) b a)).flip
        else .ofResidual (Format.double.fusedMulAdd (-Format.double.div a b) b a)) (u / v) := by
  obtain ⟨hhi, hlo⟩ := div_bounds ha hb hv
  refine approximates_div ha.value hb.value hv ?_ ?_
  · rw [← size_infinityMagnitude_double]
    exact abs_round_lt hhi (by norm_num)
  · rcases eq_or_ne u 0 with rfl | hu
    · rw [zero_div, isPoint_zero.round_eq, neg_zero, zero_mul, add_zero]
      exact .zero _
    · exact ((onGrid_round_of_le (hlo hu)).neg.mul hb.onGrid).of_le (by norm_num) |>.add
        (ha.onGrid.of_le (by norm_num))

/-- The root of a positive single is of moderate size. -/
theorem sqrt_bounds (ha : Operand a u) (hu : 0 < u) : √u ≤ 2 ^ (64 : ℤ) ∧ 2 ^ (-63 : ℤ) ≤ √u := by
  have hhi := ha.abs_lt.le
  have hlo := ha.le_abs hu.ne'
  rw [abs_of_pos hu] at hhi hlo
  constructor
  · refine Real.sqrt_le_iff.2 ⟨by positivity, hhi.trans ?_⟩
    norm_num
  · refine Real.le_sqrt_of_sq_le (le_trans ?_ hlo)
    norm_num

theorem sqrt_approximates (ha : Operand a u) (hu : 0 < u) :
    Approximates (Format.double.sqrt a) (Format.double.round .nearest √u)
      (.ofResidual (Format.double.fusedMulAdd (-Format.double.sqrt a) (Format.double.sqrt a) a)) √u := by
  obtain ⟨hhi, hlo⟩ := sqrt_bounds ha hu
  rw [← abs_of_pos (Real.sqrt_pos.2 hu)] at hhi hlo
  refine approximates_sqrt ha.value hu ?_ ?_
  · rw [← size_infinityMagnitude_double]
    exact abs_round_lt hhi (by norm_num)
  · have hround := onGrid_round_of_le hlo
    exact ((hround.neg.mul hround).of_le (by norm_num)).add (ha.onGrid.of_le (by norm_num))

/-- The root of a single is not rounded to the overflow middle. -/
theorem sqrt_not_middle (ha : Operand a u) (hu : 0 < u) :
    |Format.double.round .nearest √u| ≠ overflowMiddle := by
  have hhi := (sqrt_bounds ha hu).1
  rw [← abs_of_pos (Real.sqrt_pos.2 hu)] at hhi
  exact not_middle_of_le hhi (by norm_num)

/-- A double approximates its own value. -/
theorem Approximates.refl (h : a.HasValue u) (hu : Format.double.IsPoint u) : Approximates a u .exact u := by
  have hround := hu.round_eq .nearest
  have hside : .exact = Side.ofSign (u - Format.double.round .nearest u) := by
    rw [hround, sub_self, Side.ofSign_eq_exact.2 rfl]
  have happrox := Approximates.of_round (hround.symm ▸ h) hside
  rwa [hround] at happrox

/-- The double nearest to an integer of moderate size. -/
theorem integer_hasValue {n : ℤ} {k : ℤ} (hn : |(n : ℝ)| ≤ 2 ^ k) (hk : k ≤ 1022) :
    (Format.double.nearest false (n : ℚ)).HasValue (Format.double.round .nearest n) := by
  rw [← Rat.cast_intCast] at hn ⊢
  exact nearest_hasValue false (abs_round_lt hn hk)

/-- The double nearest to an integer of moderate size is an integer, on whose side the integer lies. -/
theorem integer_approximates {n : ℤ} {k : ℤ} (hn : |(n : ℝ)| ≤ 2 ^ k) (hk : k ≤ 1022) :
    Approximates (Format.double.nearest false (n : ℚ)) (Format.double.round .nearest n)
      (.ofOrdering (compare n ((Format.double.nearest false (n : ℚ)).toRat?.getD 0).floor)) n := by
  have hvalue := integer_hasValue hn hk
  refine .of_round hvalue ?_
  obtain ⟨m, hm⟩ := onGrid_round (f := .double) .nearest (show OnGrid 0 (n : ℝ) from ⟨n, by simp⟩)
  rw [zpow_zero, mul_one] at hm
  have hfloor : ((Format.double.nearest false (n : ℚ)).toRat?.getD 0).floor = m := by
    have := hvalue.toRat?_eq
    rw [hm] at this
    have hrat : (Format.double.nearest false (n : ℚ)).toRat?.getD 0 = (m : ℚ) := by exact_mod_cast this
    rw [hrat]
    exact Rat.floor_intCast m
  rw [hfloor, hm]
  rcases lt_trichotomy n m with h | h | h
  · rw [compare_lt_iff_lt.2 h, Side.ofSign_eq_below.2 (by rw [sub_neg]; exact_mod_cast h)]
    rfl
  · rw [compare_eq_iff_eq.2 h, Side.ofSign_eq_exact.2 (by rw [sub_eq_zero]; exact_mod_cast h)]
    rfl
  · rw [compare_gt_iff_gt.2 h, Side.ofSign_eq_above.2 (by rw [sub_pos]; exact_mod_cast h)]
    rfl

end Vr4300.FloatingPoint
