import Vr4300.Proofs.Narrowing

/-!
# Finished single-precision results

What an operation with a given exact result owes: the exact result rounded once, with the substitutes and
exceptions where the rounding leaves the normal range. A result that is finished from an approximation
satisfies it.

## Contents

* `RoundsTo`: the obligation.
* `exceedsSingle_iff`: the test for overflow.
* `finishSingle_roundsTo`: a finished result meets the obligation.
-/

namespace Vr4300.FloatingPoint

open Format

/-- The single in the low bits of an outcome. -/
def Outcome.single (o : Outcome) : Datum :=
  Format.single.decode o.bits.toNat

/-- The largest finite single. -/
noncomputable def largestSingle : ℝ :=
  ((2 ^ 24 - 1) * 2 ^ 104 : ℕ)

/-- The least normal single. -/
noncomputable def leastNormalSingle : ℝ :=
  ((2 ^ 126 : ℕ) : ℝ)⁻¹

/-- The outcome is the right one, in single precision, for an operation whose exact result is `x`. The result
zero carries a minus sign if `zeroNegative` holds. -/
structure RoundsTo (mode : RoundingMode) (x : ℝ) (zeroNegative : Bool) (o : Outcome) : Prop where
  /-- The result occupies the low half of the register. -/
  bits_lt : o.bits.toNat < 2 ^ 32
  /-- A rounding beyond the finite range gives infinity, or the largest number in a mode that leads there. -/
  overflow : largestSingle < |Format.single.round mode x| →
    o.raised = .overflow ∪ .inexact ∧
    o.single = if mode = .nearest ∨ mode.isOutward (x < 0) then .infinity (x < 0)
      else .finite (x < 0) (2 ^ 24 - 1) 104
  /-- A nonzero number that is rounded below the normal range gives zero, or the least normal number in a mode
  that leads there. -/
  underflow : x ≠ 0 → |Format.single.round mode x| < leastNormalSingle →
    o.raised = .underflow ∪ .inexact ∧
    o.single = if mode.isOutward (x < 0) then .finite (x < 0) (2 ^ 23) (-149) else .finite (x < 0) 0 (-149)
  /-- Everything else is rounded, and is inexact if that changed it. -/
  rounded : |Format.single.round mode x| ≤ largestSingle →
    (x = 0 ∨ leastNormalSingle ≤ |Format.single.round mode x|) →
    o.raised = (if Format.single.round mode x = x then ∅ else .inexact) ∧
    o.single.HasValue (Format.single.round mode x) ∧ (x = 0 → o.single.isNegative = zeroNegative)

variable {mode : RoundingMode} {r : Datum} {R x : ℝ} {side : Side} {i : ℤ}

/-! ## The limits of the range -/

theorem leastNormalSingle_eq : leastNormalSingle = 2 ^ (-126 : ℤ) := by
  unfold leastNormalSingle
  norm_num

theorem size_infinityMagnitude : Format.single.size Format.single.infinityMagnitude = 2 ^ (128 : ℤ) := by
  have h : Format.single.infinityMagnitude = 254 * 2 ^ Format.single.fractionBits + 2 ^ 23 := by decide
  rw [h, size_block (by decide) (.inr (by decide)), unit_single]
  norm_num

theorem point_infinityMagnitude : Format.single.point Format.single.infinityMagnitude = 2 ^ (128 : ℤ) := by
  rw [point_natCast, size_infinityMagnitude]

theorem size_largest : Format.single.size (Format.single.infinityMagnitude - 1) = largestSingle := by
  have h : Format.single.infinityMagnitude - 1 = 253 * 2 ^ Format.single.fractionBits + (2 ^ 24 - 1) := by
    decide
  rw [h, size_block (by decide) (.inr (by decide)), unit_single, largestSingle]
  norm_num

theorem size_minNormalMagnitude : Format.single.size Format.single.minNormalMagnitude = leastNormalSingle := by
  have h : Format.single.minNormalMagnitude = 0 * 2 ^ Format.single.fractionBits + 2 ^ 23 := by decide
  rw [h, size_block (by decide) (.inl rfl), unit_single, leastNormalSingle_eq]
  norm_num

theorem largestSingle_lt_abs_iff : largestSingle < |Format.single.point i| ↔
    Format.single.infinityMagnitude ≤ i.natAbs := by
  have := one_lt_infinityMagnitude (f := .single)
  rw [abs_point, ← size_largest, size_strictMono.lt_iff_lt]
  omega

theorem abs_lt_leastNormalSingle_iff : |Format.single.point i| < leastNormalSingle ↔
    i.natAbs < Format.single.minNormalMagnitude := by
  rw [abs_point, ← size_minNormalMagnitude, size_strictMono.lt_iff_lt]

theorem singleLimit_hasValue : singleLimit.HasValue (2 ^ (128 : ℤ)) := by
  unfold singleLimit
  simpa using Datum.hasValue_finite false 1 128

theorem isPoint_limit : Format.double.IsPoint (2 ^ (128 : ℤ)) :=
  isPoint_double_of_single ⟨_, point_infinityMagnitude.symm⟩

/-! ## Overflow -/

section Inward

variable {f : Format} [f.Proper]

/-- The modes that do not lead away from zero give no more than the number. -/
theorem round_le_of_inward (hmode : ¬(mode = .nearest ∨ mode.isOutward false)) (hx : 0 < x) :
    f.round mode x ≤ x := by
  rcases isPoint_or_between (f := f) x with hp | ⟨i, hb⟩
  · rw [hp.round_eq]
  · rw [round_between mode hb]
    cases mode <;> simp [RoundingMode.isOutward] at hmode
    · simpa [neighbour, hx.not_gt] using hb.1.le
    · exact hb.1.le

theorem le_round_of_inward (hmode : ¬(mode = .nearest ∨ mode.isOutward true)) (hx : x < 0) :
    x ≤ f.round mode x := by
  have hmode' : ¬(mode.opposite = .nearest ∨ mode.opposite.isOutward false) := by
    rwa [RoundingMode.opposite_eq_nearest, RoundingMode.isOutward_opposite]
  have := round_le_of_inward (f := f) hmode' (neg_pos.2 hx)
  rw [round_neg, RoundingMode.opposite_opposite] at this
  linarith

end Inward

/-- The comparison with the limit of the range decides whether the exact value reaches it. -/
theorem reachesLimit_iff (h : Approximates r R side x) (hR : R ≠ 0) :
    (singleLimit.less r.abs ||
      (r.abs.same singleLimit && (side == .exact || (side == .above) == r.isPositive))) = true ↔
      2 ^ (128 : ℤ) ≤ |x| := by
  have hless := singleLimit_hasValue.less_iff h.value.abs
  have hsame := h.value.abs.same_iff singleLimit_hasValue
  have hpos : (0 : ℝ) < 2 ^ (128 : ℤ) := by positivity
  have hside : (side == .exact || (side == .above) == r.isPositive) = true ↔ x = R ∨ (R < x ↔ 0 < R) := by
    rw [Bool.or_eq_true, beq_iff_eq, beq_iff_eq, Bool.eq_iff_iff, beq_iff_eq, h.isPositive_iff,
      h.exact_iff, h.above_iff]
  rw [Bool.or_eq_true, Bool.and_eq_true, hless, hsame, hside]
  rcases lt_or_gt_of_ne hR with hneg | hRpos
  · rw [abs_of_neg hneg, abs_of_neg ((h.neg_iff hR).2 hneg), le_neg, lt_neg]
    simp only [hneg.not_gt, iff_false, not_lt]
    constructor
    · rintro (hlt | ⟨heq, hx⟩)
      · exact (h.gt_of_gt isPoint_limit.neg hlt).le
      · rcases hx with hx | hx <;> linarith
    · intro hx
      rcases lt_trichotomy R (-2 ^ (128 : ℤ)) with hlt | heq | hgt
      · exact .inl hlt
      · exact .inr ⟨by linarith, .inr (by linarith)⟩
      · exact absurd (h.lt_of_lt isPoint_limit.neg hgt) hx.not_gt
  · have hxpos : 0 < x := h.lt_of_lt isPoint_zero hRpos
    rw [abs_of_pos hRpos, abs_of_pos hxpos]
    simp only [hRpos, iff_true]
    constructor
    · rintro (hlt | ⟨heq, hx⟩)
      · exact (h.lt_of_lt isPoint_limit hlt).le
      · rcases hx with hx | hx <;> linarith
    · intro hx
      rcases lt_trichotomy R (2 ^ (128 : ℤ)) with hlt | heq | hgt
      · exact absurd (h.gt_of_gt isPoint_limit hlt) hx.not_gt
      · rcases hx.eq_or_lt with hx | hx
        · exact .inr ⟨heq, .inl (by linarith)⟩
        · exact .inr ⟨heq, .inr (by linarith)⟩
      · exact .inl hgt

theorem exceedsSingle_of_outward {v : Datum} {negative : Bool}
    (hsign : r.isPositive = !negative ∧ r.isBelowZero = negative)
    (hmode : mode = .nearest ∨ mode.isOutward negative) : exceedsSingle mode r side v = v.isInfinite := by
  obtain ⟨hpos, hneg⟩ := hsign
  unfold exceedsSingle
  rcases hmode with rfl | hmode
  · rfl
  · cases mode <;> cases negative <;> simp_all [RoundingMode.isOutward]

theorem exceedsSingle_of_inward {v : Datum} {negative : Bool}
    (hsign : r.isPositive = !negative ∧ r.isBelowZero = negative)
    (hmode : ¬(mode = .nearest ∨ mode.isOutward negative)) : exceedsSingle mode r side v =
      (singleLimit.less r.abs ||
        (r.abs.same singleLimit && (side == .exact || (side == .above) == r.isPositive))) := by
  obtain ⟨hpos, hneg⟩ := hsign
  unfold exceedsSingle
  cases mode <;> cases negative <;> simp_all [RoundingMode.isOutward]

/-- The exact value is next to zero if the approximation is zero. -/
theorem natAbs_le_one_of_zero (h : Approximates r 0 side x)
    (hi : Format.single.round mode x = Format.single.point i) : i.natAbs ≤ 1 := by
  have hpoint : 0 < Format.single.point 1 := by
    rw [← point_zero (f := .single)]
    exact point_strictMono one_pos
  have hhi := round_mono_point mode (h.gt_of_gt (isPoint_double_of_single ⟨1, rfl⟩) hpoint).le
  have hlo := point_mono_round (i := -1) mode
    (h.lt_of_lt (isPoint_double_of_single ⟨-1, rfl⟩) (by rw [point_neg]; linarith)).le
  rw [hi, point_strictMono.le_iff_le] at hhi hlo
  omega

/-- The test for overflow tells whether the exact value is rounded to the limit of the range or beyond. -/
theorem exceedsSingle_iff (h : Approximates r R side x)
    (hi : Format.single.round mode x = Format.single.point i) {v : Datum}
    (hv : Format.single.At v (Format.single.deliver mode i)) :
    exceedsSingle mode r side v ↔ Format.single.infinityMagnitude ≤ i.natAbs := by
  have hinf := one_lt_infinityMagnitude (f := .single)
  rcases lt_trichotomy R 0 with hneg | rfl | hpos
  · have hx : x < 0 := h.gt_of_gt isPoint_zero hneg
    have hsign : r.isPositive = !true ∧ r.isBelowZero = true := by
      rw [Bool.not_true, ← Bool.not_eq_true, h.isPositive_iff, h.isBelowZero_iff]
      exact ⟨hneg.not_gt, hneg⟩
    have hi0 : i ≤ 0 := by
      rw [← point_strictMono.le_iff_le (f := Format.single.point), ← hi]
      exact round_mono_point mode (by rw [point_zero]; exact hx.le)
    by_cases hmode : mode = .nearest ∨ mode.isOutward true
    · rw [exceedsSingle_of_outward hsign hmode, hv.isInfinite_iff]
      rcases lt_or_ge i.natAbs Format.single.infinityMagnitude with hlt | hge
      · rw [deliver_of_lt hlt]
        omega
      · rw [deliver_neg_infinity hmode (by omega)]
        omega
    · rw [exceedsSingle_of_inward hsign hmode, reachesLimit_iff h hneg.ne, abs_of_neg hx, le_neg,
        ← point_infinityMagnitude, ← point_neg]
      constructor
      · intro hle
        have := round_mono_point mode hle
        rw [hi, point_strictMono.le_iff_le] at this
        omega
      · intro hle
        refine (le_round_of_inward (f := .single) hmode hx).trans ?_
        rw [hi, point_strictMono.le_iff_le]
        omega
  · have hle := natAbs_le_one_of_zero h hi
    have hdeliver := hv
    rw [deliver_of_lt (by omega)] at hdeliver
    have hfinite : v.isInfinite = false := by
      rw [← Bool.not_eq_true, hdeliver.isInfinite_iff]
      omega
    have hless := singleLimit_hasValue.less_iff h.value.abs
    have hsame := h.value.abs.same_iff singleLimit_hasValue
    have hpos := h.isPositive_iff
    have hneg := h.isBelowZero_iff
    have hlimit : ¬(2 : ℝ) ^ (128 : ℤ) < |0| ∧ ¬|(0 : ℝ)| = 2 ^ (128 : ℤ) := by
      rw [abs_zero]
      norm_num
    simp only [lt_irrefl, iff_false, hlimit.1, hlimit.2, Bool.not_eq_true] at hless hsame hpos hneg
    have hfalse : exceedsSingle mode r side v = false := by
      unfold exceedsSingle
      cases mode <;> simp [hfinite, hless, hsame, hpos, hneg]
    simp only [hfalse, Bool.false_eq_true, false_iff]
    omega
  · have hx : 0 < x := h.lt_of_lt isPoint_zero hpos
    have hsign : r.isPositive = !false ∧ r.isBelowZero = false := by
      rw [Bool.not_false, ← Bool.not_eq_true r.isBelowZero, h.isPositive_iff, h.isBelowZero_iff]
      exact ⟨hpos, hpos.not_gt⟩
    have hi0 : 0 ≤ i := by
      rw [← point_strictMono.le_iff_le (f := Format.single.point), ← hi]
      exact point_mono_round mode (by rw [point_zero]; exact hx.le)
    by_cases hmode : mode = .nearest ∨ mode.isOutward false
    · rw [exceedsSingle_of_outward hsign hmode, hv.isInfinite_iff]
      rcases lt_or_ge i.natAbs Format.single.infinityMagnitude with hlt | hge
      · rw [deliver_of_lt hlt]
        omega
      · rw [deliver_infinity hmode (by omega)]
        omega
    · rw [exceedsSingle_of_inward hsign hmode, reachesLimit_iff h hpos.ne', abs_of_pos hx,
        ← point_infinityMagnitude]
      constructor
      · intro hle
        have := point_mono_round mode hle
        rw [hi, point_strictMono.le_iff_le] at this
        omega
      · intro hle
        refine le_trans ?_ (round_le_of_inward (f := .single) hmode hx)
        rw [hi, point_strictMono.le_iff_le]
        omega

/-! ## The finished result -/

/-- The approximation of zero is exact. -/
theorem Approximates.eq_zero (h : Approximates r R side 0) : R = 0 ∧ side = .exact := by
  have hR : R = 0 := by
    by_contra hne
    rcases lt_or_gt_of_ne hne with hlt | hgt
    · exact lt_irrefl _ (h.gt_of_gt isPoint_zero hlt)
    · exact lt_irrefl _ (h.lt_of_lt isPoint_zero hgt)
  exact ⟨hR, h.exact_iff.2 hR.symm⟩

theorem isZero_and_exact_iff (h : Approximates r R side x) :
    (!r.isZero || side != .exact) = true ↔ x ≠ 0 := by
  rw [Bool.or_eq_true, Bool.not_eq_true', bne_iff_ne, ← Bool.not_eq_true, h.value.isZero_iff]
  constructor
  · rintro hor rfl
    exact hor.elim (fun hR => hR h.eq_zero.1) fun hside => hside h.eq_zero.2
  · intro hx
    by_cases hR : R = 0
    · exact .inr fun hside => hx (hR ▸ h.exact_iff.1 hside)
    · exact .inl hR

theorem resultNegative_eq (h : Approximates r R side x) : resultNegative r side = decide (x < 0) := by
  unfold resultNegative
  by_cases hR : R = 0
  · rw [if_pos (h.value.isZero_iff.2 hR)]
    simp only [h.below_iff, hR]
  · rw [if_neg (mt h.value.isZero_iff.1 hR), Bool.eq_iff_iff, h.isBelowZero_iff, decide_eq_true_eq, h.neg_iff hR]

theorem overflowed_single (negative : Bool) (mode : RoundingMode) :
    (overflowed .single negative mode).bits.toNat < 2 ^ 32 ∧
      (overflowed .single negative mode).raised = .overflow ∪ .inexact ∧
      (overflowed .single negative mode).single =
        if mode = .nearest ∨ mode.isOutward negative then .infinity negative
        else .finite negative (2 ^ 24 - 1) 104 := by
  cases negative <;> cases mode <;> decide

theorem underflowed_single (negative : Bool) (mode : RoundingMode) :
    (underflowed .single negative mode).bits.toNat < 2 ^ 32 ∧
      (underflowed .single negative mode).raised = .underflow ∪ .inexact ∧
      (underflowed .single negative mode).single =
        if mode.isOutward negative then .finite negative (2 ^ 23) (-149)
        else .finite negative 0 (-149) := by
  cases negative <;> cases mode <;> decide

/-- A datum of the format is written to the low half of the register. -/
theorem encode_single {v : Datum} (hv : Format.single.At v i) (raised : ExceptionSet) :
    (Outcome.mk (Precision.single.encode v) raised).bits.toNat < 2 ^ 32 ∧
      (Outcome.mk (Precision.single.encode v) raised).single = v := by
  obtain ⟨hlt, hdecode⟩ := hv.decode_encode
  have hsign : 2 * Format.single.signBit = 2 ^ 32 := by decide
  have hbits : (Precision.single.encode v).toNat = Format.single.encode v := by
    rw [Precision.encode, UInt64.toNat_ofNat']
    exact Nat.mod_eq_of_lt (by show Format.single.encode v < _; omega)
  exact ⟨by rw [hbits]; omega, by rw [Outcome.single, hbits, hdecode]⟩

theorem round_zero (mode : RoundingMode) : Format.single.round mode 0 = 0 :=
  isPoint_zero.round_eq mode

/-- A zero is converted to the zero of the same sign. -/
theorem convert_zero (h : r.HasValue 0) :
    Format.single.convert r = .finite r.isNegative 0 Format.single.unit := by
  obtain ⟨y, hy, hzero⟩ := h
  obtain rfl : y = 0 := by exact_mod_cast hzero
  rw [convert, hy]
  exact if_pos rfl

/-- Narrowing keeps the sign of a zero. -/
theorem isNegative_narrow_zero (mode : RoundingMode) (h : Approximates r R side 0) :
    (mode.narrow side r).1.isNegative = r.isNegative := by
  obtain ⟨rfl, hside⟩ := h.eq_zero
  have hconvert := convert_zero h.value
  have hvalue : (Format.single.convert r).HasValue 0 := by
    rw [hconvert]
    simpa using Datum.hasValue_finite r.isNegative 0 Format.single.unit
  rw [narrow_of_same ((hvalue.same_iff h.value).2 rfl), if_pos hside, hconvert]
  rfl

/-- The test for a result below the normal range. -/
theorem isTiny_iff (h : Approximates r R side x)
    (hi : Format.single.round mode x = Format.single.point i) {v : Datum} (hv : Format.single.At v i) :
    (Format.single.isSubnormal v || (v.isZero && (!r.isZero || side != .exact))) = true ↔
      x ≠ 0 ∧ |Format.single.round mode x| < leastNormalSingle := by
  rw [Bool.or_eq_true, Bool.and_eq_true, hv.isSubnormal_iff, hv.isZero_iff, isZero_and_exact_iff h, hi,
    abs_lt_leastNormalSingle_iff]
  constructor
  · rintro (⟨hpos, hlt⟩ | ⟨rfl, hx⟩)
    · refine ⟨?_, hlt⟩
      rintro rfl
      rw [round_zero, ← point_zero (f := .single)] at hi
      have := point_strictMono.injective hi
      omega
    · exact ⟨hx, by decide⟩
  · rintro ⟨hx, hlt⟩
    by_cases h0 : i = 0
    · exact .inr ⟨h0, hx⟩
    · exact .inl ⟨by omega, hlt⟩

/-- The test for an inexact result, within the finite range. -/
theorem isInexact_iff (h : Approximates r R side x)
    (hi : Format.single.round mode x = Format.single.point i)
    (hfinite : i.natAbs < Format.single.infinityMagnitude) :
    (mode.narrow side r).2 = true ↔ Format.single.round mode x ≠ x := by
  rw [← Bool.not_eq_false, Ne, not_iff_not, narrow_exact_iff mode h]
  constructor
  · rintro ⟨j, -, rfl⟩
    exact round_point mode j
  · intro heq
    exact ⟨i, hfinite, heq.symm.trans hi⟩

/-- A result that is finished from an approximation of the exact value is the one that the operation owes. -/
theorem finishSingle_roundsTo (mode : RoundingMode) (h : Approximates r R side x)
    (hmid : |R| = overflowMiddle → |R| ≤ |x|) :
    RoundsTo mode x r.isNegative (finishSingle mode r side) := by
  obtain ⟨i, hi, hat⟩ := narrow_at mode h hmid
  have hexceeds := exceedsSingle_iff h hi hat
  have hsign : x = 0 → (mode.narrow side r).1.isNegative = r.isNegative := by
    rintro rfl
    exact isNegative_narrow_zero mode h
  have hinexact := isInexact_iff h hi
  have hfinish : finishSingle mode r side =
      if exceedsSingle mode r side (mode.narrow side r).1 then overflowed .single r.isBelowZero mode
      else if Format.single.isSubnormal (mode.narrow side r).1 ||
          ((mode.narrow side r).1.isZero && (!r.isZero || side != .exact)) then
        underflowed .single (resultNegative r side) mode
      else ⟨Precision.single.encode (mode.narrow side r).1,
        if (mode.narrow side r).2 then .inexact else ∅⟩ := rfl
  rw [hfinish]
  generalize (mode.narrow side r).1 = v at *
  by_cases hover : Format.single.infinityMagnitude ≤ i.natAbs
  · -- beyond the finite range
    have hnormal : Format.single.minNormalMagnitude < Format.single.infinityMagnitude := by decide
    have hR : R ≠ 0 := by
      rintro rfl
      have := natAbs_le_one_of_zero h hi
      have := one_lt_infinityMagnitude (f := .single)
      omega
    have hnegative : r.isBelowZero = decide (x < 0) := by
      rw [Bool.eq_iff_iff, h.isBelowZero_iff, decide_eq_true_eq, h.neg_iff hR]
    have hlarge : largestSingle < |Format.single.round mode x| := by
      rwa [hi, largestSingle_lt_abs_iff]
    rw [if_pos (hexceeds.2 hover), hnegative]
    obtain ⟨hbits, hraised, hsingle⟩ := overflowed_single (decide (x < 0)) mode
    refine ⟨hbits, fun _ => ⟨hraised, hsingle⟩, fun _ hlt => ?_, fun hle => absurd hlarge hle.not_gt⟩
    rw [hi, abs_lt_leastNormalSingle_iff] at hlt
    omega
  rw [if_neg (mt hexceeds.1 hover)]
  rw [not_le] at hover
  rw [deliver_of_lt hover] at hat
  have htiny := isTiny_iff h hi hat
  have hsmall : ¬largestSingle < |Format.single.round mode x| := by
    rw [hi, largestSingle_lt_abs_iff]
    omega
  by_cases hunder : (Format.single.isSubnormal v || (v.isZero && (!r.isZero || side != .exact))) = true
  · -- below the normal range
    obtain ⟨hx, hlt⟩ := htiny.1 hunder
    rw [if_pos hunder, resultNegative_eq h]
    obtain ⟨hbits, hraised, hsingle⟩ := underflowed_single (decide (x < 0)) mode
    exact ⟨hbits, fun hlarge => absurd hlarge hsmall, fun _ _ => ⟨hraised, hsingle⟩,
      fun _ hor => (hor.elim hx hlt.not_ge).elim⟩
  · -- within the normal range, or zero
    rw [if_neg hunder]
    obtain ⟨hbits, hsingle⟩ := encode_single hat (if (mode.narrow side r).2 then .inexact else ∅)
    refine ⟨hbits, fun hlarge => absurd hlarge hsmall, fun hx hlt => absurd (htiny.2 ⟨hx, hlt⟩) hunder,
      fun _ _ => ⟨?_, ?_, fun hx => ?_⟩⟩
    · by_cases heq : Format.single.round mode x = x
      · rw [if_pos heq, if_neg (mt (hinexact hover).1 (not_not.2 heq))]
      · rw [if_neg heq, if_pos ((hinexact hover).2 heq)]
    · rw [hsingle, hi]
      exact hat.hasValue hover
    · rw [hsingle]
      exact hsign hx

end Vr4300.FloatingPoint
