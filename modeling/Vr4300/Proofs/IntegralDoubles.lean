import Vr4300.Proofs.DoubleSums

/-!
# Rounding doubles to integral doubles

A double is rounded to an integral double by floors, ceilings and a comparison of its distance from the floor with one
half. Floors and ceilings of doubles are doubles. The distance is a rounded difference, and can be one half where the
exact one is larger; then the floor is `-1`, and the tie goes to zero, where the double belongs.

## Contents

* `IsPoint.isInt_or_lt`, `isPoint_of_near`: the integers around a double are doubles.
* `isPoint_fract_or`: when the distance from the floor is exact.
* `floor_hasValue`, `ceil_hasValue`, `truncate_hasValue`, `roundHalfEven_hasValue`.
* `toIntegral_hasValue`: each mode gives the integer that it rounds to.
-/

namespace Vr4300.FloatingPoint

open Format

variable {d : Datum} {x : ℝ} {n : ℤ}

/-! ## Integers and doubles -/

/-- The integers up to `2 ^ 53` are doubles. -/
theorem isPoint_intCast (hn : |n| ≤ 2 ^ 53) : Format.double.IsPoint n := by
  refine isPoint_double_of_onGrid (e := 0) (by norm_num) ⟨n, by simp⟩ ?_
  rw [zero_add]
  exact_mod_cast hn

theorem abs_intCast_lt (hn : |n| ≤ 2 ^ 53) : |(n : ℝ)| < 2 ^ (1024 : ℤ) := by
  have hreal : |(n : ℝ)| ≤ 2 ^ (53 : ℤ) := by exact_mod_cast hn
  exact hreal.trans_lt (zpow_lt_zpow_right₀ one_lt_two (by norm_num))

/-- A double with a fraction is small. -/
theorem isInt_or_lt (hx : Format.double.IsPoint x) : (∃ m : ℤ, x = m) ∨ |x| < 2 ^ (52 : ℤ) := by
  obtain ⟨e, -, ⟨m, hm⟩, hlt, -⟩ := hx.exists_onGrid
  rw [fractionBits_double] at hlt
  rcases le_or_gt 0 e with he | he
  · obtain ⟨k, rfl⟩ := Int.eq_ofNat_of_zero_le he
    exact .inl ⟨m * 2 ^ k, by simpa using hm⟩
  · exact .inr (hlt.trans_le (zpow_le_zpow_right₀ one_le_two (by omega)))

/-- The integers around a small number are small. -/
theorem abs_le_of_near (hsmall : |x| < 2 ^ (52 : ℤ)) (hfloor : ⌊x⌋ ≤ n) (hceil : n ≤ ⌈x⌉) : |n| ≤ 2 ^ 52 := by
  obtain ⟨hlo, hhi⟩ := abs_lt.1 hsmall
  rw [abs_le]
  constructor
  · exact (Int.le_floor.2 (by push_cast; exact_mod_cast hlo.le)).trans hfloor
  · exact hceil.trans (Int.ceil_le.2 (by push_cast; exact_mod_cast hhi.le))

/-- **The integers around a double** are doubles. -/
theorem isPoint_of_near (hx : Format.double.IsPoint x) (hlt : |x| < 2 ^ (1024 : ℤ)) (hfloor : ⌊x⌋ ≤ n)
    (hceil : n ≤ ⌈x⌉) : Format.double.IsPoint n ∧ |(n : ℝ)| < 2 ^ (1024 : ℤ) := by
  rcases isInt_or_lt hx with ⟨m, rfl⟩ | hsmall
  · rw [Int.floor_intCast] at hfloor
    rw [Int.ceil_intCast] at hceil
    obtain rfl := le_antisymm hfloor hceil
    exact ⟨hx, hlt⟩
  · have habs : |n| ≤ 2 ^ 53 := (abs_le_of_near hsmall hfloor hceil).trans (by norm_num)
    exact ⟨isPoint_intCast habs, abs_intCast_lt habs⟩

/-- An integer that a number is rounded to is next to it. -/
theorem integer_le_ceil (mode : RoundingMode) (x : ℝ) : mode.integer x ≤ ⌈x⌉ := by
  cases mode with
  | nearest => exact RoundingMode.integer_nearest_le_ceil x
  | towardZero =>
    unfold RoundingMode.integer
    dsimp only
    split_ifs
    · exact le_rfl
    · exact Int.floor_le_ceil x
  | upward => exact le_rfl
  | downward => exact Int.floor_le_ceil x

theorem abs_sub_integer_lt (mode : RoundingMode) (x : ℝ) : |x - mode.integer x| < 1 := by
  have hfloor : (⌊x⌋ : ℝ) ≤ mode.integer x := by exact_mod_cast mode.floor_le_integer x
  have hceil : (mode.integer x : ℝ) ≤ ⌈x⌉ := by exact_mod_cast integer_le_ceil mode x
  have hlo := Int.lt_floor_add_one x
  have hhi := Int.ceil_lt_add_one x
  rw [abs_lt]
  constructor <;> linarith

/-! ## Floors and ceilings -/

/-- A number that is rounded to an integer next to it gives this integer. -/
theorem integral_hasValue (hd : d.HasValue x) (hx : Format.double.IsPoint x) (hlt : |x| < 2 ^ (1024 : ℤ))
    {round : ℚ → ℤ} (hround : ∀ q : ℚ, (q : ℝ) = x → round q = n) (hfloor : ⌊x⌋ ≤ n) (hceil : n ≤ ⌈x⌉) :
    (d.integral round).HasValue n := by
  obtain ⟨q, hq, hvalue⟩ := hd
  obtain ⟨hpoint, hnlt⟩ := isPoint_of_near hx hlt hfloor hceil
  have hexact := hpoint.round_eq .nearest
  unfold Datum.integral
  rw [hq]
  dsimp only
  rw [hround q hvalue]
  have hnearest := nearest_hasValue (f := .double) d.isNegative (x := (n : ℚ))
    (by rw [Rat.cast_intCast, hexact, size_infinityMagnitude_double]; exact hnlt)
  rwa [Rat.cast_intCast, hexact] at hnearest

section

variable (hd : d.HasValue x) (hx : Format.double.IsPoint x) (hlt : |x| < 2 ^ (1024 : ℤ))
include hd hx hlt

theorem floor_hasValue : d.floor.HasValue ⌊x⌋ := by
  refine integral_hasValue hd hx hlt ?_ le_rfl (Int.floor_le_ceil x)
  rintro q rfl
  exact (Rat.floor_cast q).symm

theorem ceil_hasValue : d.ceil.HasValue ⌈x⌉ := by
  refine integral_hasValue hd hx hlt ?_ (Int.floor_le_ceil x) le_rfl
  rintro q rfl
  rw [Rat.ceil_cast]
  exact Rat.ceil_eq_neg_floor_neg q

theorem truncate_hasValue : d.truncate.HasValue (RoundingMode.towardZero.integer x) := by
  have hfloor := floor_hasValue hd hx hlt
  have hceil := ceil_hasValue hd hx hlt
  unfold Datum.truncate RoundingMode.integer
  dsimp only
  rcases lt_trichotomy x 0 with hneg | rfl | hpos
  · have hsign := hd.neg.isNegative_of_pos (neg_pos.2 hneg)
    rw [isNegative_neg hd, Bool.not_eq_false'] at hsign
    rwa [if_pos hsign, if_pos hneg]
  · rw [Int.floor_zero] at hfloor
    rw [Int.ceil_zero] at hceil
    rw [if_neg (lt_irrefl _), Int.floor_zero]
    split_ifs
    · exact hceil
    · exact hfloor
  · rwa [hd.isNegative_of_pos hpos, if_neg Bool.false_ne_true, if_neg hpos.not_gt]

end

/-! ## The nearest integral double -/

theorem isPoint_half : Format.double.IsPoint (1 / 2) :=
  isPoint_double_of_onGrid (e := -1) (by norm_num) ⟨1, by norm_num⟩ (by rw [abs_of_pos] <;> norm_num)

/-- **The distance from the floor** is a double, unless the floor is `-1` and the distance is more than one half. -/
theorem isPoint_fract_or (hx : Format.double.IsPoint x) :
    Format.double.IsPoint (Int.fract x) ∨ (1 / 2 < Int.fract x ∧ ⌊x⌋ = -1) := by
  have hnonneg := Int.fract_nonneg x
  have hone := Int.fract_lt_one x
  obtain ⟨e, -, hgrid, hlt, -⟩ := hx.exists_onGrid
  rw [fractionBits_double] at hlt
  rcases lt_or_ge e (-53) with he | he
  -- a small double: its floor is zero or `-1`
  · have hsmall : |x| < 1 / 2 := by
      refine hlt.trans_le ((zpow_le_zpow_right₀ one_le_two (show e + 52 + 1 ≤ -1 by omega)).trans ?_)
      norm_num
    obtain ⟨hlo, hhi⟩ := abs_lt.1 hsmall
    rcases le_or_gt 0 x with h0 | h0
    · exact .inl (by rwa [Int.fract_eq_self.2 ⟨h0, by linarith⟩])
    · have hfloor : ⌊x⌋ = -1 := Int.floor_eq_iff.2 ⟨by push_cast; linarith, by push_cast; linarith⟩
      refine .inr ⟨?_, hfloor⟩
      rw [Int.fract, hfloor]
      push_cast
      linarith
  · rcases le_or_gt 0 e with he0 | he0
    · obtain ⟨m, rfl⟩ : ∃ m : ℤ, x = m := by
        obtain ⟨m, hm⟩ := hgrid.of_le he0
        exact ⟨m, by simpa using hm⟩
      rw [Int.fract_intCast]
      exact .inl isPoint_zero
    -- the distance is on the same grid as the double
    · have hfloor : OnGrid e (⌊x⌋ : ℝ) := OnGrid.of_le ⟨⌊x⌋, by simp⟩ he0.le
      refine .inl (isPoint_double_of_onGrid (by omega) (hgrid.sub hfloor) ?_)
      rw [abs_of_nonneg hnonneg]
      exact hone.le.trans (one_le_zpow₀ one_le_two (by omega))

/-- **The rounded distance** from the floor decides as the exact one does: where they compare differently with one half,
the floor is odd. -/
theorem round_fract_cases (hx : Format.double.IsPoint x) :
    let r := Format.double.round .nearest (Int.fract x)
    (r < 1 / 2 → Int.fract x < 1 / 2) ∧ (1 / 2 < r → 1 / 2 < Int.fract x) ∧
      (r = 1 / 2 → Int.fract x = 1 / 2 ∨ (1 / 2 < Int.fract x ∧ ¬Even ⌊x⌋)) := by
  intro r
  obtain ⟨i, hi⟩ := isPoint_half
  refine ⟨fun h => ?_, fun h => ?_, fun h => ?_⟩
  · by_contra hge
    rw [not_lt, hi] at hge
    have := point_mono_round .nearest hge
    rw [← hi] at this
    exact this.not_gt h
  · by_contra hle
    rw [not_lt, hi] at hle
    have := round_mono_point .nearest hle
    rw [← hi] at this
    exact this.not_gt h
  · rcases isPoint_fract_or hx with hpoint | ⟨hgt, hfloor⟩
    · exact .inl ((hpoint.round_eq .nearest).symm.trans h)
    · exact .inr ⟨hgt, by rw [hfloor]; decide⟩

/-- **The half of an integer** has a fraction if it is odd. -/
theorem fraction_half_iff {f : Datum} (hf : f.HasValue n) (hn : |n| ≤ 2 ^ 53) :
    ((Format.double.div f Datum.two).fraction.same Datum.zero : Bool) = true ↔ Even n := by
  have htwo : Datum.two.HasValue 2 := by simpa [Datum.two] using Datum.hasValue_finite false 1 1
  have hgrid : OnGrid (-1) ((n : ℝ) / 2) := ⟨n, by rw [zpow_neg_one, div_eq_mul_inv]⟩
  have hle : |(n : ℝ) / 2| ≤ 2 ^ (52 : ℤ) := by
    have hreal : |(n : ℝ)| ≤ 2 ^ (53 : ℤ) := by exact_mod_cast hn
    rw [abs_div, abs_two, div_le_iff₀ two_pos]
    exact hreal.trans (by norm_num)
  have hlt : |(n : ℝ) / 2| < 2 ^ (1024 : ℤ) := hle.trans_lt (zpow_lt_zpow_right₀ one_lt_two (by norm_num))
  have hpoint : Format.double.IsPoint ((n : ℝ) / 2) := isPoint_double_of_onGrid (by norm_num) hgrid hle
  have hhalf : (Format.double.div f Datum.two).HasValue ((n : ℝ) / 2) := by
    have hround := hpoint.round_eq .nearest
    have := div_hasValue (f := .double) hf htwo two_ne_zero (by rwa [hround, size_infinityMagnitude_double])
    rwa [hround] at this
  have hwhole := truncate_hasValue hhalf hpoint hlt
  set t := RoundingMode.towardZero.integer ((n : ℝ) / 2) with ht
  have hdistance : |(n : ℝ) / 2 - t| < 1 := abs_sub_integer_lt .towardZero _
  have hfraction : (Format.double.div f Datum.two).fraction.HasValue ((n : ℝ) / 2 - t) := by
    refine sub_hasValue_of_isPoint hhalf hwhole ?_ ?_
    · exact isPoint_double_of_onGrid (by norm_num) (hgrid.sub (OnGrid.of_le ⟨t, by simp⟩ (by norm_num : (-1 : ℤ) ≤ 0)))
        (hdistance.le.trans (one_le_zpow₀ one_le_two (by norm_num)))
    · exact hdistance.trans (one_lt_zpow₀ one_lt_two (by norm_num))
  rw [hfraction.same_iff (show Datum.zero.HasValue 0 from Datum.hasValue_zero), sub_eq_zero]
  constructor
  · intro heq
    have hn : (n : ℝ) = t + t := by linarith
    exact ⟨t, by exact_mod_cast hn⟩
  · rintro ⟨k, rfl⟩
    have hk : ((k + k : ℤ) : ℝ) / 2 = k := by push_cast; ring
    rw [ht, hk, RoundingMode.integer_intCast]

/-- **Rounding half to even** gives the nearest integer. -/
theorem roundHalfEven_hasValue (hd : d.HasValue x) (hx : Format.double.IsPoint x) (hlt : |x| < 2 ^ (1024 : ℤ)) :
    d.roundHalfEven.HasValue (RoundingMode.nearest.integer x) := by
  have hfloor := floor_hasValue hd hx hlt
  have hhalf : Datum.half.HasValue (1 / 2) := by simpa [Datum.half] using Datum.hasValue_finite false 1 (-1)
  have hone : Datum.one.HasValue 1 := by simpa [Datum.one] using Datum.hasValue_finite false 1 0
  have hdistance : (Format.double.sub d d.floor).HasValue (Format.double.round .nearest (Int.fract x)) := by
    have hone : |x + -(⌊x⌋ : ℝ)| ≤ 2 ^ (0 : ℤ) := by
      rw [← sub_eq_add_neg, Int.self_sub_floor, abs_of_nonneg (Int.fract_nonneg x)]
      exact (Int.fract_lt_one x).le
    have hsub := add_hasValue (f := .double) hd hfloor.neg (abs_round_lt hone (by norm_num))
    rwa [← sub_eq_add_neg, Int.self_sub_floor] at hsub
  -- where the distance matters, the floor is small
  have hsmall (hne : Int.fract x ≠ 0) : |⌊x⌋| ≤ 2 ^ 52 := by
    rcases isInt_or_lt hx with ⟨m, rfl⟩ | hlt
    · exact absurd (Int.fract_intCast m) hne
    · exact abs_le_of_near hlt le_rfl (Int.floor_le_ceil x)
  have hnext (hne : Int.fract x ≠ 0) : (Format.double.add d.floor Datum.one).HasValue ((⌊x⌋ + 1 : ℤ) : ℝ) := by
    have habs : |⌊x⌋ + 1| ≤ 2 ^ 53 := by
      have := abs_le.1 (hsmall hne)
      exact abs_le.2 ⟨by omega, by omega⟩
    have hpoint := isPoint_intCast habs
    have hlt := abs_intCast_lt habs
    push_cast at hpoint hlt ⊢
    exact add_hasValue_of_isPoint hfloor hone hpoint hlt
  have hkeeps (h : Int.fract x < 1 / 2 ∨ (Int.fract x = 1 / 2 ∧ Even ⌊x⌋)) : RoundingMode.nearest.integer x = ⌊x⌋ :=
    if_pos h
  have hsteps (h : ¬(Int.fract x < 1 / 2 ∨ (Int.fract x = 1 / 2 ∧ Even ⌊x⌋))) :
      RoundingMode.nearest.integer x = ⌊x⌋ + 1 := if_neg h
  obtain ⟨hbelow, habove, htie⟩ := round_fract_cases hx
  unfold Datum.roundHalfEven
  rw [hdistance.compare?_eq hhalf]
  rcases lt_trichotomy (Format.double.round .nearest (Int.fract x)) (1 / 2) with hr | hr | hr
  · rw [if_pos hr, hkeeps (.inl (hbelow hr))]
    exact hfloor
  · have hge : 1 / 2 ≤ Int.fract x := (htie hr).elim (fun h => h.ge) fun h => h.1.le
    have hne : Int.fract x ≠ 0 := by linarith
    have hparity := fraction_half_iff hfloor ((hsmall hne).trans (by norm_num))
    rw [if_neg hr.not_lt, if_pos hr]
    by_cases heven : Even ⌊x⌋
    · have hexact : Int.fract x = 1 / 2 := (htie hr).resolve_right fun h => h.2 heven
      rw [hkeeps (.inr ⟨hexact, heven⟩)]
      dsimp only
      rwa [if_pos (hparity.2 heven)]
    · rw [hsteps fun h => h.elim hge.not_gt fun h => heven h.2]
      dsimp only
      rw [if_neg (mt hparity.1 heven)]
      exact hnext hne
  · have hgt := habove hr
    rw [if_neg hr.not_gt, if_neg hr.ne', hsteps fun h => h.elim hgt.not_gt fun h => hgt.ne' h.1]
    exact hnext (by linarith)

/-- Just above minus one half the rounded distance is a tie, and the result is zero nevertheless. -/
example :
    let d : Datum := .finite true (2 ^ 53 - 1) (-54)
    (Format.double.sub d d.floor).same Datum.half = true ∧ d.roundHalfEven.isZero = true := by
  decide +kernel

/-- **Each mode** rounds a double to the integral double of the integer that it gives. -/
theorem toIntegral_hasValue (mode : RoundingMode) (hd : d.HasValue x) (hx : Format.double.IsPoint x)
    (hlt : |x| < 2 ^ (1024 : ℤ)) : (mode.toIntegral d).HasValue (mode.integer x) := by
  cases mode with
  | nearest => exact roundHalfEven_hasValue hd hx hlt
  | towardZero => exact truncate_hasValue hd hx hlt
  | upward => exact ceil_hasValue hd hx hlt
  | downward => exact floor_hasValue hd hx hlt

end Vr4300.FloatingPoint
