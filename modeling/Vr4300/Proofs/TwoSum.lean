import Vr4300.Proofs.Grid

/-!
# The error of a rounded sum

The error of a sum that is rounded to nearest is itself a point, and it can be computed with rounded
operations alone: subtract the first term from the sum, which gives the part of the second term that
arrived, subtract that part from the sum, and add what both terms lost. All of these are exact, or the
errors they make cancel. Which of the two it is depends on which term reaches down to the finer grid.

## Contents

* `isPoint_error`: the error of a sum is a point.
* `isPoint_round_sub`: so is the difference between a sum and its coarser term.
* `Format.Parts`, `parts_of_isPoint`, `parts_lt`: what the error is made up of, and how large the parts are.
-/

namespace Vr4300.FloatingPoint.Format

variable {f : Format} [f.Proper] {a b : ℝ}

/-- The rounding to nearest of a sum misses it by at most either term. -/
theorem abs_round_add_sub_le (ha : f.IsPoint a) : |f.round .nearest (a + b) - (a + b)| ≤ |b| := by
  calc |f.round .nearest (a + b) - (a + b)| ≤ |a - (a + b)| := abs_round_sub_le ha _
    _ = |b| := by rw [sub_add_cancel_left, abs_neg]

theorem abs_round_le (x : ℝ) : |f.round .nearest x| ≤ 2 * |x| := by
  have h := abs_round_sub_le (f := f) isPoint_zero x
  rw [zero_sub, abs_neg] at h
  calc |f.round .nearest x| = |(f.round .nearest x - x) + x| := by rw [sub_add_cancel]
    _ ≤ |f.round .nearest x - x| + |x| := abs_add_le _ _
    _ ≤ 2 * |x| := by linarith

omit [f.Proper] in
/-- A point on a given grid fits the significand on that grid or on a coarser one. -/
theorem IsPoint.exists_onGrid_ge {e : ℤ} (ha : f.IsPoint a) (hgrid : OnGrid e a) :
    ∃ e', e ≤ e' ∧ OnGrid e' a ∧ |a| < 2 ^ (e' + f.fractionBits + 1) := by
  obtain ⟨e', -, hgrid', hlt, -⟩ := ha.exists_onGrid
  rcases le_total e e' with h | h
  · exact ⟨e', h, hgrid', hlt⟩
  · exact ⟨e, le_rfl, hgrid, hlt.trans_le (zpow_le_zpow_right₀ one_le_two (by omega))⟩

/-- The error of a sum is a point if both terms are on a grid on which the second one fits. -/
theorem isPoint_error {e : ℤ} (he : f.unit ≤ e) (ha : f.IsPoint a) (hae : OnGrid e a) (hbe : OnGrid e b)
    (hb : |b| < 2 ^ (e + f.fractionBits + 1)) : f.IsPoint (f.round .nearest (a + b) - (a + b)) :=
  isPoint_of_onGrid he ((onGrid_round _ (hae.add hbe)).sub (hae.add hbe))
    ((abs_round_add_sub_le ha).trans hb.le)

theorem two_mul_lt_zpow {x : ℝ} {e k : ℤ} (hx : |x| < 2 ^ e) (hk : (2 : ℝ) ^ e < 2 ^ k) : 2 * |x| < 2 ^ k := by
  have hle : e + 1 ≤ k := (zpow_lt_zpow_iff_right₀ one_lt_two).1 hk
  calc 2 * |x| < 2 * 2 ^ e := by linarith
    _ = 2 ^ (e + 1) := by rw [zpow_add_one₀ two_ne_zero, mul_comm]
    _ ≤ 2 ^ k := zpow_le_zpow_right₀ one_le_two hle

omit [f.Proper] in
theorem two_mul_zpow (e : ℤ) : (2 : ℝ) ^ (e + 1 + f.fractionBits + 1) = 2 * 2 ^ (e + f.fractionBits + 1) := by
  rw [← zpow_one_add₀ two_ne_zero]
  congr 1
  ring

/-- Half of an integer, cut off toward zero. -/
theorem exists_half (n : ℤ) : ∃ k r : ℤ, n = 2 * k + r ∧ r.natAbs ≤ 1 ∧ (2 * k).natAbs ≤ n.natAbs := by
  rcases le_total 0 n with h | h
  · exact ⟨n / 2, n % 2, by omega, by omega, by omega⟩
  · exact ⟨-(-n / 2), -(-n % 2), by omega, by omega, by omega⟩

/-- A sum of two terms that fit a grid is rounded by at most one step of it. -/
theorem abs_round_add_sub_le_zpow {e : ℤ} (he : f.unit ≤ e) (hae : OnGrid e a) (hbe : OnGrid e b)
    (ha : |a| < 2 ^ (e + f.fractionBits + 1)) (hb : |b| < 2 ^ (e + f.fractionBits + 1)) :
    |f.round .nearest (a + b) - (a + b)| ≤ 2 ^ e := by
  obtain ⟨n, hn⟩ := hae.add hbe
  obtain ⟨k, r, rfl, hr, hk⟩ := exists_half n
  have hpos : (0 : ℝ) < 2 ^ e := by positivity
  have hr : |(r : ℝ)| ≤ 1 := by
    rw [← Int.cast_abs, Int.abs_eq_natAbs]
    exact_mod_cast hr
  have hk : |((2 * k : ℤ) : ℝ)| ≤ |((2 * k + r : ℤ) : ℝ)| := by
    rw [← Int.cast_abs, ← Int.cast_abs, Int.abs_eq_natAbs, Int.abs_eq_natAbs]
    exact_mod_cast hk
  -- the significand without its last bit gives a point that close
  have hpoint : f.IsPoint ((2 * k : ℤ) * 2 ^ e) := by
    refine isPoint_of_onGrid (e := e + 1) (by omega) ⟨k, ?_⟩ ?_
    · rw [zpow_add_one₀ two_ne_zero]
      push_cast
      ring
    · calc |((2 * k : ℤ) : ℝ) * 2 ^ e| = |((2 * k : ℤ) : ℝ)| * 2 ^ e := by rw [abs_mul, abs_of_pos hpos]
        _ ≤ |((2 * k + r : ℤ) : ℝ)| * 2 ^ e := by gcongr
        _ = |a + b| := by rw [hn, abs_mul, abs_of_pos hpos]
        _ ≤ |a| + |b| := abs_add_le _ _
        _ ≤ 2 ^ (e + 1 + f.fractionBits + 1) := by rw [two_mul_zpow]; linarith
  calc |f.round .nearest (a + b) - (a + b)| ≤ |((2 * k : ℤ) : ℝ) * 2 ^ e - (a + b)| :=
        abs_round_sub_le hpoint _
    _ = |(r : ℝ)| * 2 ^ e := by
        rw [hn, ← sub_mul, abs_mul, abs_of_pos hpos]
        push_cast
        rw [sub_add_cancel_left, abs_neg]
    _ ≤ 2 ^ e := by nlinarith

/-- A rounded sum less the term on the coarser grid is a point. -/
theorem isPoint_round_sub {e : ℤ} (he : f.unit ≤ e) (ha : f.IsPoint a) (hae : OnGrid e a) (hbe : OnGrid e b)
    (hb : |b| < 2 ^ (e + f.fractionBits + 1)) : f.IsPoint (f.round .nearest (a + b) - a) := by
  have hpos : (0 : ℝ) < 2 ^ e := by positivity
  have herror := abs_round_add_sub_le (b := b) ha
  have htri : |f.round .nearest (a + b) - a| ≤ |f.round .nearest (a + b) - (a + b)| + |b| := by
    calc |f.round .nearest (a + b) - a| = |(f.round .nearest (a + b) - (a + b)) + b| := by ring_nf
      _ ≤ _ := abs_add_le _ _
  rcases round_eq_or_onGrid (f := f) .nearest (hae.add hbe) with h | h
  · rw [h, add_sub_cancel_left]
    exact isPoint_of_onGrid he hbe hb.le
  obtain ⟨e', hle, hae', ha'⟩ := ha.exists_onGrid_ge hae
  rcases hle.lt_or_eq with hlt | rfl
  · -- sum and term are both on the next coarser grid, on which twice the other term fits
    refine isPoint_of_onGrid (e := e + 1) (by omega) (h.sub (hae'.of_le hlt)) ?_
    rw [two_mul_zpow]
    linarith
  · -- both terms fit the same grid: the rounding moves by one step at most, and there is room for one
    refine isPoint_of_onGrid he ((onGrid_round _ (hae.add hbe)).sub hae) ?_
    have hone := abs_round_add_sub_le_zpow he hae hbe ha' hb
    have hroom : |b| + 2 ^ e ≤ 2 ^ (e + f.fractionBits + 1) := by
      obtain ⟨n, rfl⟩ := hbe
      rw [abs_mul, abs_of_pos hpos, add_assoc, zpow_add₀ two_ne_zero, mul_comm,
        mul_lt_mul_iff_of_pos_left hpos] at hb
      have hn : |n| + 1 ≤ (2 ^ (f.fractionBits + 1) : ℕ) := by
        have : |n| < (2 ^ (f.fractionBits + 1) : ℕ) := by exact_mod_cast hb
        omega
      have hn' : |(n : ℝ)| + 1 ≤ 2 ^ ((f.fractionBits : ℤ) + 1) := by exact_mod_cast hn
      rw [abs_mul, abs_of_pos hpos, add_assoc, zpow_add₀ two_ne_zero e]
      nlinarith
    linarith

variable (f) in
/-- The parts of which the error of a sum is made up: `s` is the rounded sum, and `b'` is what arrived in it of
the second term, itself rounded. All differences of theirs are exact. -/
structure Parts (a b s b' : ℝ) : Prop where
  /-- The rest of the sum, the first term as it arrived. -/
  rest : f.IsPoint (s - b')
  /-- What the first term lost. -/
  lost : f.IsPoint (b' - (s - a))
  /-- What the second term lost. -/
  missed : f.IsPoint (b - b')
  /-- What both lost together. -/
  error : f.IsPoint (a + b - s)
  /-- The second term arrives as more than a difference only if it outweighs the first one. -/
  finer : b' = s - a ∨ ∃ e : ℤ, |a| < 2 ^ e ∧ 2 ^ e ≤ |b|

theorem parts_of_isPoint (ha : f.IsPoint a) (hb : f.IsPoint b) :
    f.Parts a b (f.round .nearest (a + b)) (f.round .nearest (f.round .nearest (a + b) - a)) := by
  obtain ⟨ea, hea, hagrid, halt, -⟩ := ha.exists_onGrid
  obtain ⟨eb, heb, hbgrid, hblt, hbnormal⟩ := hb.exists_onGrid
  rcases le_or_gt eb ea with hle | hlt
  · -- the second term is the finer one: all of it that arrived is known exactly
    have hb' := isPoint_round_sub heb ha (hagrid.of_le hle) hbgrid hblt
    have herror := (isPoint_error heb ha (hagrid.of_le hle) hbgrid hblt).neg
    generalize f.round .nearest (a + b) = s at *
    rw [neg_sub] at herror
    rw [hb'.round_eq]
    refine ⟨?_, ?_, ?_, herror, .inl rfl⟩
    · rwa [sub_sub_cancel]
    · rw [sub_self]
      exact isPoint_zero
    · rwa [show b - (s - a) = a + b - s by ring]
  · -- the first term is the finer one
    have herror := (isPoint_error hea hb (hbgrid.of_le hlt.le) hagrid halt).neg
    have hmiss := abs_round_add_sub_le (b := a) hb
    have hs := isPoint_round (f := f) .nearest (a + b)
    have hgrid := round_eq_or_onGrid (f := f) .nearest (hagrid.add (hbgrid.of_le hlt.le))
    rw [add_comm b a] at herror hmiss
    generalize f.round .nearest (a + b) = s at *
    rw [neg_sub] at herror
    rcases hgrid with rfl | hgrid
    · rw [add_sub_cancel_left, hb.round_eq]
      refine ⟨?_, ?_, ?_, herror, .inl (by ring)⟩
      · rwa [add_sub_cancel_right]
      · rw [add_sub_cancel_left, sub_self]
        exact isPoint_zero
      · rw [sub_self]
        exact isPoint_zero
    have hs' := isPoint_round_sub hea hs (hgrid.of_le (by omega)) hagrid.neg (by rwa [abs_neg])
    have hs'' := isPoint_error hea hs (hgrid.of_le (by omega)) hagrid.neg (by rwa [abs_neg])
    have hmiss' := abs_round_add_sub_le (b := -a) hs
    have hgrid' := round_eq_or_onGrid (f := f) .nearest ((hgrid.of_le (by omega)).sub hagrid)
    rw [← sub_eq_add_neg] at hs' hs'' hmiss'
    generalize f.round .nearest (s - a) = b' at *
    refine ⟨?_, hs'', ?_, herror, .inr ⟨ea + f.fractionBits + 1, halt, ?_⟩⟩
    · rw [← neg_sub]
      exact hs'.neg
    · -- what the second term lost is a point, although `b'` need not be exact
      rcases hgrid' with rfl | hgrid'
      · rwa [show b - (s - a) = a + b - s by ring]
      · refine isPoint_of_onGrid (e := ea + 1) (by omega) ((hbgrid.of_le hlt).sub hgrid') ?_
        rw [abs_neg] at hmiss'
        rw [two_mul_zpow]
        calc |b - b'| = |(-(s - (a + b))) + (-(b' - (s - a)))| := by ring_nf
          _ ≤ |s - (a + b)| + |b' - (s - a)| := by
              rw [← abs_neg (s - (a + b)), ← abs_neg (b' - (s - a))]
              exact abs_add_le _ _
          _ ≤ 2 * 2 ^ (ea + f.fractionBits + 1) := by linarith
    · exact (zpow_le_zpow_right₀ one_le_two (by omega)).trans (hbnormal.resolve_left (by omega))

/-- Below a power of two that both terms stay below, so do the parts of the error. -/
theorem parts_lt {k : ℤ} (ha : f.IsPoint a) (hb : f.IsPoint b) (halt : |a| < 2 ^ k) (hblt : |b| < 2 ^ k) {s b' : ℝ}
    (hs : s = f.round .nearest (a + b)) (hb' : b' = f.round .nearest (s - a)) :
    |s - b'| < 2 ^ k ∧ |b' - (s - a)| < 2 ^ k ∧ |b - b'| < 2 ^ k ∧ |a + b - s| < 2 ^ k := by
  have hfiner := (parts_of_isPoint ha hb).finer
  have herror : |a + b - s| ≤ |a| := by
    rw [abs_sub_comm, hs, add_comm a b]
    exact abs_round_add_sub_le hb
  have hlost : |b' - (s - a)| ≤ |a| := by
    have hpoint : f.IsPoint s := hs ▸ isPoint_round _ _
    have := abs_round_add_sub_le (b := -a) hpoint
    rwa [abs_neg, ← sub_eq_add_neg, ← hb'] at this
  rw [← hs, ← hb'] at hfiner
  refine ⟨?_, hlost.trans_lt halt, ?_, herror.trans_lt halt⟩
  all_goals
    rcases hfiner with heq | ⟨e, hae, hbe⟩
  · rwa [heq, sub_sub_cancel]
  · calc |s - b'| = |a - (b' - (s - a))| := by ring_nf
      _ ≤ |a| + |b' - (s - a)| := abs_sub _ _
      _ < 2 ^ k := by linarith [two_mul_lt_zpow hae (hbe.trans_lt hblt)]
  · rw [heq, show b - (s - a) = a + b - s by ring]
    exact herror.trans_lt halt
  · calc |b - b'| = |(a + b - s) - (b' - (s - a))| := by ring_nf
      _ ≤ |a + b - s| + |b' - (s - a)| := abs_sub _ _
      _ < 2 ^ k := by linarith [two_mul_lt_zpow hae (hbe.trans_lt hblt)]

end Vr4300.FloatingPoint.Format
