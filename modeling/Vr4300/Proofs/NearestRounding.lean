import Mathlib.Analysis.Real.Sqrt
import Vr4300.Proofs.Values

/-!
# Rounding to nearest is computed correctly

The arithmetic rounds exact rationals, and square roots of rationals, with integer divisions and shifts.
The datum that comes out stands for the point to which the specification rounds the number, and for infinity
where that point lies beyond the finite ones.

## Contents

* `floorLog2_eq`, `divideHalfEven_eq`, `floorSqrt_eq`: the integer algorithms.
* `Format.nearest_at`, `Format.nearestSqrt_at`: what they make up.
* `Format.nearest_hasValue`: the value of a rounding that stays finite.
* `Format.ofResidual_nearest`: the sign of a residual survives its rounding.
-/

namespace Vr4300.FloatingPoint

/-! ## Integer algorithms -/

theorem pow_fits_iff {num den : ℕ} (hden : 0 < den) (g : ℤ) :
    (if 0 ≤ g then decide (den <<< g.toNat ≤ num) else decide (den ≤ num <<< (-g).toNat)) = true ↔
      (2 : ℝ) ^ g ≤ num / den := by
  have hden' : (0 : ℝ) < den := by exact_mod_cast hden
  rw [le_div_iff₀ hden']
  split_ifs with hg
  · obtain ⟨n, rfl⟩ := Int.eq_ofNat_of_zero_le hg
    rw [decide_eq_true_eq, Int.toNat_natCast, Nat.shiftLeft_eq, zpow_natCast, mul_comm]
    exact_mod_cast Iff.rfl
  · obtain ⟨n, hn⟩ : ∃ n : ℕ, -g = n := ⟨(-g).toNat, by omega⟩
    obtain rfl : g = -n := by omega
    have hpow : (0 : ℝ) < 2 ^ n := by positivity
    rw [decide_eq_true_eq, neg_neg, Int.toNat_natCast, Nat.shiftLeft_eq, zpow_neg, zpow_natCast,
      inv_mul_le_iff₀ hpow, mul_comm]
    exact_mod_cast Iff.rfl

theorem log_eq_of_bounds {x : ℝ} {g : ℤ} (hlo : 2 ^ g ≤ x) (hhi : x < 2 ^ (g + 1)) : Int.log 2 x = g := by
  have hx : 0 < x := lt_of_lt_of_le (by positivity) hlo
  have h1 := (Int.zpow_le_iff_le_log one_lt_two hx).1 (by exact_mod_cast hlo : ((2 : ℕ) : ℝ) ^ g ≤ x)
  have h2 := (Int.lt_zpow_iff_log_lt one_lt_two hx).1 (by exact_mod_cast hhi : x < ((2 : ℕ) : ℝ) ^ (g + 1))
  omega

theorem floorLog2_eq {num den : ℕ} (hnum : 0 < num) (hden : 0 < den) :
    floorLog2 num den = Int.log 2 ((num : ℝ) / den) := by
  have hden' : (0 : ℝ) < den := by exact_mod_cast hden
  have hpow : ∀ n : ℕ, 0 < n → (2 : ℝ) ^ (n.log2 : ℤ) ≤ n ∧ (n : ℝ) < 2 ^ ((n.log2 : ℤ) + 1) := by
    intro n hn
    exact ⟨by exact_mod_cast Nat.log2_self_le hn.ne', by exact_mod_cast Nat.lt_log2_self⟩
  obtain ⟨hnlo, hnhi⟩ := hpow num hnum
  obtain ⟨hdlo, hdhi⟩ := hpow den hden
  -- the guess from the two lengths is right or one too large
  have hhi : (num : ℝ) / den < 2 ^ ((num.log2 : ℤ) - den.log2 + 1) := by
    rw [div_lt_iff₀ hden']
    calc (num : ℝ) < 2 ^ ((num.log2 : ℤ) + 1) := hnhi
      _ = 2 ^ ((num.log2 : ℤ) - den.log2 + 1) * 2 ^ (den.log2 : ℤ) := by
          rw [← zpow_add₀ two_ne_zero]
          congr 1
          ring
      _ ≤ 2 ^ ((num.log2 : ℤ) - den.log2 + 1) * den := by gcongr
  have hlo : (2 : ℝ) ^ ((num.log2 : ℤ) - den.log2 - 1) ≤ num / den := by
    rw [le_div_iff₀ hden']
    calc (2 : ℝ) ^ ((num.log2 : ℤ) - den.log2 - 1) * den
        ≤ 2 ^ ((num.log2 : ℤ) - den.log2 - 1) * 2 ^ ((den.log2 : ℤ) + 1) := by gcongr
      _ = 2 ^ (num.log2 : ℤ) := by
          rw [← zpow_add₀ two_ne_zero]
          congr 1
          ring
      _ ≤ num := hnlo
  unfold floorLog2
  dsimp only
  have hfits := @pow_fits_iff num den hden ((num.log2 : ℤ) - den.log2)
  split_ifs at hfits ⊢ with hg hf hf
  · exact (log_eq_of_bounds (hfits.1 hf) hhi).symm
  · exact (log_eq_of_bounds hlo (by simpa using mt hfits.2 hf)).symm
  · exact (log_eq_of_bounds (hfits.1 hf) hhi).symm
  · exact (log_eq_of_bounds hlo (by simpa using mt hfits.2 hf)).symm

/-- The integer rule, for a real number whose floor and whose position against the middle are known. -/
theorem halfEven_eq {z : ℝ} {q : ℕ} {rest : Ordering} (hlo : q ≤ z) (hhi : z < q + 1)
    (hlt : rest = .lt ↔ z < q + 1 / 2) (heq : rest = .eq ↔ z = q + 1 / 2) :
    (halfEven q rest : ℤ) = RoundingMode.nearest.integer z := by
  symm
  rw [RoundingMode.integer_nearest_eq_iff]
  cases rest with
  | lt =>
    have h := hlt.1 rfl
    left
    simp only [halfEven, Int.cast_natCast]
    rw [abs_of_nonneg (by linarith)]
    linarith
  | eq =>
    have h := heq.1 rfl
    right
    have hmod : (((q + q % 2 : ℕ) : ℤ) : ℝ) = q ∨ (((q + q % 2 : ℕ) : ℤ) : ℝ) = q + 1 := by
      rcases Nat.mod_two_eq_zero_or_one q with h | h <;> simp [h]
    refine ⟨?_, ?_⟩
    · simp only [halfEven, h]
      rcases hmod with hmod | hmod <;> rw [hmod]
      · norm_num
      · rw [abs_of_neg] <;> linarith
    · rw [halfEven, Int.even_coe_nat, Nat.even_iff]
      omega
  | gt =>
    have h1 : ¬z < q + 1 / 2 := fun h => by simpa using hlt.2 h
    have h2 : z ≠ q + 1 / 2 := fun h => by simpa using heq.2 h
    have h3 := lt_of_le_of_ne (not_lt.1 h1) h2.symm
    left
    simp only [halfEven]
    push_cast
    rw [abs_of_neg (by linarith)]
    linarith

theorem divideHalfEven_eq (num : ℕ) {den : ℕ} (hden : 0 < den) :
    (divideHalfEven num den : ℤ) = RoundingMode.nearest.integer ((num : ℝ) / den) := by
  have hden' : (0 : ℝ) < den := by exact_mod_cast hden
  have hsplit : (num : ℝ) = (num / den : ℕ) * den + (num % den : ℕ) := by
    exact_mod_cast (Nat.div_add_mod' num den).symm
  have hmod : ((num % den : ℕ) : ℝ) < den := by exact_mod_cast Nat.mod_lt num hden
  have hnonneg : (0 : ℝ) ≤ (num % den : ℕ) := by positivity
  refine halfEven_eq ?_ ?_ ?_ ?_
  · rw [le_div_iff₀ hden']
    linarith
  · rw [div_lt_iff₀ hden']
    linarith
  · rw [Nat.compare_eq_lt, div_lt_iff₀ hden', ← @Nat.cast_lt ℝ]
    push_cast
    constructor <;> intro <;> linarith
  · rw [Nat.compare_eq_eq, div_eq_iff hden'.ne', ← @Nat.cast_inj ℝ]
    push_cast
    constructor <;> intro <;> linarith

theorem floorSqrt_bounds (n : ℕ) : floorSqrt n * floorSqrt n ≤ n ∧
    n < (floorSqrt n + 1) * (floorSqrt n + 1) := by
  induction n using floorSqrt.induct with
  | case1 => simp [floorSqrt]
  | case2 n hn r h ih =>
    rw [floorSqrt, if_neg hn, if_pos h]
    refine ⟨h, ?_⟩
    have hquarter : n < 4 * ((floorSqrt (n / 4) + 1) * (floorSqrt (n / 4) + 1)) := by omega
    nlinarith
  | case3 n hn r h ih =>
    rw [floorSqrt, if_neg hn, if_neg h]
    refine ⟨?_, not_le.1 h⟩
    have hquarter : 4 * (floorSqrt (n / 4) * floorSqrt (n / 4)) ≤ n := by omega
    nlinarith

namespace RoundingMode

theorem floor_le_integer (mode : RoundingMode) (x : ℝ) : ⌊x⌋ ≤ mode.integer x := by
  have := Int.floor_le_ceil x
  unfold integer
  cases mode <;> dsimp only <;> (try split_ifs) <;> omega

theorem integer_nearest_le_ceil (x : ℝ) : nearest.integer x ≤ ⌈x⌉ := by
  unfold integer
  dsimp only
  split_ifs with h
  · exact Int.floor_le_ceil x
  · rw [Int.add_one_le_iff, Int.lt_ceil]
    refine lt_of_le_of_ne (Int.floor_le x) fun heq => h (.inl ?_)
    rw [Int.fract, ← heq]
    norm_num

end RoundingMode

namespace Format

variable {f : Format}

/-! ## Rounding a rational -/

variable (f) in
/-- The number of the datum that a point is rounded to: beyond infinity there is nothing. -/
def clamp (i : ℤ) : ℤ :=
  max (-f.infinityMagnitude) (min f.infinityMagnitude i)

theorem clamp_of_natAbs_le {i : ℤ} (h : i.natAbs ≤ f.infinityMagnitude) : f.clamp i = i := by
  unfold clamp
  omega

theorem pack_at {q : ℤ} {n : ℕ} (h : f.Canonical q n) {i : ℤ} {s : Bool}
    (hi : i = if s then -f.index q n else f.index q n) : f.At (f.pack s n q) (f.clamp i) := by
  rw [index_natCast h, ← Nat.shiftLeft_eq] at hi
  unfold pack
  generalize (q - f.unit).toNat <<< f.fractionBits + n = k at *
  have hclamp : (f.clamp i).natAbs = min f.infinityMagnitude k ∧
      (f.clamp i < 0 → s = true) ∧ (0 < f.clamp i → s = false) := by
    unfold clamp
    cases s with
    | false =>
      have hi : i = k := hi
      exact ⟨by omega, fun h => by omega, fun _ => rfl⟩
    | true =>
      have hi : i = -k := hi
      exact ⟨by omega, fun _ => rfl, fun h => by omega⟩
  exact ⟨by omega, s, by rw [hclamp.1], hclamp.2⟩

theorem abs_cast_eq_div (x : ℚ) : |(x : ℝ)| = (x.num.natAbs : ℝ) / x.den := by
  rw [Nat.cast_natAbs, Int.cast_abs, ← Nat.abs_cast x.den, ← abs_div, ← Rat.cast_def]

/-- The integer division finds the rounding of the quotient by a power of two. -/
theorem significand_eq (x : ℚ) (q : ℤ) :
    ((if 0 ≤ q then divideHalfEven x.num.natAbs (x.den <<< q.toNat)
      else divideHalfEven (x.num.natAbs <<< (-q).toNat) x.den : ℕ) : ℤ) =
      RoundingMode.nearest.integer (|(x : ℝ)| / 2 ^ q) := by
  rw [abs_cast_eq_div]
  split_ifs with h
  · obtain ⟨n, rfl⟩ := Int.eq_ofNat_of_zero_le h
    have hden : 0 < x.den * 2 ^ n := Nat.mul_pos x.den_pos (by positivity)
    rw [Int.toNat_natCast, Nat.shiftLeft_eq, divideHalfEven_eq _ hden, zpow_natCast, div_div]
    push_cast
    rfl
  · obtain ⟨n, hn⟩ : ∃ n : ℕ, -q = n := ⟨(-q).toNat, by omega⟩
    rw [divideHalfEven_eq _ x.den_pos, hn, show q = -n by omega, Int.toNat_natCast, Nat.shiftLeft_eq,
      zpow_neg, zpow_natCast, div_inv_eq_mul, div_mul_eq_mul_div]
    push_cast
    rfl

/-- A number whose absolute value the integer division rounds is rounded to the point that the specification
gives. -/
theorem pack_at_round {x : ℝ} (hx : x ≠ 0) {n : ℕ} {s : Bool} (hs : s = true ↔ x < 0)
    (hn : (n : ℤ) = RoundingMode.nearest.integer (|x| / f.spacing x)) :
    ∃ i, f.round .nearest x = f.point i ∧
      f.At (f.pack s n (f.quantum (Int.log 2 |x|))) (f.clamp i) := by
  have hround : RoundingMode.nearest.integer (x / f.spacing x) = if s then -(n : ℤ) else n := by
    rw [hn]
    cases s
    · rw [abs_of_nonneg (not_lt.1 (by simpa using hs))]
      rfl
    · rw [abs_of_neg (by simpa using hs), neg_div, RoundingMode.integer_nearest_neg]
      simp
  have hcanonical := canonical_of_near (f := f) hx (RoundingMode.floor_le_integer .nearest _)
    (RoundingMode.integer_nearest_le_ceil _)
  rw [hround] at hcanonical
  have hcanonical' : f.Canonical (f.quantum (Int.log 2 |x|)) n := by
    cases s
    · exact hcanonical
    · exact ⟨hcanonical.unit_le, by simpa using hcanonical.le_pow, by simpa using hcanonical.pow_le⟩
  refine ⟨_, ?_, pack_at hcanonical' rfl⟩
  rw [round, hround, spacing, ← point_index hcanonical]
  cases s <;> simp [index_neg]

/-- An exact number is rounded to the point that the specification gives. -/
theorem nearest_at [f.Proper] (z : Bool) (x : ℚ) :
    ∃ i, f.round .nearest (x : ℝ) = f.point i ∧ f.At (f.nearest z x) (f.clamp i) := by
  rcases eq_or_ne x 0 with rfl | hx
  · refine ⟨0, by rw [Rat.cast_zero, point_zero]; exact isPoint_zero.round_eq _, by simp [clamp], z, ?_, ?_, ?_⟩
    · have := one_lt_infinityMagnitude (f := f)
      simp [nearest, clamp, ofMagnitude, show (0 : ℕ) ≠ f.infinityMagnitude by omega]
    · simp [clamp]
    · simp [clamp]
  have hlog : floorLog2 x.num.natAbs x.den = Int.log 2 |(x : ℝ)| := by
    rw [floorLog2_eq (Int.natAbs_pos.2 (Rat.num_ne_zero.2 hx)) x.den_pos, ← abs_cast_eq_div]
  have hsign : decide (x < 0) = true ↔ (x : ℝ) < 0 := by
    rw [decide_eq_true_eq]
    exact_mod_cast Iff.rfl
  rw [nearest, if_neg hx]
  dsimp only
  rw [hlog]
  exact pack_at_round (by exact_mod_cast hx) hsign (significand_eq x _)

/-! ## Rounding a square root -/

theorem log_sqrt {x : ℝ} (hx : 0 < x) : Int.log 2 √x = Int.log 2 x / 2 := by
  have hsq : ∀ g : ℤ, (2 : ℝ) ^ (2 * g) = (2 ^ g) ^ 2 := fun g => by rw [mul_comm, zpow_mul]; rfl
  have hlo : (2 : ℝ) ^ (2 * (Int.log 2 x / 2)) ≤ x := by
    calc (2 : ℝ) ^ (2 * (Int.log 2 x / 2)) ≤ ((2 : ℕ) : ℝ) ^ Int.log 2 x := by
          rw [Nat.cast_ofNat]
          exact zpow_le_zpow_right₀ one_le_two (by omega)
      _ ≤ x := Int.zpow_log_le_self one_lt_two hx
  have hhi : x < 2 ^ (2 * (Int.log 2 x / 2 + 1)) := by
    calc x < ((2 : ℕ) : ℝ) ^ (Int.log 2 x + 1) := Int.lt_zpow_succ_log_self one_lt_two x
      _ ≤ 2 ^ (2 * (Int.log 2 x / 2 + 1)) := by
          rw [Nat.cast_ofNat]
          exact zpow_le_zpow_right₀ one_le_two (by omega)
  rw [hsq] at hlo hhi
  exact log_eq_of_bounds (Real.le_sqrt_of_sq_le hlo) ((Real.sqrt_lt' (by positivity)).2 hhi)

theorem root_eq (n : ℕ) {d : ℕ} (hd : 0 < d) :
    (halfEven (floorSqrt (n / d))
      (compare (4 * n) ((2 * floorSqrt (n / d) + 1) * (2 * floorSqrt (n / d) + 1) * d)) : ℤ) =
      RoundingMode.nearest.integer √((n : ℝ) / d) := by
  have hd' : (0 : ℝ) < d := by exact_mod_cast hd
  obtain ⟨hlo, hhi⟩ := floorSqrt_bounds (n / d)
  generalize floorSqrt (n / d) = r at *
  rw [Nat.le_div_iff_mul_le hd] at hlo
  rw [Nat.div_lt_iff_lt_mul hd] at hhi
  have hlo' : (r : ℝ) * r * d ≤ n := by exact_mod_cast hlo
  have hhi' : (n : ℝ) < (r + 1) * (r + 1) * d := by exact_mod_cast hhi
  refine halfEven_eq ?_ ?_ ?_ ?_
  · refine Real.le_sqrt_of_sq_le ?_
    rw [le_div_iff₀ hd', sq]
    exact hlo'
  · rw [Real.sqrt_lt' (by positivity), div_lt_iff₀ hd', sq]
    exact hhi'
  · rw [Nat.compare_eq_lt, Real.sqrt_lt' (by positivity), div_lt_iff₀ hd', ← @Nat.cast_lt ℝ]
    push_cast
    constructor <;> intro <;> linarith
  · rw [Nat.compare_eq_eq, Real.sqrt_eq_iff_eq_sq (by positivity) (by positivity), div_eq_iff hd'.ne',
      ← @Nat.cast_inj ℝ]
    push_cast
    constructor <;> intro <;> linarith

/-- The fraction whose root is taken is the number in units of the square of the quantum. -/
theorem square_fraction {x : ℚ} (hx : 0 < x) (q : ℤ) {p : ℕ × ℕ}
    (hp : (if 0 ≤ q then (x.num.natAbs, x.den <<< (2 * q).toNat)
      else (x.num.natAbs <<< (-2 * q).toNat, x.den)) = p) :
    0 < p.2 ∧ √((p.1 : ℝ) / p.2) = √(x : ℝ) / 2 ^ q := by
  have hx' : (0 : ℝ) < x := by exact_mod_cast hx
  have habs : (x : ℝ) = x.num.natAbs / x.den := by rw [← abs_cast_eq_div, abs_of_pos hx']
  have hquotient : √(x : ℝ) / 2 ^ q = √((x : ℝ) / 2 ^ (2 * q)) := by
    rw [Real.sqrt_div hx'.le, mul_comm, zpow_mul]
    congr 1
    exact (Real.sqrt_sq (by positivity)).symm
  rw [hquotient]
  split_ifs at hp with h <;> subst hp <;> dsimp only
  · obtain ⟨k, hk⟩ := Int.eq_ofNat_of_zero_le (show 0 ≤ 2 * q by omega)
    rw [hk, Int.toNat_natCast, Nat.shiftLeft_eq, zpow_natCast]
    refine ⟨Nat.mul_pos x.den_pos (by positivity), ?_⟩
    push_cast
    rw [← div_div, ← habs]
  · obtain ⟨k, hk⟩ : ∃ k : ℕ, -2 * q = k := ⟨(-2 * q).toNat, by omega⟩
    rw [hk, show 2 * q = -k by omega, Int.toNat_natCast, Nat.shiftLeft_eq, zpow_neg, zpow_natCast,
      div_inv_eq_mul]
    refine ⟨x.den_pos, ?_⟩
    push_cast
    rw [mul_div_right_comm, ← habs]

/-- The square root of a positive number is rounded to the point that the specification gives. -/
theorem nearestSqrt_at {x : ℚ} (hx : 0 < x) :
    ∃ i, f.round .nearest √(x : ℝ) = f.point i ∧ f.At (f.nearestSqrt x) (f.clamp i) := by
  have hx' : (0 : ℝ) < x := by exact_mod_cast hx
  have hroot : 0 < √(x : ℝ) := Real.sqrt_pos.2 hx'
  have hlog : floorLog2 x.num.natAbs x.den / 2 = Int.log 2 |√(x : ℝ)| := by
    rw [floorLog2_eq (Int.natAbs_pos.2 (Rat.num_ne_zero.2 hx.ne')) x.den_pos, ← abs_cast_eq_div,
      abs_of_pos hx', abs_of_pos hroot, log_sqrt hx']
  rw [nearestSqrt]
  dsimp only
  rw [hlog]
  generalize hp : (if 0 ≤ f.quantum (Int.log 2 |√(x : ℝ)|) then _ else _ : ℕ × ℕ) = p
  obtain ⟨hden, hvalue⟩ := square_fraction hx _ hp
  refine pack_at_round hroot.ne' (by simp [hroot.le]) ?_
  rw [abs_of_pos hroot, spacing, abs_of_pos hroot] at *
  rw [← hvalue, root_eq p.1 hden]

/-! ## Roundings that stay finite -/

theorem size_one : f.size 1 = 2 ^ f.unit := by
  have hone : 1 ≤ 2 ^ (f.fractionBits + 1) := Nat.one_le_two_pow
  simpa using size_block (f := f) (j := 0) hone (.inl rfl)

/-- A point below infinity in size is the point of a finite datum. -/
theorem natAbs_lt_of_abs_lt {i : ℤ} (h : |f.point i| < f.size f.infinityMagnitude) :
    i.natAbs < f.infinityMagnitude := by
  rwa [abs_point, size_strictMono.lt_iff_lt] at h

theorem hasValue_of_at {d : Datum} {v : ℝ} (h : ∃ i, v = f.point i ∧ f.At d (f.clamp i))
    (hv : |v| < f.size f.infinityMagnitude) : d.HasValue v := by
  obtain ⟨i, rfl, h⟩ := h
  have hi := natAbs_lt_of_abs_lt hv
  rw [clamp_of_natAbs_le hi.le] at h
  exact h.hasValue hi

theorem nearest_hasValue [f.Proper] (z : Bool) {x : ℚ}
    (h : |f.round .nearest (x : ℝ)| < f.size f.infinityMagnitude) :
    (f.nearest z x).HasValue (f.round .nearest x) :=
  hasValue_of_at (nearest_at z x) h

end Format

/-! ## Residuals -/

/-- The side to which a residual points. -/
noncomputable def Side.ofSign (x : ℝ) : Side :=
  if 0 < x then .above else if x < 0 then .below else .exact

namespace Side

theorem ofSign_eq_above {x : ℝ} : ofSign x = above ↔ 0 < x := by
  unfold ofSign
  split_ifs <;> simp [*]

theorem ofSign_eq_below {x : ℝ} : ofSign x = below ↔ x < 0 := by
  unfold ofSign
  split_ifs with h
  · simp [h.le]
  · simp [*]
  · simp [*]

theorem ofSign_eq_exact {x : ℝ} : ofSign x = exact ↔ x = 0 := by
  unfold ofSign
  split_ifs with h h'
  · simp [h.ne']
  · simp [h'.ne]
  · simp [le_antisymm (not_lt.1 h) (not_lt.1 h')]

theorem ofSign_neg (x : ℝ) : ofSign (-x) = (ofSign x).flip := by
  rcases lt_trichotomy x 0 with h | rfl | h
  · rw [ofSign_eq_below.2 h, ofSign_eq_above.2 (neg_pos.2 h)]
    rfl
  · rw [neg_zero, ofSign_eq_exact.2 rfl]
    rfl
  · rw [ofSign_eq_above.2 h, ofSign_eq_below.2 (neg_lt_zero.2 h)]
    rfl

theorem ofSign_mul_of_pos {c : ℝ} (hc : 0 < c) (x : ℝ) : ofSign (c * x) = ofSign x := by
  have hneg : c * x < 0 ↔ x < 0 := by simpa using mul_lt_mul_iff_of_pos_left hc (b := x) (c := 0)
  unfold ofSign
  simp only [mul_pos_iff_of_pos_left hc, hneg]

theorem ofResidual_eq {d : Datum} {v : ℝ} (hpos : d.isPositive ↔ 0 < v) (hneg : d.isBelowZero ↔ v < 0) :
    ofResidual d = ofSign v := by
  unfold ofResidual ofSign
  simp only [hpos, hneg]

end Side

theorem Datum.HasValue.ofResidual_eq {d : Datum} {v : ℝ} (h : d.HasValue v) :
    Side.ofResidual d = .ofSign v :=
  Side.ofResidual_eq h.isPositive_iff h.isBelowZero_iff

/-- A residual that is not smaller than the least positive value keeps its sign when it is rounded. -/
theorem Format.ofResidual_nearest {f : Format} [f.Proper] (z : Bool) {x : ℚ}
    (h : (x : ℝ) = 0 ∨ 2 ^ f.unit ≤ |(x : ℝ)|) : Side.ofResidual (f.nearest z x) = .ofSign x := by
  obtain ⟨i, hround, hi⟩ := nearest_at (f := f) z x
  have hone := one_lt_infinityMagnitude (f := f)
  have hpoint : f.point 1 = 2 ^ f.unit := by
    rw [← size_one]
    exact point_natCast 1
  have hsign : (0 < i ↔ 0 < (x : ℝ)) ∧ (i < 0 ↔ (x : ℝ) < 0) := by
    rcases h with h | h
    · rw [h, isPoint_zero.round_eq, ← point_zero (f := f), point_strictMono.injective.eq_iff] at hround
      subst hround
      simp [h]
    · have hpos : (0 : ℝ) < 2 ^ f.unit := by positivity
      rcases le_abs.1 h with h | h
      · have := point_mono_round .nearest (hpoint ▸ h)
        rw [hround, point_strictMono.le_iff_le] at this
        constructor <;> constructor <;> intro <;> first | omega | linarith
      · have := round_mono_point (f := f) (i := -1) .nearest (x := x) (by rw [point_neg, hpoint]; linarith)
        rw [hround, point_strictMono.le_iff_le] at this
        constructor <;> constructor <;> intro <;> first | omega | linarith
  refine Side.ofResidual_eq ?_ ?_
  · rw [hi.isPositive_iff, ← hsign.1, clamp]
    omega
  · rw [hi.isBelowZero_iff, ← hsign.2, clamp]
    omega

end Vr4300.FloatingPoint
