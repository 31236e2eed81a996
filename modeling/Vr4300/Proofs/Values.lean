import Vr4300.Proofs.Grid
import Vr4300.FloatingPoint.Operation

/-!
# The values of data

A datum that was made from a sign and a magnitude stands for the point with that number, up to the largest
finite one; the next point is the one that infinity takes the place of. What the operations on data do to
patterns, taking a neighbour, changing the sign, comparing, is said here in terms of the number.

## Contents

* `Datum.HasValue`: the exact value of a number. `less_iff`, `same_iff`.
* `Format.At`: the datum for a point. `At.hasValue`, `At.next`, `At.previous`, `At.neg`, `At.isSubnormal_iff`.
* `At.decode_encode`: the pattern of a datum gives the datum back.
-/

namespace Vr4300.FloatingPoint

namespace Datum

theorem cast_scaled (m e : ℤ) : ((scaled m e : ℚ) : ℝ) = m * 2 ^ e := by
  unfold scaled
  split_ifs with h
  · obtain ⟨n, rfl⟩ := Int.eq_ofNat_of_zero_le h
    simp
  · obtain ⟨n, hn⟩ : ∃ n : ℕ, -e = n := ⟨(-e).toNat, by omega⟩
    obtain rfl : e = -n := by omega
    simp [Rat.mkRat_eq_div, div_eq_mul_inv]

/-- The datum is a number with this value. -/
def HasValue (d : Datum) (v : ℝ) : Prop :=
  ∃ x : ℚ, d.toRat? = some x ∧ (x : ℝ) = v

variable {a b d : Datum} {u v : ℝ}

theorem hasValue_finite (s : Bool) (m : ℕ) (e : ℤ) :
    (finite s m e).HasValue ((if s then -(m : ℝ) else m) * 2 ^ e) := by
  refine ⟨_, rfl, ?_⟩
  rw [cast_scaled]
  cases s <;> simp

theorem HasValue.eq (h : d.HasValue u) (h' : d.HasValue v) : u = v := by
  obtain ⟨x, hx, rfl⟩ := h
  obtain ⟨y, hy, rfl⟩ := h'
  rw [hx, Option.some_inj] at hy
  rw [hy]

theorem HasValue.exists_finite (h : d.HasValue v) : ∃ s m e, d = finite s m e := by
  obtain ⟨x, hx, -⟩ := h
  cases d with
  | finite s m e => exact ⟨s, m, e, rfl⟩
  | _ => cases hx

theorem HasValue.neg (h : d.HasValue v) : (-d).HasValue (-v) := by
  obtain ⟨s, m, e, rfl⟩ := h.exists_finite
  obtain rfl := h.eq (hasValue_finite s m e)
  have hneg : (-finite s m e) = finite (!s) m e := rfl
  have := hasValue_finite (!s) m e
  rw [hneg]
  cases s <;> simpa using this

theorem HasValue.abs (h : d.HasValue v) : d.abs.HasValue |v| := by
  obtain ⟨s, m, e, rfl⟩ := h.exists_finite
  obtain rfl := h.eq (hasValue_finite s m e)
  have hpos : (0 : ℝ) ≤ m * 2 ^ e := by positivity
  have := hasValue_finite false m e
  cases s <;> simpa [Datum.abs, abs_of_nonneg hpos] using this

theorem HasValue.isZero_iff (h : d.HasValue v) : d.isZero ↔ v = 0 := by
  obtain ⟨s, m, e, rfl⟩ := h.exists_finite
  obtain rfl := h.eq (hasValue_finite s m e)
  have hpos : (2 : ℝ) ^ e ≠ 0 := by positivity
  cases s <;> simp [isZero, hpos]

/-- The comparison of two numbers is that of their values. -/
theorem HasValue.compare?_eq (ha : a.HasValue u) (hb : b.HasValue v) :
    compare? a b = some (if u < v then .lt else if u = v then .eq else .gt) := by
  obtain ⟨s, m, e, rfl⟩ := ha.exists_finite
  obtain ⟨t, n, k, rfl⟩ := hb.exists_finite
  obtain ⟨x, hx, rfl⟩ := ha
  obtain ⟨y, hy, rfl⟩ := hb
  simp only [toRat?, Option.some_inj] at hx hy
  simp only [compare?, hx, hy, Rat.cast_lt, Rat.cast_inj]

theorem HasValue.less_iff (ha : a.HasValue u) (hb : b.HasValue v) : a.less b ↔ u < v := by
  rw [less, ha.compare?_eq hb]
  split_ifs <;> simp [*]

theorem HasValue.same_iff (ha : a.HasValue u) (hb : b.HasValue v) : a.same b ↔ u = v := by
  rw [same, ha.compare?_eq hb]
  split_ifs with h h'
  · simp [h.ne]
  · simp [h']
  · simp [h']

theorem hasValue_zero : (finite false 0 0).HasValue 0 := by
  simpa using hasValue_finite false 0 0

theorem HasValue.isPositive_iff (h : d.HasValue v) : d.isPositive ↔ 0 < v :=
  hasValue_zero.less_iff h

theorem HasValue.isBelowZero_iff (h : d.HasValue v) : d.isBelowZero ↔ v < 0 :=
  h.less_iff hasValue_zero

theorem HasValue.isNegative_of_pos (h : d.HasValue v) (hv : 0 < v) : d.isNegative = false := by
  obtain ⟨s, m, e, rfl⟩ := h.exists_finite
  obtain rfl := h.eq (hasValue_finite s m e)
  have hpos : (0 : ℝ) ≤ m * 2 ^ e := by positivity
  cases s with
  | false => rfl
  | true =>
    simp only [if_true, neg_mul] at hv
    linarith

theorem HasValue.isInfinite_eq (h : d.HasValue v) : d.isInfinite = false := by
  obtain ⟨s, m, e, rfl⟩ := h.exists_finite
  rfl

end Datum

namespace Format

variable {f : Format}

/-! ## Magnitudes -/

theorem pow_le_infinityMagnitude [f.Proper] : 2 ^ f.fractionBits ≤ f.infinityMagnitude := by
  have hpow : 1 < 2 ^ f.exponentBits := Nat.one_lt_two_pow (Proper.exponentBits_pos (f := f)).ne'
  rw [infinityMagnitude, Nat.shiftLeft_eq, Nat.pow_eq]
  exact Nat.le_mul_of_pos_left _ (by omega)

theorem one_lt_infinityMagnitude [f.Proper] : 1 < f.infinityMagnitude :=
  (Nat.one_lt_two_pow (Proper.fractionBits_pos (f := f)).ne').trans_le pow_le_infinityMagnitude

theorem infinityMagnitude_lt_signBit : f.infinityMagnitude < f.signBit := by
  have hpow : 0 < 2 ^ f.exponentBits := by positivity
  rw [infinityMagnitude, signBit, Nat.shiftLeft_eq, Nat.pow_eq, Nat.pow_eq, pow_add, mul_comm]
  exact Nat.mul_lt_mul_of_pos_left (by omega) (by positivity)

@[simp] theorem ofMagnitude_infinity (s : Bool) : f.ofMagnitude s f.infinityMagnitude = .infinity s := by
  simp [ofMagnitude]

/-- A magnitude below that of infinity is split into a significand and an exponent. -/
theorem ofMagnitude_finite {k : ℕ} (hk : k < f.infinityMagnitude) (s : Bool) : ∃ m e,
    f.ofMagnitude s k = .finite s m e ∧ (m : ℝ) * 2 ^ e = f.size k ∧
      f.magnitude (.finite s m e) = k ∧
        (m < 2 ^ f.fractionBits ∧ m = k ∨ 2 ^ f.fractionBits ≤ m ∧ 2 ^ f.fractionBits ≤ k) := by
  have hpow : 0 < 2 ^ f.fractionBits := by positivity
  have hdecomp := Nat.div_add_mod' k (2 ^ f.fractionBits)
  have hmod := Nat.mod_lt k hpow
  unfold ofMagnitude
  simp only [hk.ne, if_false, hk.not_gt, Nat.shiftRight_eq_div_pow, Nat.pow_eq]
  split_ifs with hfield
  · rw [hfield] at hdecomp
    have hk' : k % 2 ^ f.fractionBits = k := by omega
    refine ⟨_, _, rfl, ?_, ?_, .inl ⟨hmod, hk'⟩⟩
    · simp [size, hfield, hk']
    · simp [magnitude, hk']
  · have hfield' : (k / 2 ^ f.fractionBits - 1) * 2 ^ f.fractionBits + 2 ^ f.fractionBits =
        k / 2 ^ f.fractionBits * 2 ^ f.fractionBits := by
      rw [← Nat.succ_mul, Nat.succ_eq_add_one, Nat.sub_add_cancel (Nat.one_le_iff_ne_zero.2 hfield)]
    have hsum : (k / 2 ^ f.fractionBits - 1) * 2 ^ f.fractionBits +
        (k % 2 ^ f.fractionBits + 2 ^ f.fractionBits) = k := by omega
    refine ⟨_, _, rfl, ?_, ?_, .inr ⟨by omega, by omega⟩⟩
    · rw [size]
      congr 2
      omega
    · simp only [magnitude, Nat.shiftLeft_eq, add_sub_cancel_left, Int.toNat_natCast]
      exact hsum

theorem magnitude_ofMagnitude {k : ℕ} (hk : k ≤ f.infinityMagnitude) (s : Bool) :
    f.magnitude (f.ofMagnitude s k) = k := by
  rcases hk.lt_or_eq with hk | rfl
  · obtain ⟨m, e, h, -, hm, -⟩ := ofMagnitude_finite hk s
    rw [h, hm]
  · rw [ofMagnitude_infinity]
    rfl

theorem isNegative_ofMagnitude {k : ℕ} (hk : k ≤ f.infinityMagnitude) (s : Bool) :
    (f.ofMagnitude s k).isNegative = s := by
  rcases hk.lt_or_eq with hk | rfl
  · obtain ⟨m, e, h, -⟩ := ofMagnitude_finite hk s
    rw [h]
    rfl
  · rw [ofMagnitude_infinity]
    rfl

theorem neg_ofMagnitude (k : ℕ) (s : Bool) : -f.ofMagnitude s k = f.ofMagnitude (!s) k := by
  unfold ofMagnitude
  dsimp only
  split_ifs <;> rfl

/-! ## Data and points -/

variable (f) in
/-- The datum of the format for the point `i`; either zero for the point 0, an infinity for the point
after the largest finite one. -/
def At (d : Datum) (i : ℤ) : Prop :=
  i.natAbs ≤ f.infinityMagnitude ∧
    ∃ s, d = f.ofMagnitude s i.natAbs ∧ (i < 0 → s = true) ∧ (0 < i → s = false)

namespace At

variable {d r : Datum} {i : ℤ} {v : ℝ}

theorem neg (h : f.At d i) : f.At (-d) (-i) := by
  obtain ⟨hle, s, rfl, hneg, hpos⟩ := h
  refine ⟨by rwa [Int.natAbs_neg], !s, by rw [Int.natAbs_neg, neg_ofMagnitude], ?_, ?_⟩
  · intro h
    rw [hpos (by omega)]
    rfl
  · intro h
    rw [hneg (by omega)]
    rfl

/-- Short of infinity the datum has the value of the point. -/
theorem hasValue (h : f.At d i) (hi : i.natAbs < f.infinityMagnitude) : d.HasValue (f.point i) := by
  obtain ⟨-, s, rfl, hneg, hpos⟩ := h
  obtain ⟨m, e, h, hsize, -⟩ := ofMagnitude_finite hi s
  rw [h]
  convert Datum.hasValue_finite s m e using 1
  rw [point, ← hsize]
  rcases lt_trichotomy i 0 with hlt | rfl | hgt
  · simp [hneg hlt, Int.sign_eq_neg_one_of_neg hlt]
  · have : (m : ℝ) * 2 ^ e = 0 := by rw [hsize]; simp
    cases s <;> simp [this]
  · simp [hpos hgt, Int.sign_eq_one_of_pos hgt]

theorem eq_infinity (h : f.At d i) (hi : i.natAbs = f.infinityMagnitude) (hne : i ≠ 0) :
    d = .infinity (decide (i < 0)) := by
  obtain ⟨-, s, rfl, hneg, hpos⟩ := h
  rw [hi, ofMagnitude_infinity]
  rcases lt_or_gt_of_ne hne with h | h
  · simp [hneg h, h]
  · simp [hpos h, h.le]

theorem isInfinite_iff (h : f.At d i) : d.isInfinite ↔ i.natAbs = f.infinityMagnitude := by
  obtain ⟨hle, s, rfl, -⟩ := h
  rcases hle.lt_or_eq with hlt | heq
  · obtain ⟨m, e, h, -⟩ := ofMagnitude_finite hlt s
    simp [h, Datum.isInfinite, hlt.ne]
  · simp [heq, Datum.isInfinite]

variable [f.Proper]

theorem isZero_iff (h : f.At d i) : d.isZero ↔ i = 0 := by
  obtain ⟨hle, s, rfl, -⟩ := h
  have hpow : 0 < 2 ^ f.fractionBits := by positivity
  rcases hle.lt_or_eq with hlt | heq
  · obtain ⟨m, e, h, -, -, hm⟩ := ofMagnitude_finite hlt s
    simp only [h, Datum.isZero, beq_iff_eq]
    omega
  · have := one_lt_infinityMagnitude (f := f)
    simp only [heq, ofMagnitude_infinity, Datum.isZero, Bool.false_eq_true, false_iff]
    omega

theorem isSubnormal_iff (h : f.At d i) :
    f.isSubnormal d ↔ 0 < i.natAbs ∧ i.natAbs < f.minNormalMagnitude := by
  obtain ⟨hle, s, rfl, -⟩ := h
  have hpow : 0 < 2 ^ f.fractionBits := by positivity
  rcases hle.lt_or_eq with hlt | heq
  · obtain ⟨m, e, h, -, -, hm⟩ := ofMagnitude_finite hlt s
    have hsub : f.isSubnormal (.finite s m e) ↔ 0 < m ∧ m < 2 ^ f.fractionBits := by
      rw [isSubnormal, Bool.and_eq_true, decide_eq_true_eq, decide_eq_true_eq]
      rfl
    rw [h, hsub, minNormalMagnitude, Nat.pow_eq]
    omega
  · have := pow_le_infinityMagnitude (f := f)
    simp only [heq, ofMagnitude_infinity, isSubnormal, minNormalMagnitude, Nat.pow_eq]
    simp only [Bool.false_eq_true, false_iff]
    omega

/-- The neighbour above a datum is the datum of the next point. -/
theorem next (h : f.At d i) (hi : i < f.infinityMagnitude) : f.At (f.next d) (i + 1) := by
  have hone := one_lt_infinityMagnitude (f := f)
  rcases eq_or_ne i 0 with rfl | hne
  · have hzero := h.isZero_iff.2 rfl
    have hnext : f.next d = .finite false 1 f.unit := by
      cases d with
      | finite s m e => simp [Format.next, hzero]
      | _ => cases hzero
    refine ⟨by simpa using hone.le, false, ?_, by simp, by simp⟩
    have hpow : 1 < 2 ^ f.fractionBits := Nat.one_lt_two_pow (Proper.fractionBits_pos (f := f)).ne'
    simp [hnext, ofMagnitude, hone.ne, hone.not_gt, Nat.shiftRight_eq_div_pow, Nat.div_eq_of_lt hpow,
      Nat.mod_eq_of_lt hpow]
  · have hzero : d.isZero = false := by
      rw [← Bool.not_eq_true, h.isZero_iff]
      exact hne
    obtain ⟨hle, s, hd, hneg, hpos⟩ := h
    have hmag : f.magnitude d = i.natAbs := by rw [hd, magnitude_ofMagnitude hle]
    have hsign : d.isNegative = s := by rw [hd, isNegative_ofMagnitude hle]
    rcases lt_or_gt_of_ne hne with hlt | hgt
    · obtain rfl := hneg hlt
      have hnext : f.next d = f.ofMagnitude true (i.natAbs - 1) := by
        unfold Format.next
        rw [hzero, hsign, hmag]
        cases d with
        | finite s m e => simp
        | infinity s => cases hsign; simp
        | nan => cases hsign
      refine ⟨by omega, true, ?_, by simp, by omega⟩
      rw [hnext]
      congr 1
      omega
    · obtain rfl := hpos hgt
      have hfin : i.natAbs < f.infinityMagnitude := by omega
      obtain ⟨m, e, hd', -⟩ := ofMagnitude_finite hfin false
      have hnext : f.next d = f.ofMagnitude false (i.natAbs + 1) := by
        unfold Format.next
        rw [hzero, hsign, hmag, hd, hd']
        simp
      refine ⟨by omega, false, ?_, by omega, by simp⟩
      rw [hnext]
      congr 1
      omega

theorem previous (h : f.At d i) (hi : -(f.infinityMagnitude : ℤ) < i) : f.At (f.previous d) (i - 1) := by
  have := (h.neg.next (by omega)).neg
  rwa [neg_add, neg_neg, ← sub_eq_add_neg] at this

theorem isPositive_iff (h : f.At d i) : d.isPositive ↔ 0 < i := by
  rcases h.1.lt_or_eq with hlt | heq
  · rw [(h.hasValue hlt).isPositive_iff, ← point_zero (f := f), point_strictMono.lt_iff_lt]
  · have := one_lt_infinityMagnitude (f := f)
    rw [h.eq_infinity heq (by omega)]
    rcases lt_or_gt_of_ne (show i ≠ 0 by omega) with hi | hi
    · simp [Datum.isPositive, Datum.less, Datum.compare?, hi, hi.le]
    · simp [Datum.isPositive, Datum.less, Datum.compare?, hi, hi.le]

theorem isBelowZero_iff (h : f.At d i) : d.isBelowZero ↔ i < 0 := by
  rcases h.1.lt_or_eq with hlt | heq
  · rw [(h.hasValue hlt).isBelowZero_iff, ← point_zero (f := f), point_strictMono.lt_iff_lt]
  · have := one_lt_infinityMagnitude (f := f)
    rw [h.eq_infinity heq (by omega)]
    rcases lt_or_gt_of_ne (show i ≠ 0 by omega) with hi | hi
    · simp [Datum.isBelowZero, Datum.less, Datum.compare?, hi]
    · simp [Datum.isBelowZero, Datum.less, Datum.compare?, hi.le]

omit [f.Proper] in
/-- The pattern of a datum fits the format and gives the datum back. -/
theorem decode_encode (h : f.At d i) : f.encode d < 2 * f.signBit ∧ f.decode (f.encode d) = d := by
  obtain ⟨hle, s, rfl, -⟩ := h
  have hlt := hle.trans_lt infinityMagnitude_lt_signBit
  rw [encode, isNegative_ofMagnitude hle, magnitude_ofMagnitude hle, decode, pattern]
  cases s
  · have hmod : i.natAbs % (2 * f.signBit) = i.natAbs := Nat.mod_eq_of_lt (by omega)
    simp [hmod, Nat.mod_eq_of_lt hlt, hlt.not_ge]
    omega
  · have hmod : (i.natAbs + f.signBit) % (2 * f.signBit) = i.natAbs + f.signBit :=
      Nat.mod_eq_of_lt (by omega)
    simp [hmod, Nat.mod_eq_of_lt hlt]
    omega

end At

end Format
end Vr4300.FloatingPoint
