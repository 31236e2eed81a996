import Mathlib.Algebra.Order.Archimedean.Real.Basic
import Mathlib.Algebra.Order.Field.Power
import Mathlib.Algebra.Order.Floor.Ring
import Mathlib.Algebra.Ring.Int.Parity
import Mathlib.Data.Int.ConditionallyCompleteOrder
import Mathlib.Data.Int.Log
import Mathlib.Tactic.FieldSimp
import Mathlib.Tactic.Linarith
import Mathlib.Tactic.Positivity
import Mathlib.Tactic.Ring
import Vr4300.FloatingPoint.Rounding

/-!
# Rounding of real numbers

The specification that the arithmetic is measured against. A real number is rounded by dividing it by the
spacing of the format at its size, rounding the quotient to an integer in the mode, and multiplying back.
The format's exponent has a lower bound and no upper one here.

The values that come out are the *points* of the format. They are numbered by the integers in their order,
the magnitude of a pattern being the number of its absolute value, so that neighbours have consecutive
numbers. Rounding keeps a point, and sends any other number to one of the two points around it.

## Contents

* `RoundingMode.integer`, `Format.spacing`, `Format.round`: the specification.
* `OnGrid`: multiples of a power of two.
* `Format.point`, `Format.IsPoint`: the points. `isPoint_of_onGrid`: which numbers they are.
* `position`: where a number lies among the points. `Format.middle`: the middles between them.
* `round_point`, `round_between`: what a number rounds to.
* `abs_round_sub_le`, `onGrid_round`: how far and how fine the rounding is.
-/

namespace Vr4300.FloatingPoint

/-! ## Rounding to an integer -/

namespace RoundingMode

/-- The integer that a real number rounds to in a mode. -/
noncomputable def integer (mode : RoundingMode) (x : ℝ) : ℤ :=
  match mode with
  | nearest => if Int.fract x < 1 / 2 ∨ (Int.fract x = 1 / 2 ∧ Even ⌊x⌋) then ⌊x⌋ else ⌊x⌋ + 1
  | towardZero => if x < 0 then ⌈x⌉ else ⌊x⌋
  | upward => ⌈x⌉
  | downward => ⌊x⌋

@[simp] theorem integer_intCast (mode : RoundingMode) (n : ℤ) : mode.integer n = n := by
  cases mode <;> simp [integer]

theorem integer_nearest_eq_iff {x : ℝ} {n : ℤ} :
    nearest.integer x = n ↔ |x - n| < 1 / 2 ∨ (|x - n| = 1 / 2 ∧ Even n) := by
  have hfloor := Int.floor_add_fract x
  have hnonneg := Int.fract_nonneg x
  have hlt := Int.fract_lt_one x
  -- both sides determine `n`, so it is enough that the left one satisfies the right one
  have hspec : |x - nearest.integer x| < 1 / 2 ∨
      (|x - nearest.integer x| = 1 / 2 ∧ Even (nearest.integer x)) := by
    unfold integer
    dsimp only
    split_ifs with h
    · have habs : |x - ⌊x⌋| = Int.fract x := by rw [Int.self_sub_floor, abs_of_nonneg hnonneg]
      rwa [habs]
    · have habs : |x - ((⌊x⌋ + 1 : ℤ) : ℝ)| = 1 - Int.fract x := by
        push_cast
        rw [abs_of_neg (by linarith)]
        linarith
      push Not at h
      rw [habs]
      rcases h.1.lt_or_eq with h' | h'
      · exact .inl (by linarith)
      · exact .inr ⟨by linarith, (Int.not_even_iff_odd.1 (h.2 h'.symm)).add_one⟩
  constructor
  · rintro rfl
    exact hspec
  · intro hn
    generalize nearest.integer x = m at hspec
    have hclose : |(m - n : ℝ)| ≤ 1 := by
      have hm : |x - m| ≤ 1 / 2 := hspec.elim le_of_lt fun h => h.1.le
      have hn : |x - n| ≤ 1 / 2 := hn.elim le_of_lt fun h => h.1.le
      rw [abs_le] at *
      constructor <;> linarith
    have hdiff : |m - n| ≤ 1 := by exact_mod_cast hclose
    by_contra hne
    -- two different integers are both that close only if `x` is in their middle
    have hone : |(m - n : ℝ)| = 1 := by
      have : |m - n| = 1 := le_antisymm hdiff (Int.one_le_abs (sub_ne_zero.2 hne))
      exact_mod_cast this
    have htri : |(m - n : ℝ)| ≤ |x - n| + |x - m| := by
      have := abs_sub (x - n) (x - m)
      simpa [sub_sub_sub_cancel_left] using this
    rcases hspec with hm | ⟨hm, hmeven⟩ <;> rcases hn with hn | ⟨hn, hneven⟩
    · linarith
    · linarith
    · linarith
    · have : Even (m - n) := hmeven.sub hneven
      rcases (abs_eq (zero_le_one' ℤ)).1 (le_antisymm hdiff (Int.one_le_abs (sub_ne_zero.2 hne)))
        with h | h <;> rw [h] at this <;> revert this <;> decide

theorem integer_nearest_neg (x : ℝ) : nearest.integer (-x) = -nearest.integer x := by
  have h := integer_nearest_eq_iff.1 (rfl : nearest.integer x = _)
  rw [integer_nearest_eq_iff]
  have habs : |-x - ((-nearest.integer x : ℤ) : ℝ)| = |x - nearest.integer x| := by
    push_cast
    rw [← abs_neg]
    ring_nf
  rwa [habs, even_neg]

/-- The mode that does to negative numbers what this one does to positive ones. -/
def opposite : RoundingMode → RoundingMode
  | nearest => nearest
  | towardZero => towardZero
  | upward => downward
  | downward => upward

theorem integer_neg (mode : RoundingMode) (x : ℝ) : mode.integer (-x) = -mode.opposite.integer x := by
  cases mode with
  | nearest => exact integer_nearest_neg x
  | towardZero =>
    rcases lt_trichotomy x 0 with h | rfl | h
    · simp [integer, opposite, h, h.le, Int.floor_neg]
    · simp [integer, opposite]
    · simp [integer, opposite, h, h.not_gt, Int.ceil_neg]
  | upward => exact Int.ceil_neg
  | downward => exact Int.floor_neg

end RoundingMode

/-! ## Multiples of a power of two -/

/-- The number is an integral multiple of `2 ^ e`. -/
def OnGrid (e : ℤ) (x : ℝ) : Prop :=
  ∃ n : ℤ, x = n * 2 ^ e

namespace OnGrid

variable {e e' : ℤ} {x y : ℝ}

theorem zero (e : ℤ) : OnGrid e 0 := ⟨0, by simp⟩

theorem neg (h : OnGrid e x) : OnGrid e (-x) := by
  obtain ⟨n, rfl⟩ := h
  exact ⟨-n, by push_cast; ring⟩

theorem add (hx : OnGrid e x) (hy : OnGrid e y) : OnGrid e (x + y) := by
  obtain ⟨n, rfl⟩ := hx
  obtain ⟨m, rfl⟩ := hy
  exact ⟨n + m, by push_cast; ring⟩

theorem sub (hx : OnGrid e x) (hy : OnGrid e y) : OnGrid e (x - y) := by
  rw [sub_eq_add_neg]
  exact hx.add hy.neg

theorem mul (hx : OnGrid e x) (hy : OnGrid e' y) : OnGrid (e + e') (x * y) := by
  obtain ⟨n, rfl⟩ := hx
  obtain ⟨m, rfl⟩ := hy
  refine ⟨n * m, ?_⟩
  rw [zpow_add₀ two_ne_zero]
  push_cast
  ring

/-- A coarser grid is part of a finer one. -/
theorem of_le (h : OnGrid e x) (hle : e' ≤ e) : OnGrid e' x := by
  obtain ⟨n, rfl⟩ := h
  refine ⟨n * 2 ^ (e - e').toNat, ?_⟩
  push_cast
  rw [mul_assoc, ← zpow_natCast, ← zpow_add₀ two_ne_zero, Int.toNat_of_nonneg (by omega)]
  congr 2
  omega

/-- A number on a grid that is not zero is at least one step away from it. -/
theorem le_abs (h : OnGrid e x) (hx : x ≠ 0) : 2 ^ e ≤ |x| := by
  obtain ⟨n, rfl⟩ := h
  have hn : n ≠ 0 := by
    rintro rfl
    simp at hx
  have hone : (1 : ℝ) ≤ |(n : ℝ)| := by exact_mod_cast Int.one_le_abs hn
  have hpos : (0 : ℝ) < 2 ^ e := by positivity
  rw [abs_mul, abs_of_pos hpos]
  nlinarith

end OnGrid

namespace Format

variable (f : Format)

/-! ## The specification of rounding -/

/-- The spacing of the format's values at the size of `x`. -/
noncomputable def spacing (x : ℝ) : ℝ :=
  2 ^ f.quantum (Int.log 2 |x|)

/-- The number that `x` rounds to in a mode, the exponent having no upper bound. -/
noncomputable def round (mode : RoundingMode) (x : ℝ) : ℝ :=
  mode.integer (x / f.spacing x) * f.spacing x

theorem round_neg (mode : RoundingMode) (x : ℝ) : f.round mode (-x) = -f.round mode.opposite x := by
  have hspacing : f.spacing (-x) = f.spacing x := by rw [spacing, abs_neg, spacing]
  rw [round, hspacing, neg_div, RoundingMode.integer_neg, round]
  push_cast
  ring

/-! ## Points -/

/-- The absolute value that belongs to a magnitude, as if the exponents went on forever. -/
noncomputable def size (k : ℕ) : ℝ :=
  ((k - (k / 2 ^ f.fractionBits - 1) * 2 ^ f.fractionBits : ℕ) : ℝ) *
    2 ^ (f.unit + ((k / 2 ^ f.fractionBits - 1 : ℕ) : ℤ))

/-- The points of the format in their order. -/
noncomputable def point (i : ℤ) : ℝ :=
  i.sign * f.size i.natAbs

/-- The number is a value of the format, its exponent having no upper bound. -/
def IsPoint (x : ℝ) : Prop :=
  ∃ i, x = f.point i

variable {f}

theorem unit_le_quantum (log : ℤ) : f.unit ≤ f.quantum log :=
  le_max_left _ _

theorem spacing_pos (x : ℝ) : 0 < f.spacing x := by
  unfold spacing
  positivity

/-- The value of a magnitude whose exponent lies `j` above the least one. -/
theorem size_block {j n : ℕ} (hn : n ≤ 2 ^ (f.fractionBits + 1)) (h : j = 0 ∨ 2 ^ f.fractionBits ≤ n) :
    f.size (j * 2 ^ f.fractionBits + n) = n * 2 ^ (f.unit + j) := by
  unfold size
  have hpow : 0 < 2 ^ f.fractionBits := by positivity
  have hdiv : (j * 2 ^ f.fractionBits + n) / 2 ^ f.fractionBits = j + n / 2 ^ f.fractionBits := by
    rw [Nat.add_comm, Nat.add_mul_div_right _ _ hpow, Nat.add_comm]
  rw [hdiv]
  rw [pow_succ] at hn
  rcases lt_trichotomy n (2 ^ f.fractionBits) with hlt | heq | hgt
  · obtain rfl : j = 0 := h.resolve_right (by omega)
    simp [Nat.div_eq_of_lt hlt]
  · subst heq
    simp [Nat.div_self hpow]
  · rcases hn.lt_or_eq with hlt' | rfl
    · have : n / 2 ^ f.fractionBits = 1 := Nat.div_eq_of_lt_le (by omega) (by omega)
      simp [this]
    · -- the significand has reached the next power of two: one exponent up, half the significand
      rw [Nat.mul_div_cancel_left _ hpow]
      have : j * 2 ^ f.fractionBits + 2 ^ f.fractionBits * 2 - (j + 2 - 1) * 2 ^ f.fractionBits =
          2 ^ f.fractionBits := by
        rw [show j + 2 - 1 = j + 1 from rfl, Nat.add_mul]
        omega
      rw [this]
      have hexp : f.unit + ((j + 2 - 1 : ℕ) : ℤ) = f.unit + j + 1 := by push_cast; omega
      rw [hexp, zpow_add_one₀ two_ne_zero]
      push_cast
      ring

theorem exists_block (k : ℕ) : ∃ j n, k = j * 2 ^ f.fractionBits + n ∧
    n < 2 ^ (f.fractionBits + 1) ∧ (j = 0 ∨ 2 ^ f.fractionBits ≤ n) := by
  have hpow : 0 < 2 ^ f.fractionBits := by positivity
  have hdecomp := Nat.div_add_mod' k (2 ^ f.fractionBits)
  have hmod := Nat.mod_lt k hpow
  rcases hq : k / 2 ^ f.fractionBits with _ | q
  · exact ⟨0, k % 2 ^ f.fractionBits, by rw [hq] at hdecomp; omega, by rw [pow_succ]; omega, .inl rfl⟩
  · refine ⟨q, k % 2 ^ f.fractionBits + 2 ^ f.fractionBits, ?_, by rw [pow_succ]; omega, .inr (by omega)⟩
    rw [hq, Nat.add_mul] at hdecomp
    omega

theorem size_strictMono : StrictMono f.size := by
  refine strictMono_nat_of_lt_succ fun k => ?_
  obtain ⟨j, n, rfl, hn, h⟩ := exists_block (f := f) k
  rw [size_block hn.le h, Nat.add_assoc, size_block hn (h.imp id (by omega))]
  have : (0 : ℝ) < 2 ^ (f.unit + (j : ℤ)) := by positivity
  push_cast
  linarith

@[simp] theorem size_zero : f.size 0 = 0 := by simp [size]

@[simp] theorem point_natCast (k : ℕ) : f.point k = f.size k := by
  rcases Nat.eq_zero_or_pos k with rfl | hk
  · simp [point]
  · simp [point, Int.sign_eq_one_of_pos (by exact_mod_cast hk : (0 : ℤ) < k)]

@[simp] theorem point_zero : f.point 0 = 0 := by simp [point]

@[simp] theorem point_neg (i : ℤ) : f.point (-i) = -f.point i := by simp [point]

theorem point_strictMono : StrictMono f.point := by
  refine strictMono_int_of_lt_succ fun i => ?_
  rcases i with k | k
  · have hnext : Int.ofNat k + 1 = ((k + 1 : ℕ) : ℤ) := rfl
    rw [hnext, Int.ofNat_eq_natCast, point_natCast, point_natCast]
    exact size_strictMono k.lt_succ_self
  · have hnext : Int.negSucc k + 1 = -(k : ℤ) := by omega
    have hthis : Int.negSucc k = -((k + 1 : ℕ) : ℤ) := rfl
    rw [hnext, hthis, point_neg, point_neg, neg_lt_neg_iff, point_natCast, point_natCast]
    exact size_strictMono k.lt_succ_self

theorem size_nonneg (k : ℕ) : 0 ≤ f.size k := by
  unfold size
  positivity

theorem abs_point (i : ℤ) : |f.point i| = f.size i.natAbs := by
  obtain ⟨k, rfl | rfl⟩ := i.eq_nat_or_neg <;> simp [abs_of_nonneg (size_nonneg k)]

/-! ## Where a number lies among the points -/

variable (f) in
/-- `m * 2 ^ q` is in the form in which the format's spacing at its size is `2 ^ q`, or it is the power of
two that ends that range. -/
structure Canonical (q m : ℤ) : Prop where
  unit_le : f.unit ≤ q
  le_pow : m.natAbs ≤ 2 ^ (f.fractionBits + 1)
  pow_le : q = f.unit ∨ 2 ^ f.fractionBits ≤ m.natAbs

variable (f) in
/-- The number of the point `m * 2 ^ q`. -/
def index (q m : ℤ) : ℤ :=
  m.sign * (((q - f.unit).toNat * 2 ^ f.fractionBits : ℕ) : ℤ) + m

theorem index_neg (q m : ℤ) : f.index q (-m) = -f.index q m := by
  unfold index
  rw [Int.sign_neg]
  ring

theorem Canonical.toNat_eq_zero {q : ℤ} (h : f.Canonical q 0) : (q - f.unit).toNat = 0 := by
  have hpos : 0 < 2 ^ f.fractionBits := by positivity
  have := h.pow_le.resolve_right (by simp)
  omega

theorem index_natCast {q : ℤ} {n : ℕ} (h : f.Canonical q n) :
    f.index q n = (((q - f.unit).toNat * 2 ^ f.fractionBits + n : ℕ) : ℤ) := by
  unfold index
  rcases Nat.eq_zero_or_pos n with rfl | hn
  · simp [h.toNat_eq_zero]
  · rw [Int.sign_eq_one_of_pos (by exact_mod_cast hn)]
    push_cast
    ring

theorem point_index {q m : ℤ} (h : f.Canonical q m) : f.point (f.index q m) = m * 2 ^ q := by
  have hnat : ∀ n : ℕ, f.Canonical q n → f.point (f.index q n) = n * 2 ^ q := by
    intro n h
    rw [index_natCast h, point_natCast, size_block (by simpa using h.le_pow)
      (h.pow_le.imp (by omega) (by simp)), Int.toNat_of_nonneg (by have := h.unit_le; omega)]
    congr 2
    omega
  obtain ⟨n, rfl | rfl⟩ := m.eq_nat_or_neg
  · exact_mod_cast hnat n h
  · rw [index_neg, point_neg, hnat n ⟨h.unit_le, by simpa using h.le_pow, by simpa using h.pow_le⟩]
    push_cast
    ring

theorem index_add_one {q m : ℤ} (h : f.Canonical q m) (h' : f.Canonical q (m + 1)) :
    f.index q (m + 1) = f.index q m + 1 := by
  have hpos : 0 < 2 ^ f.fractionBits := by positivity
  unfold index
  rcases h.pow_le with rfl | hm
  · simp
  · have hm' := h'.pow_le
    -- away from the least exponent neither significand is zero, so both have the same sign
    rcases lt_trichotomy m 0 with hneg | rfl | hgt
    · rcases (Int.add_one_le_iff.2 hneg).lt_or_eq with hneg' | hzero
      · rw [Int.sign_eq_neg_one_of_neg hneg, Int.sign_eq_neg_one_of_neg hneg']
        ring
      · rw [hzero] at h'
        rw [h'.toNat_eq_zero]
        simp
    · simp [h.toNat_eq_zero]
    · rw [Int.sign_eq_one_of_pos hgt, Int.sign_eq_one_of_pos (by omega)]
      ring

/-- The significand has at least two bits, and there is an exponent field. -/
class Proper (f : Format) : Prop where
  fractionBits_pos : 0 < f.fractionBits
  exponentBits_pos : 0 < f.exponentBits

instance : Proper .single := ⟨by decide, by decide⟩

instance : Proper .double := ⟨by decide, by decide⟩

theorem even_index [f.Proper] (q m : ℤ) : Even (f.index q m) ↔ Even m := by
  unfold index
  have : Even (2 ^ f.fractionBits) := (even_two).pow_of_ne_zero (Proper.fractionBits_pos (f := f)).ne'
  have heven : Even (m.sign * (((q - f.unit).toNat * 2 ^ f.fractionBits : ℕ) : ℤ)) :=
    (Int.even_coe_nat _ |>.2 (this.mul_left _)).mul_left _
  rw [Int.even_add]
  exact iff_of_eq (by simp only [heven, true_iff])

/-- The quotient by the spacing stays below the next power of two, and unless the spacing is the least one
it has all its bits. -/
theorem quotient_bounds {x : ℝ} (hx : x ≠ 0) : |x / f.spacing x| < 2 ^ (f.fractionBits + 1) ∧
    (f.quantum (Int.log 2 |x|) = f.unit ∨ 2 ^ f.fractionBits ≤ |x / f.spacing x|) := by
  have hpos := spacing_pos (f := f) x
  rw [abs_div, abs_of_pos hpos]
  constructor
  · rw [div_lt_iff₀ hpos, spacing, ← zpow_natCast, ← zpow_add₀ two_ne_zero]
    calc |x| < ((2 : ℕ) : ℝ) ^ (Int.log 2 |x| + 1) := Int.lt_zpow_succ_log_self one_lt_two _
      _ ≤ 2 ^ (((f.fractionBits + 1 : ℕ) : ℤ) + f.quantum (Int.log 2 |x|)) := by
          rw [Nat.cast_ofNat]
          refine zpow_le_zpow_right₀ one_le_two ?_
          have : Int.log 2 |x| - f.fractionBits ≤ f.quantum (Int.log 2 |x|) := le_max_right _ _
          push_cast
          omega
  · refine (max_choice f.unit (Int.log 2 |x| - f.fractionBits)).imp id fun h => ?_
    rw [le_div_iff₀ hpos, spacing, quantum, h, ← zpow_natCast, ← zpow_add₀ two_ne_zero]
    calc (2 : ℝ) ^ ((f.fractionBits : ℤ) + (Int.log 2 |x| - f.fractionBits))
        = ((2 : ℕ) : ℝ) ^ Int.log 2 |x| := by simp
      _ ≤ |x| := Int.zpow_log_le_self one_lt_two (abs_pos.2 hx)

/-- Both integers around the quotient are significands at the exponent of the spacing. -/
theorem canonical_of_near {x : ℝ} (hx : x ≠ 0) {m : ℤ} (hlo : ⌊x / f.spacing x⌋ ≤ m)
    (hhi : m ≤ ⌈x / f.spacing x⌉) : f.Canonical (f.quantum (Int.log 2 |x|)) m := by
  obtain ⟨hlt, hle⟩ := quotient_bounds (f := f) hx
  generalize x / f.spacing x = z at *
  refine ⟨unit_le_quantum _, ?_, hle.imp id fun hle => ?_⟩
  · rw [abs_lt] at hlt
    have h1 : -(2 ^ (f.fractionBits + 1) : ℤ) ≤ ⌊z⌋ := by
      rw [Int.le_floor]
      push_cast
      exact hlt.1.le
    have h2 : ⌈z⌉ ≤ (2 ^ (f.fractionBits + 1) : ℤ) := by
      rw [Int.ceil_le]
      push_cast
      exact hlt.2.le
    have h3 : |m| ≤ ((2 ^ (f.fractionBits + 1) : ℕ) : ℤ) := by
      push_cast
      exact abs_le.2 ⟨h1.trans hlo, hhi.trans h2⟩
    rw [Int.abs_eq_natAbs] at h3
    exact_mod_cast h3
  · have h3 : ((2 ^ f.fractionBits : ℕ) : ℤ) ≤ |m| := by
      push_cast
      rw [le_abs] at hle ⊢
      refine hle.imp (fun h => ?_) (fun h => ?_)
      · refine le_trans ?_ hlo
        rw [Int.le_floor]
        exact_mod_cast h
      · have : ⌈z⌉ ≤ -(2 ^ f.fractionBits : ℤ) := by
          rw [Int.ceil_le]
          push_cast
          linarith
        omega
    rw [Int.abs_eq_natAbs] at h3
    exact_mod_cast h3

variable (f) in
/-- `x` lies strictly between the point `i` and the next one. -/
def Between (i : ℤ) (x : ℝ) : Prop :=
  f.point i < x ∧ x < f.point (i + 1)

/-- A number is a point, or lies between two neighbouring ones that belong to the integers around its
quotient by the spacing. -/
theorem position [f.Proper] (x : ℝ) :
    (∃ m i : ℤ, x = m * f.spacing x ∧ x = f.point i) ∨
    ∃ m i : ℤ, f.Between i x ∧ f.point i = m * f.spacing x ∧ f.point (i + 1) = (m + 1) * f.spacing x ∧
      (Even i ↔ Even m) := by
  rcases eq_or_ne x 0 with rfl | hx
  · exact .inl ⟨0, 0, by simp, by simp⟩
  have hpos := spacing_pos (f := f) x
  have hm := canonical_of_near hx le_rfl (Int.floor_le_ceil (x / f.spacing x))
  rcases (Int.floor_le (x / f.spacing x)).eq_or_lt with h | h
  · have hx' : x = ⌊x / f.spacing x⌋ * f.spacing x := (eq_div_iff hpos.ne').1 h |>.symm
    exact .inl ⟨_, _, hx', hx'.trans (point_index hm).symm⟩
  · have hm' := canonical_of_near hx (Int.le_add_one le_rfl) (Int.add_one_le_iff.2 (Int.lt_ceil.2 h))
    have hi : f.point (f.index _ _) = ⌊x / f.spacing x⌋ * f.spacing x := point_index hm
    have hi' : f.point (f.index (f.quantum (Int.log 2 |x|)) ⌊x / f.spacing x⌋ + 1) =
        (⌊x / f.spacing x⌋ + 1) * f.spacing x := by
      rw [← index_add_one hm hm', point_index hm', spacing]
      push_cast
      ring
    refine .inr ⟨_, _, ⟨?_, ?_⟩, hi, hi', even_index _ _⟩
    · rw [hi]
      exact (lt_div_iff₀ hpos).1 h
    · rw [hi']
      exact (div_lt_iff₀ hpos).1 (Int.lt_floor_add_one _)

/-! ## What a number rounds to -/

theorem round_of_eq_mul {x : ℝ} {m : ℤ} (mode : RoundingMode) (h : x = m * f.spacing x) :
    f.round mode x = x := by
  have hm : x / f.spacing x = m := by
    rw [div_eq_iff (spacing_pos x).ne']
    exact h
  rw [round, hm, RoundingMode.integer_intCast, ← h]

theorem Between.not_point {i j : ℤ} (h : f.Between i (f.point j)) : False := by
  obtain ⟨hlo, hhi⟩ := h
  rw [point_strictMono.lt_iff_lt] at hlo hhi
  omega

theorem Between.unique {i j : ℤ} {x : ℝ} (h : f.Between i x) (h' : f.Between j x) : i = j := by
  have h1 := h.1.trans h'.2
  have h2 := h'.1.trans h.2
  rw [point_strictMono.lt_iff_lt] at h1 h2
  omega

variable (f) in
/-- The middle between the points `i` and `i + 1`. -/
noncomputable def middle (i : ℤ) : ℝ :=
  (f.point i + f.point (i + 1)) / 2

theorem between_middle (i : ℤ) : f.Between i (f.middle i) := by
  have := point_strictMono (f := f) (lt_add_one i)
  unfold middle
  constructor <;> linarith

variable (f) in
/-- The neighbour that a number between the points `i` and `i + 1` rounds to. -/
noncomputable def neighbour (mode : RoundingMode) (i : ℤ) (x : ℝ) : ℤ :=
  match mode with
  | .nearest =>
    if x < f.middle i ∨ (x = f.middle i ∧ Even i) then i else i + 1
  | .towardZero => if x < 0 then i + 1 else i
  | .upward => i + 1
  | .downward => i

theorem neighbour_eq_or (mode : RoundingMode) (i : ℤ) (x : ℝ) :
    f.neighbour mode i x = i ∨ f.neighbour mode i x = i + 1 := by
  unfold neighbour
  cases mode <;> dsimp only <;> (try split_ifs) <;> simp

variable [f.Proper]

/-- Rounding keeps the points. -/
theorem round_point (mode : RoundingMode) (i : ℤ) : f.round mode (f.point i) = f.point i := by
  rcases position (f := f) (f.point i) with ⟨m, -, h, -⟩ | ⟨-, j, h, -⟩
  · exact round_of_eq_mul mode h
  · exact h.not_point.elim

theorem IsPoint.round_eq {x : ℝ} (h : f.IsPoint x) (mode : RoundingMode) : f.round mode x = x := by
  obtain ⟨i, rfl⟩ := h
  exact round_point mode i

theorem isPoint_or_between (x : ℝ) : f.IsPoint x ∨ ∃ i, f.Between i x :=
  (position (f := f) x).imp (fun ⟨_, i, _, h⟩ => ⟨i, h⟩) (fun ⟨_, i, h, _⟩ => ⟨i, h⟩)

theorem round_between (mode : RoundingMode) {i : ℤ} {x : ℝ} (h : f.Between i x) :
    f.round mode x = f.point (f.neighbour mode i x) := by
  have hpos := spacing_pos (f := f) x
  rcases position (f := f) x with ⟨-, j, -, hj⟩ | ⟨m, j, hj, hi, hi', heven⟩
  · rw [hj] at h
    exact h.not_point.elim
  obtain rfl := h.unique hj
  have hlo : m < x / f.spacing x := (lt_div_iff₀ hpos).2 (hi ▸ h.1)
  have hhi : x / f.spacing x < m + 1 := (div_lt_iff₀ hpos).2 (hi' ▸ h.2)
  have hfloor : ⌊x / f.spacing x⌋ = m := Int.floor_eq_iff.2 ⟨hlo.le, hhi⟩
  have hceil : ⌈x / f.spacing x⌉ = m + 1 := Int.ceil_eq_iff.2 (by push_cast; exact ⟨by linarith, hhi.le⟩)
  cases mode with
  | nearest =>
    have hfract : Int.fract (x / f.spacing x) = x / f.spacing x - m := by rw [Int.fract, hfloor]
    have hmiddle : f.middle i = (1 / 2 + m) * f.spacing x := by
      rw [middle, hi, hi']
      ring
    have hlt : x < f.middle i ↔ x / f.spacing x - m < 1 / 2 := by
      rw [sub_lt_iff_lt_add, div_lt_iff₀ hpos, hmiddle]
    have heq : x = f.middle i ↔ x / f.spacing x - m = 1 / 2 := by
      rw [sub_eq_iff_eq_add, div_eq_iff hpos.ne', hmiddle]
    simp only [round, neighbour, RoundingMode.integer, hfract, hfloor, hlt, heq, heven]
    split_ifs
    · exact hi.symm
    · rw [hi']
      push_cast
      ring
  | towardZero =>
    have hneg : x / f.spacing x < 0 ↔ x < 0 := by
      rw [div_lt_iff₀ hpos, zero_mul]
    simp only [round, neighbour, RoundingMode.integer, hfloor, hceil, hneg]
    split_ifs
    · rw [hi']
      push_cast
      ring
    · exact hi.symm
  | upward =>
    simp only [round, neighbour, RoundingMode.integer, hceil]
    rw [hi']
    push_cast
    ring
  | downward =>
    simp only [round, neighbour, RoundingMode.integer, hfloor]
    exact hi.symm

theorem isPoint_round (mode : RoundingMode) (x : ℝ) : f.IsPoint (f.round mode x) := by
  rcases isPoint_or_between (f := f) x with h | ⟨i, h⟩
  · rwa [h.round_eq]
  · exact ⟨_, round_between mode h⟩

/-- No point is closer than the rounding to nearest. -/
theorem abs_round_sub_le {d : ℝ} (hd : f.IsPoint d) (x : ℝ) :
    |f.round .nearest x - x| ≤ |d - x| := by
  rcases isPoint_or_between (f := f) x with h | ⟨i, h⟩
  · rw [h.round_eq, sub_self, abs_zero]
    exact abs_nonneg _
  obtain ⟨j, rfl⟩ := hd
  rw [round_between .nearest h]
  -- the point lies beyond one of the neighbours, of which the closer one was taken
  have hside : f.point j ≤ f.point i ∨ f.point (i + 1) ≤ f.point j := by
    rw [point_strictMono.le_iff_le, point_strictMono.le_iff_le]
    omega
  have hlo : |f.point i - x| = x - f.point i := by rw [abs_of_neg] <;> linarith [h.1]
  have hhi : |f.point (i + 1) - x| = f.point (i + 1) - x := abs_of_pos (by linarith [h.2])
  have hd : x - f.point i ≤ |f.point j - x| ∨ f.point (i + 1) - x ≤ |f.point j - x| :=
    hside.imp (fun h' => by rw [abs_sub_comm]; exact le_abs.2 (.inl (by linarith)))
      (fun h' => le_abs.2 (.inl (by linarith)))
  unfold neighbour middle
  dsimp only
  split_ifs with hn
  · rw [hlo]
    have : x ≤ (f.point i + f.point (i + 1)) / 2 := hn.elim le_of_lt fun h => h.1.le
    rcases hd with hd | hd <;> linarith
  · rw [hhi]
    push Not at hn
    rcases hd with hd | hd <;> linarith [hn.1]

theorem round_mono_point (mode : RoundingMode) {x : ℝ} {i : ℤ} (h : x ≤ f.point i) :
    f.round mode x ≤ f.point i := by
  rcases isPoint_or_between (f := f) x with hx | ⟨j, hx⟩
  · rwa [hx.round_eq]
  · have hlt := hx.1.trans_le h
    rw [point_strictMono.lt_iff_lt] at hlt
    rw [round_between mode hx, point_strictMono.le_iff_le]
    rcases neighbour_eq_or (f := f) mode j x with h | h <;> rw [h] <;> omega

theorem point_mono_round (mode : RoundingMode) {x : ℝ} {i : ℤ} (h : f.point i ≤ x) :
    f.point i ≤ f.round mode x := by
  rcases isPoint_or_between (f := f) x with hx | ⟨j, hx⟩
  · rwa [hx.round_eq]
  · have hlt := h.trans_lt hx.2
    rw [point_strictMono.lt_iff_lt] at hlt
    rw [round_between mode hx, point_strictMono.le_iff_le]
    rcases neighbour_eq_or (f := f) mode j x with h | h <;> rw [h] <;> omega

/-- Rounding does not lead past zero. -/
theorem round_nonneg (mode : RoundingMode) {x : ℝ} (hx : 0 ≤ x) : 0 ≤ f.round mode x := by
  rw [← point_zero (f := f)] at hx ⊢
  exact point_mono_round mode hx

theorem round_nonpos (mode : RoundingMode) {x : ℝ} (hx : x ≤ 0) : f.round mode x ≤ 0 := by
  rw [← point_zero (f := f)] at hx ⊢
  exact round_mono_point mode hx

/-! ## Points and grids -/

omit [f.Proper] in
theorem IsPoint.neg {x : ℝ} (h : f.IsPoint x) : f.IsPoint (-x) := by
  obtain ⟨i, rfl⟩ := h
  exact ⟨-i, (point_neg i).symm⟩

omit [f.Proper] in
theorem isPoint_zero : f.IsPoint 0 := ⟨0, point_zero.symm⟩

omit [f.Proper] in
/-- A multiple of a power of two that fits the significand is a point. -/
theorem isPoint_of_onGrid {e : ℤ} (he : f.unit ≤ e) {x : ℝ} (h : OnGrid e x)
    (hx : |x| ≤ 2 ^ (e + f.fractionBits + 1)) : f.IsPoint x := by
  obtain ⟨n, rfl⟩ := h
  have hpos : (0 : ℝ) < 2 ^ e := by positivity
  have hn : n.natAbs ≤ 2 ^ (f.fractionBits + 1) := by
    have habs : |(n : ℝ)| ≤ 2 ^ (f.fractionBits + 1) := by
      rw [abs_mul, abs_of_pos hpos, add_assoc, zpow_add₀ two_ne_zero, mul_comm,
        mul_le_mul_iff_of_pos_left hpos] at hx
      exact_mod_cast hx
    rw [← Int.cast_abs, Int.abs_eq_natAbs] at habs
    exact_mod_cast habs
  clear hx hpos
  -- a short significand is doubled until it has all its bits, or the exponent is the least one
  obtain ⟨j, rfl⟩ : ∃ j : ℕ, e = f.unit + j := ⟨(e - f.unit).toNat, by omega⟩
  induction j generalizing n with
  | zero => exact ⟨_, (point_index ⟨by simp, hn, .inl (by simp)⟩).symm⟩
  | succ j ih =>
    rcases Nat.lt_or_ge n.natAbs (2 ^ f.fractionBits) with hlt | hge
    · have hdouble : (n : ℝ) * 2 ^ (f.unit + ((j + 1 : ℕ) : ℤ)) = ((2 * n : ℤ) : ℝ) * 2 ^ (f.unit + (j : ℤ)) := by
        push_cast
        rw [← add_assoc, zpow_add_one₀ two_ne_zero]
        ring
      rw [hdouble]
      exact ih (2 * n) (by rw [pow_succ]; omega) (by omega)
    · exact ⟨_, (point_index ⟨he, hn, .inr hge⟩).symm⟩

omit [f.Proper] in
/-- A point in the form in which its spacing shows. -/
theorem IsPoint.exists_onGrid {x : ℝ} (h : f.IsPoint x) : ∃ e, f.unit ≤ e ∧ OnGrid e x ∧
    |x| < 2 ^ (e + f.fractionBits + 1) ∧ (e = f.unit ∨ 2 ^ (e + f.fractionBits) ≤ |x|) := by
  obtain ⟨i, rfl⟩ := h
  obtain ⟨j, n, hk, hn, hj⟩ := exists_block (f := f) i.natAbs
  have habs : |f.point i| = n * 2 ^ (f.unit + j) := by rw [abs_point, hk, size_block hn.le hj]
  have hpos : (0 : ℝ) < 2 ^ (f.unit + j) := by positivity
  refine ⟨f.unit + j, by omega, ?_, ?_, ?_⟩
  · rcases abs_choice (f.point i) with h | h
    · rw [← h, habs]
      exact ⟨n, by simp⟩
    · rw [← neg_neg (f.point i), ← h, habs]
      exact ⟨-n, by simp⟩
  · rw [habs, add_assoc _ (f.fractionBits : ℤ), zpow_add₀ two_ne_zero (f.unit + (j : ℤ)), mul_comm,
      mul_lt_mul_iff_of_pos_left hpos]
    exact_mod_cast hn
  · refine hj.imp (fun h => by simp [h]) fun h => ?_
    rw [habs, zpow_add₀ two_ne_zero (f.unit + (j : ℤ)), mul_comm, mul_le_mul_iff_of_pos_right hpos]
    exact_mod_cast h

omit [f.Proper] in
/-- Neighbouring points fit the significand on a common grid. -/
theorem exists_onGrid_succ (i : ℤ) : ∃ e, f.unit ≤ e ∧ OnGrid e (f.point i) ∧ OnGrid e (f.point (i + 1)) ∧
    |f.point i| ≤ 2 ^ (e + f.fractionBits + 1) ∧ |f.point (i + 1)| ≤ 2 ^ (e + f.fractionBits + 1) := by
  have hnat : ∀ k : ℕ, ∃ e, f.unit ≤ e ∧ OnGrid e (f.point k) ∧ OnGrid e (f.point (k + 1 : ℕ)) ∧
      |f.point k| ≤ 2 ^ (e + f.fractionBits + 1) ∧ |f.point (k + 1 : ℕ)| ≤ 2 ^ (e + f.fractionBits + 1) := by
    intro k
    obtain ⟨j, n, rfl, hn, hj⟩ := exists_block (f := f) k
    have hsize := size_block hn.le hj
    have hsize' := size_block (f := f) (j := j) (n := n + 1) hn (hj.imp id (by omega))
    have hpow : ∀ m : ℕ, m ≤ 2 ^ (f.fractionBits + 1) →
        |(m : ℝ) * 2 ^ (f.unit + (j : ℤ))| ≤ 2 ^ (f.unit + j + f.fractionBits + 1) := by
      intro m hm
      have hpos : (0 : ℝ) < 2 ^ (f.unit + (j : ℤ)) := by positivity
      rw [abs_of_nonneg (by positivity), add_assoc (f.unit + (j : ℤ)),
        zpow_add₀ two_ne_zero (f.unit + (j : ℤ)), mul_comm, mul_le_mul_iff_of_pos_left hpos]
      exact_mod_cast hm
    rw [point_natCast, point_natCast, add_assoc, hsize, hsize']
    exact ⟨f.unit + j, by omega, ⟨n, by push_cast; rfl⟩, ⟨n + 1, by push_cast; rfl⟩, hpow n hn.le, hpow _ hn⟩
  obtain ⟨k, rfl | rfl⟩ := i.eq_nat_or_neg
  · exact hnat k
  · rcases k with _ | k
    · exact hnat 0
    · obtain ⟨e, he, h1, h2, h3, h4⟩ := hnat k
      have hsucc : -((k + 1 : ℕ) : ℤ) + 1 = -(k : ℤ) := by omega
      rw [hsucc, point_neg, point_neg, abs_neg, abs_neg]
      exact ⟨e, he, h2.neg, h1.neg, h4, h3⟩

omit [f.Proper] in
/-- Rounding a number on a grid either keeps it or lands on the next coarser grid. -/
theorem round_eq_or_onGrid (mode : RoundingMode) {e : ℤ} {x : ℝ} (h : OnGrid e x) :
    f.round mode x = x ∨ OnGrid (e + 1) (f.round mode x) := by
  rcases le_or_gt (f.quantum (Int.log 2 |x|)) e with hle | hgt
  · obtain ⟨m, hm⟩ := h.of_le hle
    exact .inl (round_of_eq_mul mode hm)
  · exact .inr (OnGrid.of_le ⟨_, rfl⟩ hgt)

omit [f.Proper] in
theorem onGrid_round (mode : RoundingMode) {e : ℤ} {x : ℝ} (h : OnGrid e x) : OnGrid e (f.round mode x) :=
  (round_eq_or_onGrid mode h).elim (fun h' => h'.symm ▸ h) fun h' => h'.of_le (by omega)

end Format
end Vr4300.FloatingPoint
