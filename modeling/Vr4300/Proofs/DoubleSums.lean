import Vr4300.Proofs.Overrun

/-!
# Sums of doubles

A sum or a difference in double precision is computed as the nearest double and the side on which the exact sum
lies, from which every mode finds its rounding. Within the finite range the result is the exact sum rounded once,
unless the residual is lost: such a sum counts as exact, and the nearest double is returned in every mode.

## Contents

* `SumRounds`: what a sum owes. `SumRounds.unique`: it is one outcome.
* `adjust_at`: the step from the nearest double to the one that a mode asks for.
* `finishDouble_rounds`: a finished sum is the one that is owed.
* `DoubleSum`: the operations, with their exact results.
* `sum_rounds_unless_overrun`: where they deliver what they owe, and what else they do.
-/

namespace Vr4300.FloatingPoint

open Format

variable {x u v : ℝ} {r : Datum} {side : Side} {mode : RoundingMode} {i : ℤ}

/-! ## What a sum owes -/

/-- The double in an outcome. -/
def Outcome.double (o : Outcome) : Datum :=
  Format.double.decode o.bits.toNat

/-- The outcome is the right one for a sum of doubles whose exact value is `x`, within the finite range. The result
zero carries a minus sign if `zeroNegative` holds. -/
structure SumRounds (mode : RoundingMode) (x : ℝ) (zeroNegative : Bool) (o : Outcome) : Prop where
  /-- Zero and what lies in the normal range is rounded, and is inexact if that changed it. -/
  rounded : x = 0 ∨ leastNormalDouble ≤ |x| →
    o.raised = (if Format.double.round mode x = x then ∅ else .inexact) ∧
    o.double.HasValue (Format.double.round mode x) ∧ (x = 0 → o.double.isNegative = zeroNegative)
  /-- A nonzero number below the normal range gives zero, or the least normal number in a mode that leads
  there. -/
  underflow : x ≠ 0 → |x| < leastNormalDouble →
    o.raised = .underflow ∪ .inexact ∧
    o.double = if mode.isOutward (x < 0) then .finite (x < 0) (2 ^ 52) (-1074) else .finite (x < 0) 0 (-1074)

/-- The sign of a zero plays no part where the exact result is not zero. -/
theorem SumRounds.of_ne {o : Outcome} {z z' : Bool} (h : SumRounds mode x z o) (hx : x ≠ 0) :
    SumRounds mode x z' o where
  rounded := fun hor => ⟨(h.rounded hor).1, (h.rounded hor).2.1, fun h0 => absurd h0 hx⟩
  underflow := h.underflow

/-- A pattern that is not above infinity is the one that its datum is written as. -/
theorem encode_decode {f : Format} {bits : ℕ} (hbits : bits < 2 * f.signBit)
    (hle : bits % f.signBit ≤ f.infinityMagnitude) : f.encode (f.decode bits) = bits := by
  rw [decode, encode, isNegative_ofMagnitude hle, magnitude_ofMagnitude hle, pattern, Nat.mod_eq_of_lt hbits]
  rcases lt_or_ge bits f.signBit with hlt | hge
  · rw [if_neg (by simpa using hlt), Nat.mod_eq_of_lt hlt]
  · rw [if_pos (by simpa using hge), Nat.mod_eq_sub_mod hge, Nat.mod_eq_of_lt (by omega)]
    omega

/-- The datum behind a finite number in a register, and the register behind the datum. -/
theorem Outcome.exists_at {o : Outcome} (h : o.double.HasValue u) : ∃ i, Format.double.At o.double i ∧
    u = Format.double.point i ∧ o.bits.toNat = Format.double.encode o.double := by
  have hsign : 2 * Format.double.signBit = 2 ^ 64 := by decide
  have hbits := o.bits.toNat_lt
  have hle : o.bits.toNat % Format.double.signBit ≤ Format.double.infinityMagnitude := by
    by_contra hgt
    have hnan : o.double = .nan := by
      unfold double decode ofMagnitude
      dsimp only
      rw [if_neg (by omega), if_pos (by omega)]
    rw [hnan] at h
    obtain ⟨x, hx, -⟩ := h
    cases hx
  obtain ⟨i, -, hat⟩ := at_decode hle
  refine ⟨i, hat, ?_, (encode_decode (by omega) hle).symm⟩
  rcases hat.1.lt_or_eq with hlt | heq
  · exact h.eq (hat.hasValue hlt)
  · have := (hat.isInfinite_iff.2 heq).symm.trans h.isInfinite_eq
    cases this

/-- A finite number in a register is determined by its value, and a zero by its sign too. -/
theorem Outcome.bits_eq {o o' : Outcome} (h : o.double.HasValue u) (h' : o'.double.HasValue u)
    (hzero : u = 0 → o.double.isNegative = o'.double.isNegative) : o.bits = o'.bits := by
  obtain ⟨i, ⟨hle, s, hd, hneg, hpos⟩, hi, hbits⟩ := exists_at h
  obtain ⟨j, ⟨-, t, hd', hneg', hpos'⟩, hj, hbits'⟩ := exists_at h'
  obtain rfl : i = j := point_strictMono.injective (hi.symm.trans hj)
  have hsign : s = t := by
    rcases lt_trichotomy i 0 with hlt | h0 | hgt
    · rw [hneg hlt, hneg' hlt]
    · have := hzero (by rw [hi, h0, point_zero])
      rwa [hd, hd', isNegative_ofMagnitude hle, isNegative_ofMagnitude hle] at this
    · rw [hpos hgt, hpos' hgt]
  refine UInt64.toNat_inj.1 ?_
  rw [hbits, hbits', hd, hd', hsign]

/-- What a sum owes is one outcome. -/
theorem SumRounds.unique {o o' : Outcome} {z : Bool} (h : SumRounds mode x z o) (h' : SumRounds mode x z o') :
    o = o' := by
  have hext (hbits : o.bits = o'.bits) (hraised : o.raised = o'.raised) : o = o' := by
    cases o
    cases o'
    cases hbits
    cases hraised
    rfl
  by_cases hx : x = 0 ∨ leastNormalDouble ≤ |x|
  · obtain ⟨hraised, hvalue, hzero⟩ := h.rounded hx
    obtain ⟨hraised', hvalue', hzero'⟩ := h'.rounded hx
    refine hext (Outcome.bits_eq hvalue hvalue' fun h0 => ?_) (hraised.trans hraised'.symm)
    have hx0 : x = 0 := hx.resolve_right fun hle => by
      have := le_abs_round_of_le mode isPoint_leastNormalDouble hle
      rw [h0, abs_zero] at this
      exact this.not_gt leastNormalDouble_pos
    exact (hzero hx0).trans (hzero' hx0).symm
  · rw [not_or, not_le] at hx
    obtain ⟨hraised, hdouble⟩ := h.underflow hx.1 hx.2
    obtain ⟨hraised', hdouble'⟩ := h'.underflow hx.1 hx.2
    have hsame := hdouble.trans hdouble'.symm
    obtain ⟨u, hu⟩ : ∃ u, o.double.HasValue u := by
      rw [hdouble]
      split_ifs <;> exact ⟨_, Datum.hasValue_finite _ _ _⟩
    exact hext (Outcome.bits_eq hu (hsame ▸ hu) fun _ => by rw [hsame]) (hraised.trans hraised'.symm)

/-- A datum of the format is written to the register. -/
theorem encode_double {v : Datum} (hv : Format.double.At v i) (raised : ExceptionSet) :
    (Outcome.mk (Precision.double.encode v) raised).double = v := by
  obtain ⟨hlt, hdecode⟩ := hv.decode_encode
  have hsign : 2 * Format.double.signBit = 2 ^ 64 := by decide
  have hbits : (Precision.double.encode v).toNat = Format.double.encode v := by
    rw [Precision.encode, UInt64.toNat_ofNat']
    exact Nat.mod_eq_of_lt (by show Format.double.encode v < _; omega)
  rw [Outcome.double, hbits, hdecode]

theorem underflowed_double (negative : Bool) (mode : RoundingMode) :
    (underflowed .double negative mode).raised = .underflow ∪ .inexact ∧
      (underflowed .double negative mode).double =
        if mode.isOutward negative then .finite negative (2 ^ 52) (-1074)
        else .finite negative 0 (-1074) := by
  cases negative <;> cases mode <;> decide

/-! ## The finished sum -/

theorem point_nonneg (hi : 0 ≤ i) : 0 ≤ Format.double.point i := by
  rw [← point_zero (f := .double)]
  exact point_strictMono.monotone hi

theorem point_nonpos (hi : i ≤ 0) : Format.double.point i ≤ 0 := by
  rw [← point_zero (f := .double)]
  exact point_strictMono.monotone hi

@[simp] theorem adjust_exact (mode : RoundingMode) (r : Datum) : mode.adjust .exact r = r := by
  cases mode <;> rfl

/-- A number above the nearest double is rounded to it or to the next one. -/
theorem adjust_above (mode : RoundingMode) (hat : Format.double.At r i)
    (hi : i.natAbs < Format.double.infinityMagnitude)
    (hnearest : Format.double.round .nearest x = Format.double.point i) (hb : Format.double.Between i x) :
    ∃ j, Format.double.round mode x = Format.double.point j ∧ Format.double.At (mode.adjust .above r) j := by
  have hround := round_between mode hb
  have hnext := hat.next (by omega)
  cases mode with
  | nearest => exact ⟨i, hnearest, hat⟩
  | upward => exact ⟨i + 1, hround, hnext⟩
  | downward => exact ⟨i, hround, hat⟩
  | towardZero =>
    have hadjust : RoundingMode.towardZero.adjust .above r = if r.isPositive then r
      else if r.isBelowZero then Format.double.next r else r := rfl
    rw [hadjust]
    rcases lt_or_ge i 0 with hneg | hnonneg
    · have hx : x < 0 := hb.2.trans_le (point_nonpos (by omega))
      rw [if_neg (mt hat.isPositive_iff.1 (by omega)), if_pos (hat.isBelowZero_iff.2 hneg)]
      exact ⟨i + 1, by rw [hround, neighbour, if_pos hx], hnext⟩
    · have hx : ¬x < 0 := ((point_nonneg hnonneg).trans_lt hb.1).not_gt
      rw [if_neg (mt hat.isBelowZero_iff.1 (by omega)), ite_self]
      exact ⟨i, by rw [hround, neighbour, if_neg hx], hat⟩

/-- A number below the nearest double is rounded to it or to the previous one. -/
theorem adjust_below (mode : RoundingMode) (hat : Format.double.At r i)
    (hi : i.natAbs < Format.double.infinityMagnitude)
    (hnearest : Format.double.round .nearest x = Format.double.point i) (hb : Format.double.Between (i - 1) x) :
    ∃ j, Format.double.round mode x = Format.double.point j ∧ Format.double.At (mode.adjust .below r) j := by
  have hround := round_between mode hb
  have hprevious := hat.previous (by omega)
  have hsucc : i - 1 + 1 = i := by omega
  cases mode with
  | nearest => exact ⟨i, hnearest, hat⟩
  | upward => exact ⟨i, by rw [hround, neighbour, hsucc], hat⟩
  | downward => exact ⟨i - 1, hround, hprevious⟩
  | towardZero =>
    have hadjust : RoundingMode.towardZero.adjust .below r = if r.isPositive then Format.double.previous r
      else if r.isBelowZero then r else r := rfl
    rw [hadjust, ite_self]
    rcases lt_or_ge 0 i with hpos | hnonpos
    · have hx : ¬x < 0 := ((point_nonneg (by omega)).trans_lt hb.1).not_gt
      rw [if_pos (hat.isPositive_iff.2 hpos)]
      exact ⟨i - 1, by rw [hround, neighbour, if_neg hx], hprevious⟩
    · have hx : x < 0 := hb.2.trans_le (point_nonpos (by omega))
      rw [if_neg (mt hat.isPositive_iff.1 (by omega))]
      exact ⟨i, by rw [hround, neighbour, if_pos hx, hsucc], hat⟩

/-- From the nearest double and the side of the exact value, a mode finds the double that it rounds to. -/
theorem adjust_at (mode : RoundingMode) (hat : Format.double.At r i)
    (hi : i.natAbs < Format.double.infinityMagnitude)
    (hnearest : Format.double.round .nearest x = Format.double.point i)
    (h : Approximates r (Format.double.point i) side x) :
    ∃ j, Format.double.round mode x = Format.double.point j ∧ Format.double.At (mode.adjust side r) j := by
  cases side with
  | exact =>
    rw [adjust_exact, h.exact_iff.1 rfl]
    exact ⟨i, round_point mode i, hat⟩
  | above =>
    exact adjust_above mode hat hi hnearest
      ⟨h.above_iff.1 rfl, h.gt_of_gt ⟨i + 1, rfl⟩ (point_strictMono (by omega))⟩
  | below =>
    refine adjust_below mode hat hi hnearest ⟨h.lt_of_lt ⟨i - 1, rfl⟩ (point_strictMono (by omega)), ?_⟩
    rw [sub_add_cancel]
    exact h.below_iff.1 rfl

theorem isInfinite_of_lt {d : Datum} (hat : Format.double.At d i) (hi : i.natAbs < Format.double.infinityMagnitude) :
    d.isInfinite = false :=
  (hat.hasValue hi).isInfinite_eq

/-- How a sum within the finite range is finished. -/
theorem finishDouble_finite (hr : r.isInfinite = false) (hv : (mode.adjust side r).isInfinite = false) :
    finishDouble mode r side =
      if Format.double.isSubnormal (mode.adjust side r) || ((mode.adjust side r).isZero && side != .exact) then
        underflowed .double (resultNegative r side) mode
      else ⟨Precision.double.encode (mode.adjust side r), if side = .exact then ∅ else .inexact⟩ := by
  unfold finishDouble
  dsimp only
  rw [hr, hv]
  rfl

/-- A nonzero number in the normal range is finished as its rounding. -/
theorem finishDouble_normal (mode : RoundingMode) (hat : Format.double.At r i)
    (hnearest : Format.double.round .nearest x = Format.double.point i)
    (h : Approximates r (Format.double.point i) side x) (hmax : |x| ≤ largestDouble)
    (hmin : leastNormalDouble ≤ |x|) :
    (finishDouble mode r side).raised = (if side = .exact then ∅ else .inexact) ∧
      (finishDouble mode r side).double.HasValue (Format.double.round mode x) := by
  have hi := abs_le_largestDouble_iff.1 (hnearest ▸ abs_round_le_of_le isPoint_largestDouble hmax)
  obtain ⟨j, hj, hat'⟩ := adjust_at mode hat hi hnearest h
  have hjmax := abs_le_largestDouble_iff.1 (hj ▸ abs_round_le_of_le isPoint_largestDouble hmax)
  have hjmin := leastNormalDouble_le_abs_iff.1 (hj ▸ le_abs_round_of_le mode isPoint_leastNormalDouble hmin)
  have hminpos : 0 < Format.double.minNormalMagnitude := by decide
  rw [finishDouble_finite (isInfinite_of_lt hat hi) (isInfinite_of_lt hat' hjmax), if_neg]
  · refine ⟨rfl, ?_⟩
    rw [encode_double hat', hj]
    exact hat'.hasValue hjmax
  · rw [Bool.or_eq_true, Bool.and_eq_true, hat'.isSubnormal_iff, hat'.isZero_iff]
    omega

/-- A number that is a double and lies below the normal range is replaced. -/
theorem finishDouble_subnormal (mode : RoundingMode) (hat : Format.double.At r i) (hi : i ≠ 0)
    (hmin : |Format.double.point i| < leastNormalDouble) :
    finishDouble mode r .exact = underflowed .double (Format.double.point i < 0) mode := by
  have hsub := not_le.1 (mt leastNormalDouble_le_abs_iff.2 hmin.not_ge)
  have hlt : Format.double.minNormalMagnitude < Format.double.infinityMagnitude := by decide
  have hnegative : resultNegative r .exact = decide (Format.double.point i < 0) := by
    rw [resultNegative, if_neg (mt hat.isZero_iff.1 hi), Bool.eq_iff_iff, hat.isBelowZero_iff, decide_eq_true_eq,
      ← point_zero (f := .double), point_strictMono.lt_iff_lt]
  have hfinite := isInfinite_of_lt hat (hsub.trans hlt)
  rw [finishDouble_finite hfinite (by rwa [adjust_exact]), adjust_exact, hnegative, if_pos]
  rw [Bool.or_eq_true, hat.isSubnormal_iff]
  exact .inl ⟨by omega, hsub⟩

/-- A zero that is exact is finished as it is. -/
theorem finishDouble_zero (mode : RoundingMode) (hat : Format.double.At r 0) :
    (finishDouble mode r .exact).raised = ∅ ∧ (finishDouble mode r .exact).double = r := by
  have hinf := one_lt_infinityMagnitude (f := .double)
  have hfinite := isInfinite_of_lt hat (by rw [Int.natAbs_zero]; omega)
  rw [finishDouble_finite hfinite (by rwa [adjust_exact]), adjust_exact, if_neg]
  · exact ⟨rfl, encode_double hat _⟩
  · rw [Bool.or_eq_true, Bool.and_eq_true, hat.isSubnormal_iff]
    simp

/-- A sum that is finished from the nearest double and the right side is the one that the operation owes. -/
theorem finishDouble_rounds (mode : RoundingMode) (hat : Format.double.At r i)
    (hnearest : Format.double.round .nearest x = Format.double.point i)
    (h : Approximates r (Format.double.point i) side x) (hmax : |x| ≤ largestDouble)
    (hpoint : |x| < leastNormalDouble → Format.double.IsPoint x) :
    SumRounds mode x r.isNegative (finishDouble mode r side) where
  rounded := by
    rintro (rfl | hmin)
    · obtain ⟨hzero, rfl⟩ := h.eq_zero
      obtain rfl : i = 0 := by
        rw [← point_zero (f := .double)] at hzero
        exact point_strictMono.injective hzero
      obtain ⟨hraised, hdouble⟩ := finishDouble_zero mode hat
      rw [isPoint_zero.round_eq, if_pos rfl, hdouble]
      exact ⟨hraised, by rw [← hzero]; exact h.value, fun _ => rfl⟩
    · obtain ⟨hraised, hvalue⟩ := finishDouble_normal mode hat hnearest h hmax hmin
      refine ⟨hraised.trans (if_congr ?_ rfl rfl), hvalue, fun h0 => absurd hmin ?_⟩
      · rw [h.exact_iff]
        constructor
        · rintro rfl
          exact round_point mode i
        · intro heq
          have hx : Format.double.IsPoint x := heq ▸ isPoint_round mode x
          rw [← hnearest, hx.round_eq]
      · rw [h0, abs_zero, not_le]
        exact leastNormalDouble_pos
  underflow := by
    intro hx hmin
    have hxi : x = Format.double.point i := by rw [← hnearest, (hpoint hmin).round_eq]
    have hi : i ≠ 0 := by
      rintro rfl
      exact hx (hxi.trans point_zero)
    rw [h.exact_iff.2 hxi, finishDouble_subnormal mode hat hi (hxi ▸ hmin), ← hxi]
    exact underflowed_double _ mode

/-! ## The operations -/

/-- An ordinary operand is a double within the finite range. -/
theorem datum_hasValue {bits : UInt64} (h : Precision.double.IsOrdinary bits) :
    (Precision.double.datum bits).HasValue (Precision.double.datum bits).value ∧
      Format.double.IsPoint (Precision.double.datum bits).value ∧
      |(Precision.double.datum bits).value| ≤ largestDouble := by
  obtain ⟨i, hat, hlt, -⟩ := h.at
  have hvalue : (Precision.double.datum bits).HasValue (Format.double.point i) := hat.hasValue hlt
  rw [hvalue.value_eq]
  exact ⟨hvalue, ⟨i, rfl⟩, abs_le_largestDouble_iff.2 hlt⟩

/-- A zero stays one when its sign is settled. -/
theorem zeroSum_at (op : BinaryOp) (mode : RoundingMode) (a b : Datum) (hr : Format.double.At r 0) :
    Format.double.At (op.zeroSum mode a b r) 0 := by
  have hnegative : Format.double.At (.finite true 0 Format.double.unit) 0 :=
    ⟨by simp, true, by decide, by simp, by simp⟩
  unfold BinaryOp.zeroSum
  dsimp only
  split_ifs
  all_goals first | exact hnegative | exact hr

/-- A sum or a difference of two doubles. -/
structure DoubleSum where
  /-- The second term is subtracted. -/
  isDifference : Bool
  /-- The first operand. -/
  a : UInt64
  /-- The second operand. -/
  b : UInt64

namespace DoubleSum

/-- What the unit makes of the operation. -/
def outcome (mode : RoundingMode) (o : DoubleSum) : Outcome :=
  binary .double (if o.isDifference then .sub else .add) mode o.a o.b

/-- The first term. -/
def first (o : DoubleSum) : Datum :=
  Precision.double.datum o.a

/-- The second term: the second operand, or what is added when it is subtracted. -/
def second (o : DoubleSum) : Datum :=
  if o.isDifference then -Precision.double.datum o.b else Precision.double.datum o.b

/-- The exact result. -/
noncomputable def exact (o : DoubleSum) : ℝ :=
  o.first.value + o.second.value

/-- Whether a result of exactly zero is negative. -/
def zeroNegative (mode : RoundingMode) (o : DoubleSum) : Bool :=
  if o.first.isNegative = o.second.isNegative then o.first.isNegative else mode = .downward

/-- The operands are normal or zero, and the exact result lies within the finite range. -/
def Admissible (o : DoubleSum) : Prop :=
  Precision.double.IsOrdinary o.a ∧ Precision.double.IsOrdinary o.b ∧ |o.exact| ≤ largestDouble

/-- The residual of the sum is lost. -/
def Overrun (o : DoubleSum) : Prop :=
  Overruns o.first.value o.second.value

variable {o : DoubleSum}

/-- The nearest double to the exact result. -/
def sum (o : DoubleSum) : Datum :=
  Format.double.add o.first o.second

/-- The side of it on which the exact result lies, as the residual tells it. -/
def residualSide (o : DoubleSum) : Side :=
  .ofResidual (sumError o.first o.second o.sum)

/-- What the unit finishes: the nearest double, with the sign of a zero settled. -/
def settled (mode : RoundingMode) (o : DoubleSum) : Datum :=
  if o.sum.isZero && o.residualSide == .exact then
    (if o.isDifference then BinaryOp.sub else .add).zeroSum mode (Precision.double.datum o.a)
      (Precision.double.datum o.b) o.sum
  else o.sum

theorem outcome_eq (ha : Precision.double.IsOrdinary o.a) (hb : Precision.double.IsOrdinary o.b) :
    o.outcome mode = finishDouble mode (o.settled mode) o.residualSide := by
  have hdiv : (if o.isDifference then BinaryOp.sub else .add) = .div →
      (Precision.double.datum o.b).value ≠ 0 := by
    intro h
    split_ifs at h
  have heval : (if o.isDifference then BinaryOp.sub else .add).evaluate (Precision.double.datum o.a)
      (Precision.double.datum o.b) = (o.sum, o.residualSide) := by
    unfold residualSide sum first second
    cases o.isDifference <;> rfl
  have hadds : ((if o.isDifference then BinaryOp.sub else .add) == .add ||
      (if o.isDifference then BinaryOp.sub else .add) == .sub) = true := by
    cases o.isDifference <;> rfl
  unfold outcome settled
  rw [binary_eq_finish ha hb hdiv heval, hadds, Bool.and_true]
  split_ifs <;> rfl

theorem first_hasValue (ha : Precision.double.IsOrdinary o.a) : o.first.HasValue o.first.value ∧
    Format.double.IsPoint o.first.value ∧ |o.first.value| ≤ largestDouble :=
  datum_hasValue ha

theorem second_hasValue (hb : Precision.double.IsOrdinary o.b) : o.second.HasValue o.second.value ∧
    Format.double.IsPoint o.second.value ∧ |o.second.value| ≤ largestDouble := by
  obtain ⟨hvalue, hpoint, hle⟩ := datum_hasValue hb
  unfold second
  split_ifs
  · rw [hvalue.neg.value_eq, abs_neg]
    exact ⟨hvalue.neg, hpoint.neg, hle⟩
  · exact ⟨hvalue, hpoint, hle⟩

/-- The nearest double and the side, in terms of the exact result. -/
theorem sum_at (h : o.Admissible) : ∃ i, Format.double.round .nearest o.exact = Format.double.point i ∧
    i.natAbs < Format.double.infinityMagnitude ∧ Format.double.At o.sum i := by
  obtain ⟨ha, hb, hx⟩ := h
  obtain ⟨i, hround, hat⟩ := add_at (first_hasValue ha).1 (second_hasValue hb).1
  have hlt := abs_le_largestDouble_iff.1 (hround ▸ abs_round_le_of_le isPoint_largestDouble hx)
  rw [clamp_of_natAbs_le hlt.le] at hat
  exact ⟨i, hround, hlt, hat⟩

theorem residualSide_eq (h : o.Admissible) : (o.Overrun → o.residualSide = .exact) ∧
    (¬o.Overrun → o.residualSide = .ofSign (o.exact - Format.double.round .nearest o.exact)) := by
  obtain ⟨ha, hb, hx⟩ := h
  obtain ⟨hfirst, hpu, hu⟩ := first_hasValue ha
  obtain ⟨hsecond, hpv, hv⟩ := second_hasValue hb
  exact (sum_side hfirst hsecond hpu hpv hu hv hx).2

/-- A sum below the normal range is a double. -/
theorem isPoint_exact (h : o.Admissible) (hx : |o.exact| < leastNormalDouble) : Format.double.IsPoint o.exact := by
  have hgrid {y : ℝ} (hy : Format.double.IsPoint y) : OnGrid (-1074) y := by
    obtain ⟨e, he, hgrid, -⟩ := hy.exists_onGrid
    exact hgrid.of_le (by rwa [unit_double] at he)
  refine isPoint_double_of_onGrid le_rfl ((hgrid (first_hasValue h.1).2.1).add (hgrid (second_hasValue h.2.1).2.1)) ?_
  exact hx.le.trans (leastNormalDouble_le_zpow (by norm_num))

/-- Where the exact result is not zero, there is no sign to settle. -/
theorem settled_of_ne (hsum : ¬(o.sum.isZero ∧ o.residualSide = .exact)) : o.settled mode = o.sum := by
  refine if_neg ?_
  rwa [Bool.and_eq_true, beq_iff_eq]

/-- A zero gets its sign. -/
theorem settled_of_zero (mode : RoundingMode) (h : o.Admissible) (h0 : o.exact = 0) (hsum : Format.double.At o.sum 0)
    (hside : o.residualSide = .exact) :
    Format.double.At (o.settled mode) 0 ∧ (o.settled mode).isNegative = o.zeroNegative mode := by
  have hsign : o.sum.isNegative = (o.first.isNegative && o.second.isNegative) :=
    isNegative_add (first_hasValue h.1).1 (second_hasValue h.2.1).1 h0
  have hsettled : o.settled mode = (if o.isDifference then BinaryOp.sub else .add).zeroSum mode
      (Precision.double.datum o.a) (Precision.double.datum o.b) o.sum :=
    if_pos (by rw [hsum.isZero_iff.2 rfl, hside]; rfl)
  rw [hsettled]
  constructor
  · exact zeroSum_at _ _ _ _ hsum
  · have hb := (datum_hasValue h.2.1).1
    unfold zeroNegative first second at *
    cases hd : o.isDifference <;> simp only [hd, Bool.false_eq_true, if_false, if_true] at hsign ⊢
    · exact zeroSum_add _ _ rfl rfl hsign
    · rw [isNegative_neg hb] at hsign ⊢
      exact zeroSum_sub _ _ rfl rfl hsign

/-- A sum whose residual is right is right. -/
theorem rounds_of_not_overrun (mode : RoundingMode) (h : o.Admissible) (hover : ¬o.Overrun) :
    SumRounds mode o.exact (o.zeroNegative mode) (o.outcome mode) := by
  obtain ⟨i, hround, hlt, hat⟩ := sum_at h
  have happrox := Approximates.of_round (x := o.exact) (hround ▸ hat.hasValue hlt) ((residualSide_eq h).2 hover)
  rw [hround] at happrox
  rw [outcome_eq h.1 h.2.1]
  rcases eq_or_ne o.exact 0 with h0 | hne
  · obtain ⟨hzero, hside⟩ := (h0 ▸ happrox).eq_zero
    obtain rfl : i = 0 := point_strictMono.injective (hzero.trans point_zero.symm)
    obtain ⟨hat', hsign⟩ := settled_of_zero mode h h0 hat hside
    rw [← hsign]
    exact finishDouble_rounds mode hat' hround { happrox with value := hat'.hasValue hlt } h.2.2 (isPoint_exact h)
  · have hsum : ¬(o.sum.isZero ∧ o.residualSide = .exact) := by
      rintro ⟨hzero, hside⟩
      exact hne ((happrox.exact_iff.1 hside).trans (happrox.value.isZero_iff.1 hzero))
    rw [settled_of_ne hsum]
    exact (finishDouble_rounds mode hat hround happrox h.2.2 (isPoint_exact h)).of_ne hne

/-- A sum whose residual is lost is the nearest double in every mode and counts as exact. -/
theorem outcome_of_overrun (mode : RoundingMode) (h : o.Admissible) (hover : o.Overrun) :
    (o.outcome mode).raised = ∅ ∧
      (o.outcome mode).double.HasValue (Format.double.round .nearest o.exact) := by
  obtain ⟨i, hround, hlt, hat⟩ := sum_at h
  have hside := (residualSide_eq h).1 hover
  have hlarge : leastNormalDouble ≤ |o.exact| :=
    (leastNormalDouble_le_zpow (by norm_num)).trans hover.inexact.2
  have hmin : leastNormalDouble ≤ |Format.double.point i| :=
    hround ▸ le_abs_round_of_le .nearest isPoint_leastNormalDouble hlarge
  have hmax : |Format.double.point i| ≤ largestDouble := abs_le_largestDouble_iff.2 hlt
  have hsum : ¬(o.sum.isZero ∧ o.residualSide = .exact) := by
    rintro ⟨hzero, -⟩
    rw [hat.isZero_iff.1 hzero, point_zero, abs_zero] at hmin
    exact hmin.not_gt leastNormalDouble_pos
  rw [outcome_eq h.1 h.2.1, settled_of_ne hsum, hside]
  have hfinish := finishDouble_normal mode hat (round_point .nearest i)
    (.refl (hat.hasValue hlt) ⟨i, rfl⟩) hmax hmin
  rwa [round_point, ← hround] at hfinish

end DoubleSum

/-- Sums and differences of doubles within the finite range are rounded correctly in every mode, with the exceptions
that the rounding calls for, except where the residual overruns. There the exact result is not a double, but the
nearest one is returned in every mode, and nothing is raised. -/
theorem sum_rounds_unless_overrun (o : DoubleSum) (mode : RoundingMode) (h : o.Admissible) :
    (SumRounds mode o.exact (o.zeroNegative mode) (o.outcome mode) ↔ ¬o.Overrun) ∧
      (o.Overrun → Format.double.round .nearest o.exact ≠ o.exact ∧ (o.outcome mode).raised = ∅ ∧
        (o.outcome mode).double.HasValue (Format.double.round .nearest o.exact)) := by
  refine ⟨⟨fun hrounds hover => ?_, DoubleSum.rounds_of_not_overrun mode h⟩,
    fun hover => ⟨hover.inexact.1, DoubleSum.outcome_of_overrun mode h hover⟩⟩
  have hlarge : leastNormalDouble ≤ |o.exact| :=
    (leastNormalDouble_le_zpow (by norm_num)).trans hover.inexact.2
  have hraised := (hrounds.rounded (.inr hlarge)).1
  rw [(DoubleSum.outcome_of_overrun mode h hover).1] at hraised
  -- nothing is raised, so the exact result would have to be a double
  have hround : Format.double.round mode o.exact = o.exact := by
    by_contra hne
    rw [if_neg hne] at hraised
    exact absurd hraised (by decide)
  have hpoint : Format.double.IsPoint o.exact := hround ▸ isPoint_round mode o.exact
  exact hover.inexact.1 (hpoint.round_eq .nearest)

/-- The bound on the exact result, in rational arithmetic. -/
theorem DoubleSum.abs_exact_le {o : DoubleSum}
    (h : |o.first.toRat?.getD 0 + o.second.toRat?.getD 0| ≤ (((2 ^ 53 - 1) * 2 ^ 971 : ℕ) : ℚ)) :
    |o.exact| ≤ largestDouble := by
  have hlarge : largestDouble = ((((2 ^ 53 - 1) * 2 ^ 971 : ℕ) : ℚ) : ℝ) := (Rat.cast_natCast _).symm
  rw [hlarge, DoubleSum.exact, Datum.value, Datum.value, ← Rat.cast_add, ← Rat.cast_abs]
  exact_mod_cast h

/-- One and half of the spacing above it. -/
def DoubleSum.onePlusHalf : DoubleSum := ⟨false, 0x3FF0000000000000, 0x3CA0000000000000⟩

theorem sum_rounds_unless_overrun_one : DoubleSum.onePlusHalf.Admissible ∧
    DoubleSum.onePlusHalf.outcome .upward = ⟨0x3FF0000000000001, .inexact⟩ ∧
    (SumRounds .upward DoubleSum.onePlusHalf.exact false ⟨0x3FF0000000000001, .inexact⟩ ↔
      ¬DoubleSum.onePlusHalf.Overrun) := by
  have hadmissible : DoubleSum.onePlusHalf.Admissible :=
    ⟨.inl (by decide), .inl (by decide), DoubleSum.abs_exact_le (by decide +kernel)⟩
  have houtcome : DoubleSum.onePlusHalf.outcome .upward = ⟨0x3FF0000000000001, .inexact⟩ := by decide +kernel
  exact ⟨hadmissible, houtcome, houtcome ▸ (sum_rounds_unless_overrun _ .upward hadmissible).1⟩

/-- The largest double less three halves of the spacing below it. -/
def DoubleSum.largestLessThree : DoubleSum := ⟨false, 0xFCA8000000000000, 0x7FEFFFFFFFFFFFFF⟩

theorem DoubleSum.exact_largestLessThree : DoubleSum.largestLessThree.exact = (2 ^ 54 - 5) * halfStep := by
  have hfirst : DoubleSum.largestLessThree.first = .finite true (3 * 2 ^ 51) 919 := by decide
  have hsecond : DoubleSum.largestLessThree.second = .finite false (2 ^ 53 - 1) 971 := by decide
  have hstep : halfStep = 2 ^ 51 * 2 ^ (919 : ℤ) := by
    rw [halfStep_eq, ← zpow_natCast, ← zpow_add₀ two_ne_zero]
    rfl
  rw [DoubleSum.exact, hfirst, hsecond, (Datum.hasValue_finite _ _ _).value_eq,
    (Datum.hasValue_finite _ _ _).value_eq, step_eq, hstep]
  generalize (2 : ℝ) ^ (919 : ℤ) = q
  norm_num
  ring

/-- It is no double, but the nearest one counts as exact. -/
theorem overrun_unnoticed : DoubleSum.largestLessThree.Admissible ∧
    DoubleSum.largestLessThree.outcome .nearest = ⟨0x7FEFFFFFFFFFFFFE, ∅⟩ ∧
    ¬SumRounds .nearest DoubleSum.largestLessThree.exact (DoubleSum.largestLessThree.zeroNegative .nearest)
      (DoubleSum.largestLessThree.outcome .nearest) := by
  have houtcome : DoubleSum.largestLessThree.outcome .nearest = ⟨0x7FEFFFFFFFFFFFFE, ∅⟩ := by decide +kernel
  refine ⟨⟨.inl (by decide), .inl (by decide), DoubleSum.abs_exact_le (by decide +kernel)⟩, houtcome, ?_⟩
  rw [houtcome]
  intro hrounds
  have hpos := halfStep_pos
  have hlarge : leastNormalDouble ≤ |DoubleSum.largestLessThree.exact| := by
    have hle : leastNormalDouble ≤ halfStep := halfStep_eq ▸ leastNormalDouble_le_zpow (by norm_num)
    rw [DoubleSum.exact_largestLessThree, abs_of_pos (mul_pos (by norm_num) hpos)]
    linarith
  obtain ⟨hraised, hvalue, -⟩ := hrounds.rounded (.inr hlarge)
  have hround : Format.double.round .nearest DoubleSum.largestLessThree.exact =
      DoubleSum.largestLessThree.exact := by
    by_contra hne
    rw [if_neg hne] at hraised
    exact absurd hraised (by decide)
  have hdouble : (Outcome.mk 0x7FEFFFFFFFFFFFFE ∅).double = .finite false (2 ^ 53 - 2) 971 := by decide
  rw [hround, hdouble, DoubleSum.exact_largestLessThree] at hvalue
  have heq := hvalue.eq (Datum.hasValue_finite _ _ _)
  rw [step_eq] at heq
  push_cast at heq
  norm_num at heq
  linarith

end Vr4300.FloatingPoint
