import Vr4300.Proofs.IntegralDoubles

/-!
# Conversions between floating point and integers

A number is converted to an integer by rounding it to an integral double, which is tested against the range of the
integer and compared with the operand. A long is converted by rounding it to nearest and comparing it with the result,
which is enough for every mode.

## Contents

* `IntegerFormat.range`, `IntegerFormat.decode`: the integers of a conversion and their patterns.
* `toInteger_of_isOrdinary`, `fromLong_sumRounds`, `fromInteger_exact`: what the conversions give.
* `isOrdinary_of_hasValue`: which patterns are not refused.
* `integer_conversions`.
-/

namespace Vr4300.FloatingPoint

open Format

/-! ## Integers and their patterns -/

namespace IntegerFormat

/-- The integers that a conversion can give. -/
def range : IntegerFormat → Set ℤ
  | word => Set.Ico (-2 ^ 31) (2 ^ 31)
  | long => Set.Ioo (-2 ^ 53) (2 ^ 53)

/-- The integer behind a pattern. -/
def decode : IntegerFormat → UInt64 → ℤ
  | word, bits => bits.toUInt32.toInt32.toInt
  | long, bits => bits.toInt64.toInt

theorem toInt_toInt32 (x : UInt32) :
    x.toInt32.toInt = if 2 * x.toNat < 2 ^ 32 then (x.toNat : ℤ) else x.toNat - 2 ^ 32 :=
  BitVec.toInt_eq_toNat_cond _

theorem toInt_toInt64 (x : UInt64) :
    x.toInt64.toInt = if 2 * x.toNat < 2 ^ 64 then (x.toNat : ℤ) else x.toNat - 2 ^ 64 :=
  BitVec.toInt_eq_toNat_cond _

theorem toNat_ofInt32 (n : ℤ) : ((UInt32.ofInt n).toNat : ℤ) = n % 2 ^ 32 := by
  unfold UInt32.ofInt
  rw [UInt32.toNat_ofNat']
  omega

theorem toNat_ofInt64 (n : ℤ) : ((UInt64.ofInt n).toNat : ℤ) = n % 2 ^ 64 := by
  unfold UInt64.ofInt
  rw [UInt64.toNat_ofNat']
  omega

/-- The pattern of an integer in the range gives it back. -/
theorem decode_encode {target : IntegerFormat} {n : ℤ} (hn : n ∈ target.range) :
    target.decode (target.encode n) = n := by
  cases target with
  | word =>
    obtain ⟨hlo, hhi⟩ := hn
    have hnat := toNat_ofInt32 n
    show ((UInt32.ofInt n).toUInt64.toUInt32).toInt32.toInt = n
    rw [UInt32.toUInt32_toUInt64, toInt_toInt32]
    split_ifs <;> omega
  | long =>
    obtain ⟨hlo, hhi⟩ := hn
    have hnat := toNat_ofInt64 n
    show (UInt64.ofInt n).toInt64.toInt = n
    rw [toInt_toInt64]
    split_ifs <;> omega

theorem encode_decode_word (bits : UInt64) : word.encode (word.decode bits) = bits.toUInt32.toUInt64 := by
  have hnat := toNat_ofInt32 (word.decode bits)
  have hlt := bits.toUInt32.toNat_lt
  have hvalue : word.decode bits = _ := toInt_toInt32 bits.toUInt32
  refine congrArg UInt32.toUInt64 (UInt32.toNat_inj.mp ?_)
  rw [hvalue] at hnat ⊢
  split_ifs at hnat ⊢ <;> omega

theorem encode_decode_long (bits : UInt64) : long.encode (long.decode bits) = bits := by
  have hnat := toNat_ofInt64 (long.decode bits)
  have hlt := bits.toNat_lt
  have hvalue : long.decode bits = _ := toInt_toInt64 bits
  refine UInt64.toNat_inj.mp ?_
  show (UInt64.ofInt (long.decode bits)).toNat = bits.toNat
  rw [hvalue] at hnat ⊢
  split_ifs at hnat ⊢ <;> omega

/-- **The test of the range** on doubles is that on integers. -/
theorem holds_iff {target : IntegerFormat} {v : Datum} {n : ℤ} (hv : v.HasValue n) :
    target.holds v = true ↔ n ∈ target.range := by
  cases target with
  | word =>
    have hleast : (Datum.finite true 1 31).HasValue ((-2 ^ 31 : ℤ) : ℝ) := by
      convert Datum.hasValue_finite true 1 31 using 1
      norm_num
    unfold holds range
    dsimp only
    rw [Bool.and_eq_true, Bool.or_eq_true, hleast.less_iff hv, hleast.same_iff hv, hv.less_iff hleast.neg,
      ← le_iff_lt_or_eq, Set.mem_Ico, Int.cast_le]
    refine and_congr_right fun _ => ?_
    rw [← Int.cast_neg, Int.cast_lt, neg_neg]
  | long =>
    have hlimit : (Datum.finite false 1 53).HasValue ((2 ^ 53 : ℤ) : ℝ) := by
      convert Datum.hasValue_finite false 1 53 using 1
      norm_num
    unfold holds range
    dsimp only
    rw [Bool.and_eq_true, hlimit.neg.less_iff hv, hv.less_iff hlimit, Set.mem_Ioo, ← Int.cast_neg, Int.cast_lt,
      Int.cast_lt]

end IntegerFormat

/-! ## To integers -/

variable {p : Precision} {target : IntegerFormat} {mode : RoundingMode} {bits : UInt64} {x : ℝ} {n : ℤ}

/-- **The operand** of a conversion is a double. -/
theorem operand_hasValue (h : p.IsOrdinary bits) : (p.datum bits).HasValue (p.datum bits).value ∧
    Format.double.IsPoint (p.datum bits).value ∧ |(p.datum bits).value| < 2 ^ (1024 : ℤ) := by
  cases p with
  | single =>
    obtain ⟨i, hat, hlt, -⟩ := h.at
    have hvalue : (Precision.single.datum bits).HasValue (Format.single.point i) := hat.hasValue hlt
    rw [hvalue.value_eq]
    refine ⟨hvalue, isPoint_double_of_single ⟨i, rfl⟩, ?_⟩
    rw [abs_point]
    refine (size_strictMono hlt).trans ?_
    show Format.single.size Format.single.infinityMagnitude < _
    rw [size_infinityMagnitude]
    exact zpow_lt_zpow_right₀ one_lt_two (by norm_num)
  | double =>
    obtain ⟨hvalue, hpoint, hle⟩ := datum_hasValue h
    exact ⟨hvalue, hpoint, hle.trans_lt largestDouble_lt_limit⟩

/-- The classes without a conversion are those of the operands that are neither normal nor zero. -/
theorem isOrdinary_iff : p.IsOrdinary bits ↔
    ¬((p.classify bits).isNan ∨ (p.classify bits).isInfinite ∨ p.classify bits = .denormal) := by
  unfold Precision.IsOrdinary
  cases p.classify bits <;> decide

theorem toInteger_of_not_isOrdinary (h : ¬p.IsOrdinary bits) : toInteger p target mode bits = .unimplemented := by
  rw [isOrdinary_iff, not_not] at h
  unfold toInteger
  dsimp only
  rw [if_pos]
  simpa [or_assoc] using h

/-- **A number is converted** to the integer that it rounds to, if that is in the range. -/
theorem toInteger_of_isOrdinary (target : IntegerFormat) (mode : RoundingMode) (h : p.IsOrdinary bits) :
    (mode.integer (p.datum bits).value ∈ target.range → toInteger p target mode bits =
      ⟨target.encode (mode.integer (p.datum bits).value),
        if (mode.integer (p.datum bits).value : ℝ) = (p.datum bits).value then ∅ else .inexact⟩) ∧
    (mode.integer (p.datum bits).value ∉ target.range → toInteger p target mode bits = .unimplemented) := by
  obtain ⟨hvalue, hpoint, hlt⟩ := operand_hasValue h
  have hrounded := toIntegral_hasValue mode hvalue hpoint hlt
  have hclass : ¬((p.classify bits).isNan || (p.classify bits).isInfinite || p.classify bits == .denormal) = true := by
    have := isOrdinary_iff.1 h
    simpa [or_assoc] using this
  have hinteger : ((mode.toIntegral (p.datum bits)).toRat?.getD 0).floor = mode.integer (p.datum bits).value := by
    have hrat : (mode.toIntegral (p.datum bits)).toRat?.getD 0 = (mode.integer (p.datum bits).value : ℚ) := by
      exact_mod_cast hrounded.toRat?_eq
    rw [hrat]
    exact Rat.floor_intCast _
  unfold toInteger
  dsimp only
  rw [if_neg hclass, hinteger]
  refine ⟨fun hin => ?_, fun hout => if_neg (mt (IntegerFormat.holds_iff hrounded).1 hout)⟩
  rw [if_pos ((IntegerFormat.holds_iff hrounded).2 hin)]
  simp only [hrounded.same_iff hvalue]

/-! ## From integers -/

/-- The double nearest to an integer of moderate size. -/
theorem nearest_integer_at (hn : |(n : ℝ)| ≤ 2 ^ (55 : ℤ)) :
    ∃ i, Format.double.round .nearest n = Format.double.point i ∧
      Format.double.At (Format.double.nearest false (n : ℚ)) i := by
  obtain ⟨i, hround, hat⟩ := nearest_at (f := .double) false (n : ℚ)
  rw [Rat.cast_intCast] at hround
  have hlt := abs_round_lt hn (by norm_num)
  rw [hround] at hlt
  rw [clamp_of_natAbs_le (natAbs_lt_of_abs_lt hlt).le] at hat
  exact ⟨i, hround, hat⟩

theorem leastNormalDouble_le_one : leastNormalDouble ≤ 1 := by
  simpa using leastNormalDouble_le_zpow (k := 0) (by norm_num)

/-- An integer is zero, or within the normal range. -/
theorem eq_zero_or_leastNormal_le (n : ℤ) : (n : ℝ) = 0 ∨ leastNormalDouble ≤ |(n : ℝ)| := by
  rcases eq_or_ne n 0 with rfl | hn
  · exact .inl Int.cast_zero
  · have hone : (1 : ℝ) ≤ |(n : ℝ)| := by exact_mod_cast Int.one_le_abs hn
    exact .inr (leastNormalDouble_le_one.trans hone)

/-- **A long below the limit** is rounded once. -/
theorem fromLong_sumRounds (mode : RoundingMode) {l : UInt64} (hl : |l.toInt64.toInt| < 2 ^ 55) :
    SumRounds mode l.toInt64.toInt false (fromInteger .long .double mode l) := by
  have hreal : |(l.toInt64.toInt : ℝ)| ≤ 2 ^ (55 : ℤ) := by exact_mod_cast hl.le
  have h := integer_approximates hreal (by norm_num)
  obtain ⟨i, hround, hat⟩ := nearest_integer_at hreal
  rw [hround] at h
  have hmax : |(l.toInt64.toInt : ℝ)| ≤ largestDouble := by
    rw [largestDouble_eq, halfStep_eq]
    refine hreal.trans ((zpow_le_zpow_right₀ one_le_two (show (55 : ℤ) ≤ 970 by norm_num)).trans ?_)
    exact le_mul_of_one_le_left (by positivity) (by norm_num)
  have hpoint (hlt : |(l.toInt64.toInt : ℝ)| < leastNormalDouble) : Format.double.IsPoint (l.toInt64.toInt : ℝ) := by
    rw [(eq_zero_or_leastNormal_le _).resolve_right hlt.not_ge]
    exact isPoint_zero
  have hfinish := finishDouble_rounds mode hat hround h hmax hpoint
  unfold fromInteger
  dsimp only [finish]
  rw [if_neg (mt beyond_longLimit_iff.1 hl.not_ge)]
  rcases eq_or_ne l.toInt64.toInt 0 with h0 | h0
  · have hnegative : (Format.double.nearest false (l.toInt64.toInt : ℚ)).isNegative = false := by
      rw [h0, Int.cast_zero]
      exact isNegative_nearest_zero _ _
    rwa [hnegative] at hfinish
  · exact hfinish.of_ne (by exact_mod_cast h0)

theorem fromLong_unimplemented_iff (mode : RoundingMode) (l : UInt64) :
    fromInteger .long .double mode l = .unimplemented ↔ 2 ^ 55 ≤ |l.toInt64.toInt| := by
  constructor
  · intro h
    by_contra hl
    obtain ⟨hraised, -⟩ := (fromLong_sumRounds mode (not_le.1 hl)).rounded (eq_zero_or_leastNormal_le _)
    rw [h] at hraised
    split_ifs at hraised <;> cases hraised
  · intro hl
    unfold fromInteger
    exact if_pos (beyond_longLimit_iff.2 hl)

/-! ## There and back -/

theorem IntegerFormat.word_mem_range (bits : UInt64) : word.decode bits ∈ word.range :=
  ⟨Int32.le_toInt _, Int32.toInt_lt _⟩

/-- **An integer in the range** is converted exactly. -/
theorem fromInteger_exact {source : IntegerFormat} (h : source.decode bits ∈ source.range) (mode : RoundingMode) :
    (fromInteger source .double mode bits).raised = ∅ ∧
      (fromInteger source .double mode bits).double.HasValue (source.decode bits) := by
  have hle : |source.decode bits| ≤ 2 ^ 53 := by
    rw [abs_le]
    cases source with
    | word => exact ⟨by have := h.1; omega, by have := h.2; omega⟩
    | long => exact ⟨h.1.le, h.2.le⟩
  have hpoint := isPoint_intCast hle
  cases source with
  | word =>
    have hreal : |(IntegerFormat.word.decode bits : ℝ)| ≤ 2 ^ (53 : ℤ) := by exact_mod_cast hle
    obtain ⟨i, hround, hat⟩ := nearest_integer_at (hreal.trans (zpow_le_zpow_right₀ one_le_two (by norm_num)))
    have hvalue := integer_hasValue hreal (by norm_num)
    rw [hpoint.round_eq] at hvalue
    refine ⟨rfl, ?_⟩
    have hdouble : (fromInteger .word .double mode bits).double = _ := encode_double hat ∅
    rwa [hdouble]
  | long =>
    have hlt : |bits.toInt64.toInt| < 2 ^ 55 := hle.trans_lt (by norm_num)
    obtain ⟨hraised, hvalue, -⟩ := (fromLong_sumRounds mode hlt).rounded (eq_zero_or_leastNormal_le _)
    have hround : Format.double.round mode (bits.toInt64.toInt : ℝ) = bits.toInt64.toInt := hpoint.round_eq mode
    rw [hround] at hraised hvalue
    exact ⟨hraised.trans (if_pos rfl), hvalue⟩

/-- The pattern of a number is below that of infinity, and the number of its absolute value. -/
theorem size_of_hasValue {f : Format} [f.Proper] {bits : ℕ} {v : ℝ} (h : (f.decode bits).HasValue v) :
    bits % f.signBit < f.infinityMagnitude ∧ |v| = f.size (bits % f.signBit) := by
  have hlt : bits % f.signBit < f.infinityMagnitude := by
    obtain ⟨s, m, e, hfinite⟩ := h.exists_finite
    unfold Format.decode ofMagnitude at hfinite
    dsimp only at hfinite
    by_contra hge
    split_ifs at hfinite
    all_goals omega
  obtain ⟨i, hi, hat⟩ := at_decode hlt.le
  rw [h.eq (hat.hasValue (by omega)), abs_point, hi]
  exact ⟨hlt, rfl⟩

/-- **A double with a value** that is zero or within the normal range is not refused. -/
theorem isOrdinary_of_hasValue {v : ℝ} (h : (Precision.double.datum bits).HasValue v)
    (hv : v = 0 ∨ leastNormalDouble ≤ |v|) : Precision.double.IsOrdinary bits := by
  have hdecoded : (Format.double.decode bits.toNat).HasValue v := h
  obtain ⟨hlt, hsize⟩ := size_of_hasValue hdecoded
  rcases hv with rfl | hmin
  · rw [abs_zero, ← size_zero (f := .double), size_strictMono.injective.eq_iff] at hsize
    exact .inr (isZero_classify_iff.2 hsize.symm)
  · rw [hsize, ← size_minNormal_double, size_strictMono.le_iff_le] at hmin
    exact .inl (classify_eq_normal_iff.2 ⟨hmin, hlt⟩)

/-- **There and back**: a conversion to double and one back give the integer and raise nothing, in all modes. -/
theorem toInteger_fromInteger {source : IntegerFormat} (h : source.decode bits ∈ source.range)
    (mode mode' : RoundingMode) : (fromInteger source .double mode bits).raised = ∅ ∧
      toInteger .double source mode' (fromInteger source .double mode bits).bits =
        .exact (source.encode (source.decode bits)) := by
  obtain ⟨hraised, hvalue⟩ := fromInteger_exact h mode
  refine ⟨hraised, ?_⟩
  have hordinary := isOrdinary_of_hasValue hvalue (eq_zero_or_leastNormal_le _)
  obtain ⟨hconverted, -⟩ := toInteger_of_isOrdinary source mode' hordinary
  rw [show (Precision.double.datum _).value = _ from hvalue.value_eq, RoundingMode.integer_intCast] at hconverted
  rw [hconverted h, if_pos rfl]
  rfl

/-! ## All conversions -/

/-- The outcome is an integer, and raises the inexact exception if the number that it was rounded from is none. -/
structure Outcome.IsInteger (o : Outcome) (target : IntegerFormat) (n : ℤ) (x : ℝ) : Prop where
  /-- The pattern is that of the integer. -/
  bits : o.bits = target.encode n ∧ target.decode o.bits = n
  /-- Integers are exact. -/
  exact : (∃ m : ℤ, x = m) → o.raised = ∅
  /-- Other numbers are not. -/
  inexact : (¬∃ m : ℤ, x = m) → o.raised = .inexact

/-- The outcome is an integer rounded to a double, and raises the inexact exception if the double is not the integer. -/
structure Outcome.IsRoundedInteger (o : Outcome) (mode : RoundingMode) (n : ℤ) : Prop where
  /-- The double is the rounded integer. -/
  value : o.double.HasValue (Format.double.round mode n)
  /-- Zero is positive. -/
  zero : n = 0 → o.bits = 0
  /-- Doubles are exact. -/
  exact : Format.double.round mode n = n → o.raised = ∅
  /-- Other integers are not. -/
  inexact : Format.double.round mode n ≠ n → o.raised = .inexact

/-- An integer is what it rounds to. -/
theorem integer_eq_iff (mode : RoundingMode) (x : ℝ) : (mode.integer x : ℝ) = x ↔ ∃ m : ℤ, x = m := by
  constructor
  · intro h
    exact ⟨mode.integer x, h.symm⟩
  · rintro ⟨m, rfl⟩
    rw [RoundingMode.integer_intCast]

/-- **The operands that are refused.** -/
theorem toInteger_unimplemented_iff : toInteger p target mode bits = .unimplemented ↔
    ¬(p.IsOrdinary bits ∧ mode.integer (p.datum bits).value ∈ target.range) := by
  by_cases h : p.IsOrdinary bits
  · obtain ⟨hin, hout⟩ := toInteger_of_isOrdinary target mode h
    by_cases hrange : mode.integer (p.datum bits).value ∈ target.range
    · refine iff_of_false (fun heq => ?_) (not_not.2 ⟨h, hrange⟩)
      have hraised := congrArg Outcome.raised ((hin hrange).symm.trans heq)
      dsimp only at hraised
      split_ifs at hraised <;> cases hraised
    · exact iff_of_true (hout hrange) fun hboth => hrange hboth.2
  · exact iff_of_true (toInteger_of_not_isOrdinary h) fun hboth => h hboth.1

theorem isInteger_toInteger (h : p.IsOrdinary bits) (hin : mode.integer (p.datum bits).value ∈ target.range) :
    (toInteger p target mode bits).IsInteger target (mode.integer (p.datum bits).value) (p.datum bits).value := by
  rw [(toInteger_of_isOrdinary target mode h).1 hin]
  exact {
    bits := ⟨rfl, IntegerFormat.decode_encode hin⟩
    exact := fun hx => if_pos ((integer_eq_iff mode _).2 hx)
    inexact := fun hx => if_neg (mt (integer_eq_iff mode _).1 hx) }

theorem isRoundedInteger_fromLong (mode : RoundingMode) {l : UInt64} (hl : |l.toInt64.toInt| < 2 ^ 55) :
    (fromInteger .long .double mode l).IsRoundedInteger mode l.toInt64.toInt := by
  obtain ⟨hraised, hvalue, hnegative⟩ := (fromLong_sumRounds mode hl).rounded (eq_zero_or_leastNormal_le _)
  refine ⟨hvalue, fun h0 => ?_, fun h => hraised.trans (if_pos h), fun h => hraised.trans (if_neg h)⟩
  rw [h0, Int.cast_zero, isPoint_zero.round_eq] at hvalue
  rw [h0, Int.cast_zero] at hnegative
  have hzero : (Outcome.exact 0).double.HasValue 0 := by
    rw [show (Outcome.exact 0).double = .finite false 0 (-1074) by decide]
    simpa using Datum.hasValue_finite false 0 (-1074)
  exact Outcome.bits_eq hvalue hzero fun _ => (hnegative rfl).trans (by decide)

/-- **The conversions between floating point and integers**, in every mode. From both precisions to both integers the
hardware refuses the operands that are not numbers, the denormals, and those whose rounding is out of range; it gives
all others the integer that they round to. From longs to doubles it refuses the magnitudes from `2 ^ 55` on, and
rounds the others once. Words, and longs below `2 ^ 53` in magnitude, come back from doubles as they were. -/
theorem integer_conversions (mode : RoundingMode) :
    (∀ (p : Precision) (target : IntegerFormat) (bits : UInt64),
      (toInteger p target mode bits = .unimplemented ↔
        (p.classify bits).isNan ∨ (p.classify bits).isInfinite ∨ p.classify bits = .denormal ∨
          mode.integer (p.datum bits).value ∉ target.range) ∧
      (toInteger p target mode bits ≠ .unimplemented →
        (toInteger p target mode bits).IsInteger target (mode.integer (p.datum bits).value) (p.datum bits).value)) ∧
    (∀ l : UInt64,
      (fromInteger .long .double mode l = .unimplemented ↔ 2 ^ 55 ≤ |l.toInt64.toInt|) ∧
      (|l.toInt64.toInt| < 2 ^ 55 →
        (fromInteger .long .double mode l).IsRoundedInteger mode l.toInt64.toInt)) ∧
    (∀ (mode' : RoundingMode) (w : UInt64),
      (fromInteger .word .double mode w).raised = ∅ ∧
      toInteger .double .word mode' (fromInteger .word .double mode w).bits = .exact w.toUInt32.toUInt64) ∧
    (∀ (mode' : RoundingMode) (l : UInt64), |l.toInt64.toInt| < 2 ^ 53 →
      (fromInteger .long .double mode l).raised = ∅ ∧
      toInteger .double .long mode' (fromInteger .long .double mode l).bits = .exact l) := by
  refine ⟨fun p target bits => ?_, fun l => ⟨fromLong_unimplemented_iff mode l, isRoundedInteger_fromLong mode⟩,
    fun mode' w => ?_, fun mode' l hl => ?_⟩
  · refine ⟨?_, fun hne => ?_⟩
    · rw [toInteger_unimplemented_iff, isOrdinary_iff]
      tauto
    · obtain ⟨h, hin⟩ := not_not.1 (mt toInteger_unimplemented_iff.2 hne)
      exact isInteger_toInteger h hin
  · have h := toInteger_fromInteger (IntegerFormat.word_mem_range w) mode mode'
    rwa [IntegerFormat.encode_decode_word] at h
  · have hrange : IntegerFormat.long.decode l ∈ IntegerFormat.long.range := abs_lt.1 hl
    have h := toInteger_fromInteger hrange mode mode'
    rwa [IntegerFormat.encode_decode_long] at h

/-- Two and a half is a tie, which goes to two. The least long that is no double is rounded up to the next one, and
minus seven comes back. -/
theorem integer_conversions_tie :
    (toInteger .single .word .nearest 0x40200000).IsInteger .word 2 (5 / 2) ∧
      (fromInteger .long .double .upward 0x20000000000001).IsRoundedInteger .upward (2 ^ 53 + 1) ∧
      toInteger .double .long .downward (fromInteger .long .double .upward 0xFFFFFFFFFFFFFFF9).bits =
        .exact 0xFFFFFFFFFFFFFFF9 := by
  have hvalue : (Precision.single.datum 0x40200000).value = 5 / 2 := by
    have hdatum : Precision.single.datum 0x40200000 = .finite false 0xA00000 (-22) := by decide
    rw [hdatum, (Datum.hasValue_finite false 0xA00000 (-22)).value_eq]
    norm_num
  have htie : RoundingMode.nearest.integer (5 / 2) = 2 := by
    rw [RoundingMode.integer_nearest_eq_iff]
    exact .inr ⟨by norm_num, by decide⟩
  obtain ⟨hto, -⟩ := integer_conversions .nearest
  obtain ⟨-, hfrom, -, hback⟩ := integer_conversions .upward
  have hinteger := (hto .single .word 0x40200000).2 (by decide +kernel)
  rw [hvalue, htie] at hinteger
  exact ⟨hinteger, (hfrom 0x20000000000001).2 (by decide), (hback .downward 0xFFFFFFFFFFFFFFF9 (by decide)).2⟩

end Vr4300.FloatingPoint
