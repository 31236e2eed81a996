import Vr4300.Proofs.SingleArithmetic

/-!
# `Proofs.OverflowTie` — the tie that narrowing misses

A double and the side of it on which the exact value lies are enough to round the exact value to a single, in every mode
and at every place of the range, except one. Where the double is the middle between the largest finite single and the
limit of the range, its closest single is infinity, and the side is not looked at, because a middle is only recognised
between two finite singles. To the nearest single, an exact value that lies closer to zero than the double should be
rounded to the largest finite one.

The directed modes do not need the side there: the exact value and the double lie between the same two points.

## Contents

* `Narrows`: a single and a flag as the rounding of an exact value;
* `narrow_zero`: the sign of a zero;
* `narrow_inexact_iff`: the flag;
* `narrow_at_of_directed`, `narrow_of_overflowTie`: beside the middle;
* `narrow_rounds_unless_overflowTie`, and `overflowTie_missed`.
-/

namespace Vr4300.FloatingPoint

open Format

variable {mode : RoundingMode} {r c d closest low high : Datum} {R x : ℝ} {side : Side}

/-- A single and a flag are the rounding of an exact value in a mode. -/
structure Narrows (mode : RoundingMode) (x : ℝ) (zeroNegative : Bool) (o : Datum × Bool) : Prop where
  /-- The single stands for the rounding, or for what the mode delivers beyond the finite range. -/
  delivered : ∃ i, Format.single.round mode x = Format.single.point i ∧
    Format.single.At o.1 (Format.single.deliver mode i)
  /-- The sign of a zero. -/
  zero : o.1.isZero = true → o.1.isNegative = zeroNegative
  /-- The flag tells whether the single differs from the exact value. -/
  inexact : o.2 = true ↔ ¬ o.1.HasValue x

/-! ## The sign of a zero -/

theorem isNegative_convert (h : r.HasValue R) : (Format.single.convert r).isNegative = r.isNegative := by
  obtain ⟨s, m, e, rfl⟩ := h.exists_finite
  obtain ⟨y, hy, -⟩ := h
  have hsign : y ≠ 0 → decide (y < 0) = s := by
    intro hne
    have hreal : (y : ℝ) = (if s then -(m : ℝ) else m) * 2 ^ e :=
      Datum.HasValue.eq ⟨y, hy, rfl⟩ (Datum.hasValue_finite s m e)
    have hpos : (0 : ℝ) ≤ m * 2 ^ e := by positivity
    have hne' : (y : ℝ) ≠ 0 := by exact_mod_cast hne
    rw [Bool.eq_iff_iff, decide_eq_true_eq, ← Rat.cast_lt (K := ℝ), Rat.cast_zero, hreal]
    cases s with
    | false => simpa using hpos
    | true =>
      rw [hreal] at hne'
      simp only [if_true, neg_mul, ne_eq, neg_eq_zero] at hne'
      simpa using lt_of_le_of_ne hpos (Ne.symm hne')
  rw [convert, hy]
  dsimp only
  by_cases h0 : y = 0
  · rw [nearest, if_pos h0]
    rfl
  · rw [nearest, if_neg h0]
    exact (isNegative_ofMagnitude (min_le_left _ _) _).trans (hsign h0)

/-- A neighbour that is a zero has the sign of the single beside it. -/
theorem isNegative_next_of_isZero {i : ℤ} (h : Format.single.At c i) (hz : (Format.single.next c).isZero = true) :
    (Format.single.next c).isNegative = c.isNegative := by
  rcases (show i ≤ Format.single.infinityMagnitude by have := h.1; omega).lt_or_eq with hlt | rfl
  · have hi : i + 1 = 0 := (h.next hlt).isZero_iff.1 hz
    obtain rfl : i = -1 := by omega
    obtain ⟨-, s, rfl, hneg, -⟩ := h
    rw [hneg (by decide)]
    decide
  · rw [h.eq_infinity (by simp) (by decide)] at hz
    cases hz

theorem isNegative_previous_of_isZero {i : ℤ} (h : Format.single.At c i)
    (hz : (Format.single.previous c).isZero = true) :
    (Format.single.previous c).isNegative = c.isNegative := by
  rcases (show -(Format.single.infinityMagnitude : ℤ) ≤ i by have := h.1; omega).lt_or_eq with hlt | rfl
  · have hi : i - 1 = 0 := (h.previous hlt).isZero_iff.1 hz
    obtain rfl : i = 1 := by omega
    obtain ⟨-, s, rfl, -, hpos⟩ := h
    rw [hpos (by decide)]
    decide
  · rw [h.eq_infinity (by simp) (by decide)] at hz
    cases hz

theorem representable_eq_or (mode : RoundingMode) (side : Side) (c : Datum) :
    RoundingMode.narrow.representable mode side c = c ∨
      RoundingMode.narrow.representable mode side c = Format.single.next c ∨
      RoundingMode.narrow.representable mode side c = Format.single.previous c := by
  unfold RoundingMode.narrow.representable RoundingMode.adjust.stepTowardZero
  cases mode with
  | nearest => exact .inl rfl
  | upward => cases side <;> simp
  | downward => cases side <;> simp
  | towardZero => dsimp only; split_ifs <;> simp

theorem enclosed_eq_or (mode : RoundingMode) (side : Side) (r closest low high : Datum) :
    mode.enclosed side r closest low high = closest ∨ mode.enclosed side r closest low high = low ∨
      mode.enclosed side r closest low high = high := by
  unfold RoundingMode.enclosed RoundingMode.narrow.tied
  cases mode with
  | upward => exact .inr (.inr rfl)
  | downward => exact .inr (.inl rfl)
  | towardZero => dsimp only; split_ifs <;> simp
  | nearest => cases side <;> dsimp only <;> split_ifs <;> simp

/-- The single is the closest one to the double, or a neighbour of it. -/
theorem narrow_eq_or (mode : RoundingMode) (side : Side) (r : Datum) :
    (mode.narrow side r).1 = Format.single.convert r ∨
      (mode.narrow side r).1 = Format.single.next (Format.single.convert r) ∨
      (mode.narrow side r).1 = Format.single.previous (Format.single.convert r) := by
  by_cases hsame : (Format.single.convert r).same r
  · rw [narrow_of_same hsame]
    split_ifs
    · exact .inl rfl
    · exact representable_eq_or mode side _
  · by_cases hless : (Format.single.convert r).less r
    · rw [narrow_of_less hsame hless]
      obtain h | h | h := enclosed_eq_or mode side r (Format.single.convert r) (Format.single.convert r)
        (Format.single.next (Format.single.convert r))
      · exact .inl h
      · exact .inl h
      · exact .inr (.inl h)
    · rw [narrow_of_not_less hsame hless]
      obtain h | h | h := enclosed_eq_or mode side r (Format.single.convert r)
        (Format.single.previous (Format.single.convert r)) (Format.single.convert r)
      · exact .inl h
      · exact .inr (.inr h)
      · exact .inl h

/-- A zero has the sign of the double. -/
theorem narrow_zero (mode : RoundingMode) (side : Side) (h : r.HasValue R)
    (hz : (mode.narrow side r).1.isZero = true) : (mode.narrow side r).1.isNegative = r.isNegative := by
  obtain ⟨c, -, hat⟩ := convert_at (f := .single) h
  rw [← isNegative_convert h]
  obtain heq | heq | heq := narrow_eq_or mode side r
  · rw [heq]
  · rw [heq] at hz ⊢
    exact isNegative_next_of_isZero hat hz
  · rw [heq] at hz ⊢
    exact isNegative_previous_of_isZero hat hz

/-! ## The flag -/

/-- Narrowing gives a single. -/
theorem exists_at_narrow (mode : RoundingMode) (side : Side) (h : r.HasValue R) :
    ∃ i, Format.single.At (mode.narrow side r).1 i := by
  obtain ⟨c, -, hat⟩ := convert_at (f := .single) h
  have hle := hat.1
  obtain heq | heq | heq := narrow_eq_or mode side r
  · exact ⟨_, heq ▸ hat⟩
  · rcases (show Format.single.clamp c ≤ Format.single.infinityMagnitude by omega).lt_or_eq with hlt | htop
    · exact ⟨_, heq ▸ hat.next hlt⟩
    · have hinfinity := hat.eq_infinity (by omega) (by rw [htop]; decide)
      have hsame : Format.single.next (Format.single.convert r) = Format.single.convert r := by
        rw [hinfinity, htop]
        rfl
      exact ⟨_, heq ▸ hsame ▸ hat⟩
  · rcases (show -(Format.single.infinityMagnitude : ℤ) ≤ Format.single.clamp c by omega).lt_or_eq with hlt | hbottom
    · exact ⟨_, heq ▸ hat.previous hlt⟩
    · have hinfinity := hat.eq_infinity (by omega) (by rw [← hbottom]; decide)
      have hsame : Format.single.previous (Format.single.convert r) = Format.single.convert r := by
        rw [hinfinity, ← hbottom]
        rfl
      exact ⟨_, heq ▸ hsame ▸ hat⟩

/-- The flag tells whether the single differs from the exact value. -/
theorem narrow_inexact_iff (mode : RoundingMode) (h : Approximates r R side x) :
    (mode.narrow side r).2 = true ↔ ¬ (mode.narrow side r).1.HasValue x := by
  rw [← Bool.not_eq_false, not_iff_not]
  obtain ⟨c, -, hat⟩ := convert_at (f := .single) h.value
  constructor
  · intro hexact
    -- only a double that is a single itself can be exact
    by_cases hsame : (Format.single.convert r).same r
    · rw [narrow_of_same hsame] at hexact ⊢
      split_ifs at hexact with hside
      obtain ⟨hlt, hR⟩ := (same_convert_iff h.value hat).1 hsame
      rw [clamp_of_natAbs_le hlt.le] at hat
      rw [if_pos hside, h.exact_iff.1 hside, hR]
      exact hat.hasValue hlt
    · by_cases hless : (Format.single.convert r).less r
      · rw [narrow_of_less hsame hless] at hexact
        cases hexact
      · rw [narrow_of_not_less hsame hless] at hexact
        cases hexact
  · intro hvalue
    obtain ⟨i, hat'⟩ := exists_at_narrow mode side h.value
    have hlt : i.natAbs < Format.single.infinityMagnitude := by
      refine lt_of_le_of_ne hat'.1 fun heq => ?_
      have hinfinite := hat'.isInfinite_iff.2 heq
      rw [hvalue.isInfinite_eq] at hinfinite
      cases hinfinite
    exact (narrow_exact_iff mode h).2 ⟨i, hlt, hvalue.eq (hat'.hasValue hlt)⟩

/-! ## Beside the overflow middle -/

theorem enclosed_side (hmiddle : RoundingMode.narrow.isMiddle r low high = false) :
    mode.enclosed side r closest low high = mode.enclosed .exact r closest low high := by
  cases mode with
  | nearest => unfold RoundingMode.enclosed; rw [hmiddle]; rfl
  | towardZero | upward | downward => rfl

/-- If the closest single is infinite, the side is not looked at. -/
theorem narrow_side_of_infinite {s : Bool} (h : r.HasValue R) (hc : Format.single.convert r = .infinity s) :
    mode.narrow side r = mode.narrow .exact r := by
  obtain ⟨hsame, hless⟩ := infinity_same_less h s
  rw [← hc] at hsame hless
  have hnot : ¬ (Format.single.convert r).same r := by rw [hsame]; exact Bool.false_ne_true
  have hinfinite : (Format.single.convert r).isInfinite = true := by rw [hc]; rfl
  cases s with
  | false =>
    have hnot' : ¬ (Format.single.convert r).less r := by rw [hless]; exact Bool.false_ne_true
    rw [narrow_of_not_less hnot hnot', narrow_of_not_less hnot hnot',
      enclosed_side (isMiddle_of_infinite (.inr hinfinite))]
  | true =>
    rw [narrow_of_less hnot hless, narrow_of_less hnot hless, enclosed_side (isMiddle_of_infinite (.inl hinfinite))]

/-- The nearest double is the middle between the largest finite single and the limit, and the exact value, which is to
be rounded to the nearest single, lies closer to zero. -/
def OverflowTie (mode : RoundingMode) (x : ℝ) : Prop :=
  mode = .nearest ∧ |Format.double.round .nearest x| = overflowMiddle ∧ |x| < overflowMiddle

/-- Between the largest finite single and the middle, the largest finite one is the nearest. -/
theorem round_below_overflowMiddle (hlo : Format.single.point (Format.single.infinityMagnitude - 1) < x)
    (hhi : x < overflowMiddle) :
    Format.single.round .nearest x = Format.single.point (Format.single.infinityMagnitude - 1) := by
  have hb : Format.single.Between (Format.single.infinityMagnitude - 1) x :=
    ⟨hlo, by rw [sub_add_cancel]; exact hhi.trans point_lt_overflowMiddle.2⟩
  rw [round_between .nearest hb]
  congr 1
  have hne := mt (neighbour_largest_eq_iff x).1 hhi.not_ge
  have := neighbour_eq_or (f := .single) .nearest (Format.single.infinityMagnitude - 1) x
  omega

/-- The middle lies between the largest finite single and the limit. -/
theorem between_overflowMiddle (hR : |R| = overflowMiddle) :
    R = overflowMiddle ∧ Format.single.Between (Format.single.infinityMagnitude - 1) R ∨
      R = -overflowMiddle ∧ Format.single.Between (-Format.single.infinityMagnitude) R := by
  obtain ⟨hlo, hhi⟩ := point_lt_overflowMiddle
  rcases eq_or_eq_neg_of_abs_eq hR with rfl | rfl
  · exact .inl ⟨rfl, hlo, by rwa [sub_add_cancel]⟩
  · refine .inr ⟨rfl, ?_, ?_⟩
    · rw [point_neg]
      exact neg_lt_neg hhi
    · rw [show -(Format.single.infinityMagnitude : ℤ) + 1 = -(Format.single.infinityMagnitude - 1) by ring, point_neg]
      exact neg_lt_neg hlo

/-- At the middle the closest single is infinite. -/
theorem convert_overflowMiddle (h : r.HasValue R) (hR : |R| = overflowMiddle) :
    Format.single.convert r = .infinity (decide (R < 0)) := by
  have hpos := overflowMiddle_pos
  obtain ⟨c, hround, hat⟩ := convert_at (f := .single) h
  rcases between_overflowMiddle hR with ⟨rfl, -⟩ | ⟨rfl, -⟩
  · have hle := (le_index_of_overflowMiddle_le le_rfl hround).2 (.inl rfl)
    have hclamp : Format.single.clamp c = Format.single.infinityMagnitude := by
      unfold clamp
      omega
    rw [hclamp] at hat
    rw [hat.eq_infinity (by simp) (by decide), decide_eq_false hpos.not_gt]
    rfl
  · have hle := (index_le_of_le_overflowMiddle le_rfl hround).2 (.inl rfl)
    have hclamp : Format.single.clamp c = -Format.single.infinityMagnitude := by
      unfold clamp
      omega
    rw [hclamp] at hat
    rw [hat.eq_infinity (by simp) (by decide), decide_eq_true (neg_neg_of_pos hpos)]
    rfl

/-- A directed mode rounds the exact value as it rounds the middle beside it. -/
theorem round_directed (hmode : mode ≠ .nearest) (h : Approximates r R side x) (hR : |R| = overflowMiddle) :
    Format.single.round mode x = Format.single.round mode R := by
  have hne : R ≠ 0 := abs_pos.1 (hR ▸ overflowMiddle_pos)
  have hrounds : ∀ i, Format.single.Between i R → Format.single.round mode x = Format.single.round mode R := by
    intro i hb
    rw [round_between mode hb, round_between mode (h.between hb)]
    cases mode with
    | nearest => exact absurd rfl hmode
    | upward | downward => rfl
    | towardZero => simp only [neighbour, h.neg_iff hne]
  rcases between_overflowMiddle hR with ⟨-, hb⟩ | ⟨-, hb⟩
  · exact hrounds _ hb
  · exact hrounds _ hb

/-- So it narrows the exact value correctly although the side is not looked at. -/
theorem narrow_at_of_directed (hmode : mode ≠ .nearest) (h : Approximates r R side x) (hR : |R| = overflowMiddle) :
    ∃ i, Format.single.round mode x = Format.single.point i ∧
      Format.single.At (mode.narrow side r).1 (Format.single.deliver mode i) := by
  rw [round_directed hmode h hR, narrow_side_of_infinite h.value (convert_overflowMiddle h.value hR)]
  exact narrow_at mode (.refl h.value h.isPoint) fun _ => le_rfl

theorem point_largest : Format.single.point (Format.single.infinityMagnitude - 1) = largestSingle := by
  rw [← size_largest, ← point_natCast]
  congr 1

/-- To the nearest single, a double whose closest single is infinite is rounded to it. -/
theorem narrow_nearest_of_infinite {s : Bool} (h : r.HasValue R) (hc : Format.single.convert r = .infinity s) :
    RoundingMode.nearest.narrow side r = (.infinity s, true) := by
  obtain ⟨hsame, hless⟩ := infinity_same_less h s
  rw [← hc] at hsame hless
  have hinfinite : (Format.single.convert r).isInfinite = true := by rw [hc]; rfl
  cases s with
  | false =>
    rw [narrow_of_not_less (by simp [hsame]) (by simp [hless]), RoundingMode.enclosed,
      isMiddle_of_infinite (.inr hinfinite), hc]
    rfl
  | true =>
    rw [narrow_of_less (by simp [hsame]) hless, RoundingMode.enclosed, isMiddle_of_infinite (.inl hinfinite), hc]
    rfl

/-- In the tie the infinity is returned, although the largest finite single is the nearest. -/
theorem narrow_of_overflowTie (h : Approximates r R side x) (hR : |R| = overflowMiddle) (hx : |x| < overflowMiddle) :
    RoundingMode.nearest.narrow side r = (.infinity (decide (x < 0)), true) ∧
      Format.single.round .nearest x = if x < 0 then -largestSingle else largestSingle := by
  have hne : R ≠ 0 := abs_pos.1 (hR ▸ overflowMiddle_pos)
  obtain ⟨hlo, hhi⟩ := abs_lt.1 hx
  refine ⟨?_, ?_⟩
  · rw [narrow_nearest_of_infinite h.value (convert_overflowMiddle h.value hR)]
    simp only [h.neg_iff hne]
  · rcases between_overflowMiddle hR with ⟨rfl, hb⟩ | ⟨rfl, hb⟩
    · have hnonneg : ¬ x < 0 := by rw [h.neg_iff hne]; exact overflowMiddle_pos.not_gt
      rw [if_neg hnonneg, round_below_overflowMiddle (h.between hb).1 hhi, point_largest]
    · have hneg : x < 0 := (h.neg_iff hne).2 (neg_neg_of_pos overflowMiddle_pos)
      have hlarge := (h.between hb).2
      rw [show -(Format.single.infinityMagnitude : ℤ) + 1 = -(Format.single.infinityMagnitude - 1) by ring,
        point_neg] at hlarge
      have hround := round_below_overflowMiddle (lt_neg_of_lt_neg hlarge) (neg_lt.1 hlo)
      rw [if_pos hneg, ← point_largest, ← hround, round_neg, RoundingMode.opposite, neg_neg]

/-- The infinity does not stand for a finite rounding. -/
theorem not_narrows_of_overflowTie (h : Approximates r R side x) (hR : |R| = overflowMiddle)
    (hx : |x| < overflowMiddle) (z : Bool) : ¬ Narrows .nearest x z (RoundingMode.nearest.narrow side r) := by
  intro hnarrows
  obtain ⟨hinfinity, hround⟩ := narrow_of_overflowTie h hR hx
  obtain ⟨i, hi, hat⟩ := hnarrows.delivered
  have hsize : Format.single.size i.natAbs = Format.single.size (Format.single.infinityMagnitude - 1) := by
    rw [← abs_point, ← hi, hround, size_largest]
    have hpos : (0 : ℝ) ≤ largestSingle := by unfold largestSingle; positivity
    split_ifs
    · rw [abs_neg, abs_of_nonneg hpos]
    · exact abs_of_nonneg hpos
  have hlt := one_lt_infinityMagnitude (f := .single)
  have hindex := size_strictMono.injective hsize
  rw [deliver_of_lt (by omega), hinfinity] at hat
  have := hat.isInfinite_iff.1 rfl
  omega

/-- **Narrowing rounds the exact value once**: for every double that is the nearest one to the exact value, it gives in
every mode the single that the exact value rounds to, and says whether anything was lost, except in the overflow tie.
There it gives the infinity where the largest finite single is the nearest. -/
theorem narrow_rounds_unless_overflowTie (mode : RoundingMode) (h : r.HasValue (Format.double.round .nearest x)) :
    (Narrows mode x r.isNegative (mode.narrow (.ofSign (x - Format.double.round .nearest x)) r) ↔
      ¬ OverflowTie mode x) ∧
    (OverflowTie mode x →
      mode.narrow (.ofSign (x - Format.double.round .nearest x)) r = (.infinity (decide (x < 0)), true) ∧
        Format.single.round mode x = if x < 0 then -largestSingle else largestSingle) := by
  have happrox := Approximates.of_round h rfl
  have htie : OverflowTie mode x → mode.narrow (.ofSign (x - Format.double.round .nearest x)) r =
        (.infinity (decide (x < 0)), true) ∧
      Format.single.round mode x = if x < 0 then -largestSingle else largestSingle := by
    rintro ⟨rfl, hR, hx⟩
    exact narrow_of_overflowTie happrox hR hx
  refine ⟨⟨fun hnarrows ho => ?_, fun hno => ?_⟩, htie⟩
  · obtain ⟨rfl, hR, hx⟩ := ho
    exact not_narrows_of_overflowTie happrox hR hx _ hnarrows
  · refine ⟨?_, narrow_zero mode _ h, narrow_inexact_iff mode happrox⟩
    by_cases hbeside : |Format.double.round .nearest x| = overflowMiddle ∧ |x| < overflowMiddle
    · exact narrow_at_of_directed (fun hmode => hno ⟨hmode, hbeside⟩) happrox hbeside.1
    · refine narrow_at mode happrox fun hmid => ?_
      rw [hmid]
      exact not_lt.1 fun hlt => hbeside ⟨hmid, hlt⟩

/-- The nearest double to a rational number of moderate size, computed. -/
theorem hasValue_of_nearest {q : ℚ} {k : ℤ} (hq : |(q : ℝ)| ≤ 2 ^ k) (hk : k ≤ 1022)
    (hr : Format.double.nearest false q = r) : r.HasValue (Format.double.round .nearest (q : ℝ)) :=
  hr ▸ nearest_hasValue false (abs_round_lt hq hk)

/-- A little more than the middle between one and the next single. The middle is the nearest double. -/
def aboveMiddle : ℚ := 1 + 1 / 2 ^ 24 + 1 / 2 ^ 60

theorem narrow_rounds_unless_overflowTie_one :
    (Format.double.decode 0x3FF0000010000000).HasValue (Format.double.round .nearest (aboveMiddle : ℝ)) ∧
    RoundingMode.nearest.narrow .above (Format.double.decode 0x3FF0000010000000) =
      (Format.single.decode 0x3F800001, true) ∧
    Narrows .nearest aboveMiddle false (Format.single.decode 0x3F800001, true) := by
  have hbound : |(aboveMiddle : ℝ)| ≤ 2 ^ (1 : ℤ) := by
    rw [abs_le]
    unfold aboveMiddle
    norm_num
  have hvalue : (Format.double.decode 0x3FF0000010000000).HasValue (Format.double.round .nearest (aboveMiddle : ℝ)) :=
    hasValue_of_nearest hbound (by norm_num) (by decide +kernel)
  have hround : Format.double.round .nearest (aboveMiddle : ℝ) = 1 + 1 / 2 ^ 24 := by
    have hdatum : Format.double.decode 0x3FF0000010000000 = .finite false (2 ^ 52 + 2 ^ 28) (-52) := by decide
    rw [hvalue.eq (hdatum ▸ Datum.hasValue_finite _ _ _)]
    norm_num
  have hside : Side.ofSign ((aboveMiddle : ℝ) - Format.double.round .nearest (aboveMiddle : ℝ)) = .above := by
    rw [Side.ofSign_eq_above, hround]
    unfold aboveMiddle
    norm_num
  have hnarrow : RoundingMode.nearest.narrow .above (Format.double.decode 0x3FF0000010000000) =
      (Format.single.decode 0x3F800001, true) := by decide +kernel
  refine ⟨hvalue, hnarrow, ?_⟩
  have hnarrows := (narrow_rounds_unless_overflowTie .nearest hvalue).1.2
    fun ho => not_middle_of_le hbound (by norm_num) ho.2.1
  rw [hside, hnarrow] at hnarrows
  exact hnarrows

/-- A little less than the middle between the largest finite single and the limit. The middle is the nearest double. -/
def belowOverflowMiddle : ℚ := 2 ^ 128 - 2 ^ 103 - 1

/-- The largest finite single is the nearest, and infinity is returned. -/
theorem overflowTie_missed :
    (Format.double.decode 0x47EFFFFFF0000000).HasValue (Format.double.round .nearest (belowOverflowMiddle : ℝ)) ∧
    Side.ofSign ((belowOverflowMiddle : ℝ) - Format.double.round .nearest (belowOverflowMiddle : ℝ)) = .below ∧
    RoundingMode.nearest.narrow .below (Format.double.decode 0x47EFFFFFF0000000) =
      (Format.single.decode 0x7F800000, true) ∧
    Format.single.round .nearest (belowOverflowMiddle : ℝ) = largestSingle ∧
    ¬ Narrows .nearest belowOverflowMiddle false
      (RoundingMode.nearest.narrow .below (Format.double.decode 0x47EFFFFFF0000000)) := by
  have hbound : |(belowOverflowMiddle : ℝ)| ≤ 2 ^ (128 : ℤ) := by
    rw [abs_le]
    unfold belowOverflowMiddle
    norm_num
  have hvalue : (Format.double.decode 0x47EFFFFFF0000000).HasValue
      (Format.double.round .nearest (belowOverflowMiddle : ℝ)) :=
    hasValue_of_nearest hbound (by norm_num) (by decide +kernel)
  have hround : Format.double.round .nearest (belowOverflowMiddle : ℝ) = overflowMiddle := by
    have hdatum : Format.double.decode 0x47EFFFFFF0000000 = .finite false (2 ^ 53 - 2 ^ 28) 75 := by decide
    rw [hvalue.eq (hdatum ▸ Datum.hasValue_finite _ _ _), overflowMiddle_eq]
    norm_num
  have hlt : (belowOverflowMiddle : ℝ) < overflowMiddle := by
    rw [overflowMiddle_eq]
    unfold belowOverflowMiddle
    norm_num
  have hpos : (0 : ℝ) < belowOverflowMiddle := by
    unfold belowOverflowMiddle
    norm_num
  have hside : Side.ofSign ((belowOverflowMiddle : ℝ) - Format.double.round .nearest (belowOverflowMiddle : ℝ)) =
      .below := by
    rw [Side.ofSign_eq_below, hround, sub_neg]
    exact hlt
  have happrox := Approximates.of_round hvalue rfl
  rw [hside] at happrox
  have hmiddle : |Format.double.round .nearest (belowOverflowMiddle : ℝ)| = overflowMiddle := by
    rw [hround, abs_of_pos overflowMiddle_pos]
  have hbelow : |(belowOverflowMiddle : ℝ)| < overflowMiddle := by rwa [abs_of_pos hpos]
  obtain ⟨-, hnearest⟩ := narrow_of_overflowTie happrox hmiddle hbelow
  rw [if_neg hpos.not_gt] at hnearest
  exact ⟨hvalue, hside, by decide +kernel, hnearest, not_narrows_of_overflowTie happrox hmiddle hbelow _⟩

end Vr4300.FloatingPoint
