import Vr4300.Proofs.NearestRounding

/-!
# Narrowing a double without rounding twice

A single-precision result is computed as the nearest double and the side on which the exact value lies. The
singles, the middles between neighbouring singles and the limit of their range are all doubles themselves, so
the exact value lies between the same two of them as the double does, or beside the one that the double is.
That is all that rounding depends on.

There is one exception. Where the double is the middle between the largest finite single and the limit, the
side is not looked at, so the exact value must not lie closer to zero than the double.

## Contents

* `Approximates`: a double and a side as what is left of an exact value.
* `Format.deliver`: what becomes of a rounding beyond the finite range.
* `narrow_at`: narrowing rounds the exact value.
-/

namespace Vr4300.FloatingPoint

open Format

/-! ## Doubles among the singles -/

theorem unit_single : Format.single.unit = -149 := by decide

theorem unit_double : Format.double.unit = -1074 := by decide

theorem isPoint_double_of_single {v : ℝ} (h : Format.single.IsPoint v) : Format.double.IsPoint v := by
  obtain ⟨e, he, hgrid, hlt, -⟩ := h.exists_onGrid
  rw [unit_single] at he
  refine isPoint_of_onGrid (e := e) (by rw [unit_double]; omega) hgrid (hlt.le.trans ?_)
  exact zpow_le_zpow_right₀ one_le_two (by simp [Format.single, Format.double, fractionBits])

/-- The middle between two neighbouring singles is a double. -/
theorem isPoint_double_middle (i : ℤ) :
    Format.double.IsPoint (Format.single.middle i) := by
  unfold middle
  obtain ⟨e, he, h1, h2, h3, h4⟩ := exists_onGrid_succ (f := .single) i
  rw [unit_single] at he
  refine isPoint_of_onGrid (e := e - 1) (by rw [unit_double]; omega) ?_ ?_
  · obtain ⟨n, hn⟩ := h1.add h2
    refine ⟨n, ?_⟩
    rw [hn, zpow_sub_one₀ two_ne_zero]
    ring
  · calc |(Format.single.point i + Format.single.point (i + 1)) / 2|
        ≤ (|Format.single.point i| + |Format.single.point (i + 1)|) / 2 := by
          rw [abs_div, abs_two]
          gcongr
          exact abs_add_le _ _
      _ ≤ 2 ^ (e + Format.single.fractionBits + 1) := by linarith
      _ ≤ 2 ^ (e - 1 + Format.double.fractionBits + 1) :=
          zpow_le_zpow_right₀ one_le_two (by simp [Format.single, Format.double, fractionBits]; omega)

/-! ## Approximation by a double -/

/-- The double `r`, whose value is `R`, and the side are what is left of the exact value `x`: no other double
lies between the two, and the side is the one of `R` on which `x` lies. -/
structure Approximates (r : Datum) (R : ℝ) (side : Side) (x : ℝ) : Prop where
  value : r.HasValue R
  isPoint : Format.double.IsPoint R
  lt_of_lt : ∀ {d}, Format.double.IsPoint d → d < R → d < x
  gt_of_gt : ∀ {d}, Format.double.IsPoint d → R < d → x < d
  side_eq : side = .ofSign (x - R)

namespace Approximates

variable {r : Datum} {R x d : ℝ} {side : Side}

/-- The rounding of a number to the nearest double approximates it. -/
theorem of_round (h : r.HasValue (Format.double.round .nearest x))
    (hside : side = .ofSign (x - Format.double.round .nearest x)) :
    Approximates r (Format.double.round .nearest x) side x where
  value := h
  isPoint := isPoint_round _ _
  lt_of_lt := by
    rintro d ⟨i, rfl⟩ hlt
    by_contra hle
    exact hlt.not_ge (round_mono_point _ (not_lt.1 hle))
  gt_of_gt := by
    rintro d ⟨i, rfl⟩ hlt
    by_contra hle
    exact hlt.not_ge (point_mono_round _ (not_lt.1 hle))
  side_eq := hside

variable (h : Approximates r R side x)
include h

theorem above_iff : side = .above ↔ R < x := by
  rw [h.side_eq, Side.ofSign_eq_above, sub_pos]

theorem below_iff : side = .below ↔ x < R := by
  rw [h.side_eq, Side.ofSign_eq_below, sub_neg]

theorem exact_iff : side = .exact ↔ x = R := by
  rw [h.side_eq, Side.ofSign_eq_exact, sub_eq_zero]

/-- Every other double compares to the exact value as it does to the approximation. -/
theorem lt_iff (hd : Format.double.IsPoint d) (hne : d ≠ R) : x < d ↔ R < d := by
  constructor
  · intro hlt
    by_contra hle
    exact hlt.not_gt (h.lt_of_lt hd (lt_of_le_of_ne (not_lt.1 hle) hne))
  · exact h.gt_of_gt hd

theorem isPositive_iff : r.isPositive ↔ 0 < R := h.value.isPositive_iff

theorem isBelowZero_iff : r.isBelowZero ↔ R < 0 := h.value.isBelowZero_iff

/-- A number beside a nonzero approximation has its sign. -/
theorem neg_iff (hR : R ≠ 0) : x < 0 ↔ R < 0 := h.lt_iff isPoint_zero hR.symm

/-- If the approximation lies between neighbouring singles, so does the number. -/
theorem between {i : ℤ} (hR : Format.single.Between i R) : Format.single.Between i x :=
  ⟨h.lt_of_lt (isPoint_double_of_single ⟨i, rfl⟩) hR.1, h.gt_of_gt (isPoint_double_of_single ⟨_, rfl⟩) hR.2⟩

/-- A number above an approximation that is a single lies between that single and the next. -/
theorem between_above {i : ℤ} (hR : R = Format.single.point i) (hx : R < x) : Format.single.Between i x :=
  ⟨hR ▸ hx, h.gt_of_gt (isPoint_double_of_single ⟨_, rfl⟩)
    (by rw [hR]; exact point_strictMono (by omega))⟩

/-- A number below an approximation that is a single lies between that single and the previous one. -/
theorem between_below {i : ℤ} (hR : R = Format.single.point i) (hx : x < R) :
    Format.single.Between (i - 1) x :=
  ⟨h.lt_of_lt (isPoint_double_of_single ⟨_, rfl⟩) (by rw [hR]; exact point_strictMono (by omega)),
    by rwa [sub_add_cancel, ← hR]⟩

end Approximates

/-! ## Beyond the finite range -/

namespace Format

variable {f : Format}

/-- The number of the datum that stands for a rounding. Beyond the finite range a mode that rounds such a
number toward zero stops at the largest finite one, and the others go to infinity. -/
def deliver (f : Format) (mode : RoundingMode) (i : ℤ) : ℤ :=
  if f.infinityMagnitude ≤ i then
    if mode = .nearest ∨ mode.isOutward false then f.infinityMagnitude else f.infinityMagnitude - 1
  else if i ≤ -f.infinityMagnitude then
    if mode = .nearest ∨ mode.isOutward true then -f.infinityMagnitude else -(f.infinityMagnitude - 1)
  else i

theorem deliver_of_lt {mode : RoundingMode} {i : ℤ} (h : i.natAbs < f.infinityMagnitude) :
    f.deliver mode i = i := by
  rw [deliver, if_neg (by omega), if_neg (by omega)]

theorem deliver_upward {i : ℤ} (hlo : -(f.infinityMagnitude : ℤ) < i) (hhi : i ≤ f.infinityMagnitude) :
    f.deliver .upward i = i := by
  unfold deliver RoundingMode.isOutward
  split_ifs <;> simp_all <;> omega

theorem deliver_downward {i : ℤ} (hlo : -(f.infinityMagnitude : ℤ) ≤ i) (hhi : i < f.infinityMagnitude) :
    f.deliver .downward i = i := by
  unfold deliver RoundingMode.isOutward
  split_ifs <;> simp_all <;> omega

theorem deliver_infinity {mode : RoundingMode} (h : mode = .nearest ∨ mode.isOutward false) {i : ℤ}
    (hi : f.infinityMagnitude ≤ i) : f.deliver mode i = f.infinityMagnitude := by
  rw [deliver, if_pos hi, if_pos h]

theorem deliver_largest [f.Proper] {mode : RoundingMode} (h : ¬(mode = .nearest ∨ mode.isOutward false)) {i : ℤ}
    (hi : f.infinityMagnitude - 1 ≤ i) : f.deliver mode i = f.infinityMagnitude - 1 := by
  have := one_lt_infinityMagnitude (f := f)
  rw [deliver, if_neg h]
  split_ifs <;> omega

theorem deliver_neg_infinity [f.Proper] {mode : RoundingMode} (h : mode = .nearest ∨ mode.isOutward true)
    {i : ℤ} (hi : i ≤ -f.infinityMagnitude) : f.deliver mode i = -f.infinityMagnitude := by
  have := one_lt_infinityMagnitude (f := f)
  rw [deliver, if_neg (by omega), if_pos hi, if_pos h]

theorem deliver_neg_largest [f.Proper] {mode : RoundingMode} (h : ¬(mode = .nearest ∨ mode.isOutward true))
    {i : ℤ} (hi : i ≤ -(f.infinityMagnitude - 1)) : f.deliver mode i = -(f.infinityMagnitude - 1) := by
  have := one_lt_infinityMagnitude (f := f)
  rw [deliver, if_neg h]
  split_ifs <;> omega

end Format

/-! ## The double is a single -/

variable {mode : RoundingMode} {r closest low high : Datum} {R x : ℝ} {side : Side} {i c : ℤ}

theorem convert_at {f : Format} [f.Proper] (h : r.HasValue R) :
    ∃ c, f.round .nearest R = f.point c ∧ f.At (f.convert r) (f.clamp c) := by
  obtain ⟨y, hy, rfl⟩ := h
  rw [convert, hy]
  exact nearest_at r.isNegative y

/-- The exact value lies above the single that the double is. -/
theorem representable_above (h : Approximates r R side x) (hc : c.natAbs < Format.single.infinityMagnitude)
    (hR : R = Format.single.point c) (hat : Format.single.At closest c) (hx : R < x) :
    ∃ i, Format.single.round mode x = Format.single.point i ∧
      Format.single.At (RoundingMode.narrow.representable mode .above closest)
        (Format.single.deliver mode i) := by
  have hb := h.between_above hR hx
  refine ⟨_, round_between mode hb, ?_⟩
  cases mode with
  | nearest =>
    have hmid : x < Format.single.middle c :=
      h.gt_of_gt (isPoint_double_middle c) (hR ▸ (between_middle c).1)
    rw [neighbour, if_pos (.inl hmid), deliver_of_lt hc]
    exact hat
  | upward =>
    rw [neighbour, deliver_upward (by omega) (by omega)]
    exact hat.next (by omega)
  | downward =>
    rw [neighbour, deliver_of_lt hc]
    exact hat
  | towardZero =>
    have hsign : x < 0 ↔ c < 0 := by
      rw [← point_strictMono.lt_iff_lt (f := Format.single.point), point_zero, ← hR]
      rcases eq_or_ne R 0 with h0 | h0
      · constructor <;> intro <;> linarith
      · exact h.neg_iff h0
    unfold neighbour RoundingMode.narrow.representable RoundingMode.adjust.stepTowardZero
    simp only [hsign, hat.isPositive_iff, hat.isBelowZero_iff]
    rcases lt_trichotomy c 0 with hneg | rfl | hpos
    · simp only [hneg, hneg.not_gt, if_true, if_false]
      rw [deliver_of_lt (by omega)]
      exact hat.next (by omega)
    · simpa [deliver_of_lt hc] using hat
    · simpa [hpos, hpos.not_gt, deliver_of_lt hc] using hat

/-- The exact value lies below the single that the double is. -/
theorem representable_below (h : Approximates r R side x) (hc : c.natAbs < Format.single.infinityMagnitude)
    (hR : R = Format.single.point c) (hat : Format.single.At closest c) (hx : x < R) :
    ∃ i, Format.single.round mode x = Format.single.point i ∧
      Format.single.At (RoundingMode.narrow.representable mode .below closest)
        (Format.single.deliver mode i) := by
  have hb := h.between_below hR hx
  refine ⟨_, round_between mode hb, ?_⟩
  cases mode with
  | nearest =>
    have hmid : Format.single.middle (c - 1) < x := by
      have hlt := (between_middle (f := .single) (c - 1)).2
      rw [sub_add_cancel, ← hR] at hlt
      exact h.lt_of_lt (isPoint_double_middle (c - 1)) hlt
    rw [neighbour, if_neg (by rintro (h | ⟨h, -⟩) <;> linarith), sub_add_cancel, deliver_of_lt hc]
    exact hat
  | upward =>
    rw [neighbour, sub_add_cancel, deliver_of_lt hc]
    exact hat
  | downward =>
    rw [neighbour, deliver_downward (by omega) (by omega)]
    exact hat.previous (by omega)
  | towardZero =>
    have hsign : x < 0 ↔ c ≤ 0 := by
      rw [← point_strictMono.le_iff_le (f := Format.single.point), point_zero, ← hR]
      rcases eq_or_ne R 0 with h0 | h0
      · constructor <;> intro <;> linarith
      · rw [h.neg_iff h0]
        exact ⟨le_of_lt, fun hle => lt_of_le_of_ne hle h0⟩
    unfold neighbour RoundingMode.narrow.representable RoundingMode.adjust.stepTowardZero
    simp only [hsign, hat.isPositive_iff, hat.isBelowZero_iff]
    rcases lt_trichotomy c 0 with hneg | rfl | hpos
    · simpa [hneg, hneg.le, hneg.not_gt, deliver_of_lt hc] using hat
    · simpa [deliver_of_lt hc] using hat
    · simp only [hpos, hpos.not_ge, if_true, if_false]
      rw [deliver_of_lt (by omega)]
      exact hat.previous (by omega)

/-! ## The double lies between two singles -/

/-- The single that a mode takes when the double lies between the singles `low` and `high`. -/
def RoundingMode.enclosed (mode : RoundingMode) (side : Side) (r closest low high : Datum) : Datum :=
  match mode with
  | nearest =>
    if narrow.isMiddle r low high then narrow.tied side closest low high else closest
  | towardZero => if r.isPositive then low else high
  | upward => high
  | downward => low

theorem narrow_of_same (h : (Format.single.convert r).same r) : mode.narrow side r =
    if side = .exact then (Format.single.convert r, false)
    else (RoundingMode.narrow.representable mode side (Format.single.convert r), true) := by
  rw [RoundingMode.narrow]
  exact if_pos h

theorem narrow_of_less (h : ¬(Format.single.convert r).same r) (hless : (Format.single.convert r).less r) :
    mode.narrow side r = (mode.enclosed side r (Format.single.convert r) (Format.single.convert r)
      (Format.single.next (Format.single.convert r)), true) := by
  rw [RoundingMode.narrow]
  simp only [h, hless, if_true]
  cases mode <;> rfl

theorem narrow_of_not_less (h : ¬(Format.single.convert r).same r)
    (hless : ¬(Format.single.convert r).less r) :
    mode.narrow side r = (mode.enclosed side r (Format.single.convert r)
      (Format.single.previous (Format.single.convert r)) (Format.single.convert r), true) := by
  rw [RoundingMode.narrow]
  simp only [h, hless]
  cases mode <;> rfl

theorem isMiddle_iff (hlow : low.HasValue (Format.single.point i))
    (hhigh : high.HasValue (Format.single.point (i + 1))) (hr : r.HasValue R) :
    RoundingMode.narrow.isMiddle r low high ↔ R = Format.single.middle i := by
  have hiff : R = Format.single.middle i ↔ Format.single.point i + Format.single.point (i + 1) = 2 * R := by
    rw [middle, eq_div_iff two_ne_zero, mul_comm, eq_comm]
  rw [hiff]
  obtain ⟨l, hl, hl'⟩ := hlow
  obtain ⟨u, hu, hu'⟩ := hhigh
  obtain ⟨y, hy, rfl⟩ := hr
  rw [← hl', ← hu']
  unfold RoundingMode.narrow.isMiddle
  simp only [hl, hu, hy, beq_iff_eq]
  exact_mod_cast Iff.rfl

theorem isMiddle_of_infinite (h : low.isInfinite ∨ high.isInfinite) :
    RoundingMode.narrow.isMiddle r low high = false := by
  unfold RoundingMode.narrow.isMiddle
  rcases h with h | h
  · cases low with
    | infinity s => rfl
    | _ => cases h
  · cases high with
    | infinity s => cases low <;> rfl
    | _ => cases h

/-- A tie is broken toward the even neighbour, so neither neighbour is infinite if that one is not. -/
theorem finite_of_middle (hmid : R = Format.single.middle i)
    (hc : (Format.single.neighbour .nearest i R).natAbs < Format.single.infinityMagnitude)
    (hi : i.natAbs ≤ Format.single.infinityMagnitude)
    (hi' : (i + 1).natAbs ≤ Format.single.infinityMagnitude) :
    i.natAbs < Format.single.infinityMagnitude ∧ (i + 1).natAbs < Format.single.infinityMagnitude := by
  have hinf : Format.single.infinityMagnitude % 2 = 0 := by decide
  unfold neighbour at hc
  simp only [hmid, lt_irrefl, true_and, false_or, Int.even_iff] at hc
  split_ifs at hc with heven <;> omega

/-- Off the middle a number and its approximation have the same closest single. -/
theorem Approximates.neighbour_eq (h : Approximates r R side x)
    (hmid : R ≠ Format.single.middle i) :
    Format.single.neighbour .nearest i x = Format.single.neighbour .nearest i R := by
  have hlt := h.lt_iff (isPoint_double_middle i) hmid.symm
  have hne : x ≠ Format.single.middle i := by
    rintro rfl
    rcases lt_or_gt_of_ne hmid with hm | hm
    · exact lt_irrefl _ (h.gt_of_gt (isPoint_double_middle i) hm)
    · exact lt_irrefl _ (h.lt_of_lt (isPoint_double_middle i) hm)
  unfold neighbour
  simp only [hlt, hne, hmid]

/-- The double lies strictly between two neighbouring singles of which the closest one is finite. -/
theorem enclosed_at (h : Approximates r R side x) (hb : Format.single.Between i R)
    (hc : (Format.single.neighbour .nearest i R).natAbs < Format.single.infinityMagnitude)
    (hclosest : Format.single.At closest (Format.single.neighbour .nearest i R))
    (hlow : Format.single.At low i) (hhigh : Format.single.At high (i + 1)) :
    ∃ j, Format.single.round mode x = Format.single.point j ∧
      Format.single.At (mode.enclosed side r closest low high) (Format.single.deliver mode j) := by
  have hlow' := hlow.1
  have hhigh' := hhigh.1
  refine ⟨_, round_between mode (h.between hb), ?_⟩
  cases mode with
  | nearest =>
    rcases eq_or_ne R (Format.single.middle i) with hmid | hmid
    · have hfinite := finite_of_middle hmid hc hlow' hhigh'
      have hmiddle := (isMiddle_iff (hlow.hasValue hfinite.1) (hhigh.hasValue hfinite.2) h.value).2 hmid
      unfold RoundingMode.enclosed
      simp only [hmiddle, if_true]
      cases hside : side with
      | above =>
        have hx := h.above_iff.1 hside
        rw [neighbour, ← hmid, if_neg (by rintro (h | ⟨h, -⟩) <;> linarith), deliver_of_lt hfinite.2]
        exact hhigh
      | below =>
        have hx := h.below_iff.1 hside
        rw [neighbour, ← hmid, if_pos (.inl hx), deliver_of_lt hfinite.1]
        exact hlow
      | exact =>
        rw [h.exact_iff.1 hside, deliver_of_lt hc]
        exact hclosest
    · have hmiddle : RoundingMode.narrow.isMiddle r low high = false := by
        rcases hlow'.lt_or_eq with hlo | hlo
        · rcases hhigh'.lt_or_eq with hhi | hhi
          · rw [← Bool.not_eq_true, isMiddle_iff (hlow.hasValue hlo) (hhigh.hasValue hhi) h.value]
            exact hmid
          · exact isMiddle_of_infinite (.inr (hhigh.isInfinite_iff.2 hhi))
        · exact isMiddle_of_infinite (.inl (hlow.isInfinite_iff.2 hlo))
      unfold RoundingMode.enclosed
      rw [h.neighbour_eq hmid, deliver_of_lt hc]
      simpa [hmiddle] using hclosest
  | upward =>
    rw [neighbour, deliver_upward (by omega) (by omega)]
    exact hhigh
  | downward =>
    rw [neighbour, deliver_downward (by omega) (by omega)]
    exact hlow
  | towardZero =>
    have hzero : R ≠ 0 := by
      rintro rfl
      rw [← point_zero (f := .single)] at hb
      exact hb.not_point
    unfold neighbour RoundingMode.enclosed
    simp only [h.isPositive_iff, h.neg_iff hzero]
    rcases lt_or_gt_of_ne hzero with hneg | hpos
    · have hi : i < 0 := by
        rw [← point_strictMono.lt_iff_lt (f := Format.single.point), point_zero]
        exact hb.1.trans hneg
      rw [if_pos hneg, if_neg hneg.not_gt, deliver_of_lt (by omega)]
      exact hhigh
    · have hi : 0 < i + 1 := by
        rw [← point_strictMono.lt_iff_lt (f := Format.single.point), point_zero]
        exact hpos.trans hb.2
      rw [if_neg hpos.not_gt, if_pos hpos, deliver_of_lt (by omega)]
      exact hlow

/-! ## The closest single is infinite -/

/-- The middle between the largest finite single and the limit of the range. -/
noncomputable def overflowMiddle : ℝ :=
  Format.single.middle (Format.single.infinityMagnitude - 1)

theorem isPoint_overflowMiddle : Format.double.IsPoint overflowMiddle :=
  isPoint_double_middle _

theorem point_lt_overflowMiddle :
    Format.single.point (Format.single.infinityMagnitude - 1) < overflowMiddle ∧
      overflowMiddle < Format.single.point Format.single.infinityMagnitude := by
  have := between_middle (f := .single) (Format.single.infinityMagnitude - 1)
  rwa [Between, sub_add_cancel] at this

theorem overflowMiddle_pos : 0 < overflowMiddle := by
  refine lt_trans ?_ point_lt_overflowMiddle.1
  rw [← point_zero (f := .single)]
  exact point_strictMono (by decide)

/-- Above the largest finite single the overflow middle decides where rounding to nearest goes. -/
theorem neighbour_largest_eq_iff (x : ℝ) :
    Format.single.neighbour .nearest (Format.single.infinityMagnitude - 1) x =
      (Format.single.infinityMagnitude : ℤ) ↔ overflowMiddle ≤ x := by
  have hodd : ¬Even ((Format.single.infinityMagnitude : ℤ) - 1) := by decide
  have hiff : x < Format.single.middle (Format.single.infinityMagnitude - 1) ↔ ¬overflowMiddle ≤ x := not_le.symm
  unfold neighbour
  simp only [sub_add_cancel, hiff, hodd, and_false, or_false]
  split_ifs with h
  · simp [h]
  · simpa using h

/-- What a number that is not below the overflow middle rounds to. -/
theorem le_index_of_overflowMiddle_le (hx : overflowMiddle ≤ x)
    (hi : Format.single.round mode x = Format.single.point i) :
    Format.single.infinityMagnitude - 1 ≤ i ∧
      (mode = .nearest ∨ mode.isOutward false → Format.single.infinityMagnitude ≤ i) := by
  rcases le_or_gt (Format.single.point Format.single.infinityMagnitude) x with hle | hlt
  · have := point_mono_round mode hle
    rw [hi, point_strictMono.le_iff_le] at this
    exact ⟨by omega, fun _ => this⟩
  · have hb : Format.single.Between (Format.single.infinityMagnitude - 1) x :=
      ⟨point_lt_overflowMiddle.1.trans_le hx, by rwa [sub_add_cancel]⟩
    rw [round_between mode hb, point_strictMono.injective.eq_iff] at hi
    subst hi
    constructor
    · rcases neighbour_eq_or (f := .single) mode (Format.single.infinityMagnitude - 1) x with h | h <;>
        omega
    · rintro (rfl | h)
      · exact ((neighbour_largest_eq_iff x).2 hx).ge
      · cases mode <;> simp [RoundingMode.isOutward] at h
        simp [neighbour]

/-- A number is rounded to the limit or beyond only if it is not below the overflow middle. -/
theorem overflowMiddle_le_of_le_index (hi : Format.single.round .nearest x = Format.single.point i)
    (hle : Format.single.infinityMagnitude ≤ i) : overflowMiddle ≤ x := by
  rcases le_or_gt (Format.single.point Format.single.infinityMagnitude) x with hx | hx
  · exact point_lt_overflowMiddle.2.le.trans hx
  rcases le_or_gt x (Format.single.point (Format.single.infinityMagnitude - 1)) with hx' | hx'
  · have := round_mono_point .nearest hx'
    rw [hi, point_strictMono.le_iff_le] at this
    omega
  · have hb : Format.single.Between (Format.single.infinityMagnitude - 1) x :=
      ⟨hx', by rwa [sub_add_cancel]⟩
    rw [round_between .nearest hb, point_strictMono.injective.eq_iff] at hi
    refine (neighbour_largest_eq_iff x).1 ?_
    rcases neighbour_eq_or (f := .single) .nearest (Format.single.infinityMagnitude - 1) x with h | h <;> omega

theorem RoundingMode.opposite_opposite (mode : RoundingMode) : mode.opposite.opposite = mode := by
  cases mode <;> rfl

theorem RoundingMode.isOutward_opposite (mode : RoundingMode) (negative : Bool) :
    mode.opposite.isOutward negative = mode.isOutward !negative := by
  cases mode <;> cases negative <;> rfl

theorem RoundingMode.opposite_eq_nearest (mode : RoundingMode) : mode.opposite = nearest ↔ mode = nearest := by
  cases mode <;> simp [opposite]

theorem index_le_of_le_overflowMiddle (hx : x ≤ -overflowMiddle)
    (hi : Format.single.round mode x = Format.single.point i) :
    i ≤ -(Format.single.infinityMagnitude - 1) ∧
      (mode = .nearest ∨ mode.isOutward true → i ≤ -Format.single.infinityMagnitude) := by
  have hi' : Format.single.round mode.opposite (-x) = Format.single.point (-i) := by
    rw [round_neg, RoundingMode.opposite_opposite, hi, point_neg]
  have := le_index_of_overflowMiddle_le (by linarith) hi'
  rw [RoundingMode.opposite_eq_nearest, RoundingMode.isOutward_opposite] at this
  exact ⟨by omega, fun h => by have := this.2 h; omega⟩

theorem le_overflowMiddle_of_index_le (hi : Format.single.round .nearest x = Format.single.point i)
    (hle : i ≤ -Format.single.infinityMagnitude) : x ≤ -overflowMiddle := by
  have hi' : Format.single.round .nearest (-x) = Format.single.point (-i) := by
    rw [round_neg, RoundingMode.opposite, hi, point_neg]
  linarith [overflowMiddle_le_of_le_index hi' (by omega)]

/-- The double lies so high that the closest single is infinity. -/
theorem beyond_at (h : Approximates r R side x) (hmid : |R| = overflowMiddle → |R| ≤ |x|)
    (hR : overflowMiddle ≤ R) (hclosest : Format.single.At closest Format.single.infinityMagnitude)
    (hi : Format.single.round mode x = Format.single.point i) :
    Format.single.At (mode.enclosed side r closest (Format.single.previous closest) closest)
      (Format.single.deliver mode i) := by
  have hpos := overflowMiddle_pos.trans_le hR
  have hx : overflowMiddle ≤ x := by
    rcases hR.lt_or_eq with hlt | heq
    · exact (h.lt_of_lt isPoint_overflowMiddle hlt).le
    · rwa [abs_of_pos hpos, abs_of_pos (h.lt_of_lt isPoint_zero hpos), ← heq, imp_iff_right rfl] at hmid
  obtain ⟨hlargest, hinfinity⟩ := le_index_of_overflowMiddle_le hx hi
  have hprevious := hclosest.previous (by decide)
  have hinfinite := hclosest.isInfinite_iff.2 (by simp)
  cases mode with
  | nearest =>
    rw [deliver_infinity (.inl rfl) (hinfinity (.inl rfl)), RoundingMode.enclosed,
      isMiddle_of_infinite (.inr hinfinite)]
    exact hclosest
  | upward =>
    rw [deliver_infinity (.inr rfl) (hinfinity (.inr rfl))]
    exact hclosest
  | downward =>
    rw [deliver_largest (by decide) hlargest]
    exact hprevious
  | towardZero =>
    rw [deliver_largest (by decide) hlargest, RoundingMode.enclosed, if_pos (h.isPositive_iff.2 hpos)]
    exact hprevious

/-- The double lies so low that the closest single is negative infinity. -/
theorem beyond_neg_at (h : Approximates r R side x) (hmid : |R| = overflowMiddle → |R| ≤ |x|)
    (hR : R ≤ -overflowMiddle) (hclosest : Format.single.At closest (-Format.single.infinityMagnitude))
    (hi : Format.single.round mode x = Format.single.point i) :
    Format.single.At (mode.enclosed side r closest closest (Format.single.next closest))
      (Format.single.deliver mode i) := by
  have hneg : R < 0 := by linarith [overflowMiddle_pos]
  have hx : x ≤ -overflowMiddle := by
    rcases hR.lt_or_eq with hlt | heq
    · exact (h.gt_of_gt isPoint_overflowMiddle.neg hlt).le
    · rw [abs_of_neg hneg, abs_of_neg (h.gt_of_gt isPoint_zero hneg), heq, neg_neg, imp_iff_right rfl] at hmid
      linarith
  obtain ⟨hlargest, hinfinity⟩ := index_le_of_le_overflowMiddle hx hi
  have hnext := hclosest.next (by decide)
  rw [show -(Format.single.infinityMagnitude : ℤ) + 1 = -(Format.single.infinityMagnitude - 1) by ring] at hnext
  have hinfinite := hclosest.isInfinite_iff.2 (by simp)
  cases mode with
  | nearest =>
    rw [deliver_neg_infinity (.inl rfl) (hinfinity (.inl rfl)), RoundingMode.enclosed,
      isMiddle_of_infinite (.inl hinfinite)]
    exact hclosest
  | upward =>
    rw [deliver_neg_largest (by decide) hlargest]
    exact hnext
  | downward =>
    rw [deliver_neg_infinity (.inr rfl) (hinfinity (.inr rfl))]
    exact hclosest
  | towardZero =>
    rw [deliver_neg_largest (by decide) hlargest, RoundingMode.enclosed,
      if_neg (mt h.isPositive_iff.1 hneg.not_gt)]
    exact hnext

/-! ## Narrowing -/

theorem infinity_same_less (hr : r.HasValue R) (s : Bool) :
    (Datum.infinity s).same r = false ∧ (Datum.infinity s).less r = s := by
  obtain ⟨t, m, e, rfl⟩ := hr.exists_finite
  cases s <;> exact ⟨rfl, rfl⟩

theorem same_convert_iff (hr : r.HasValue R)
    (hat : Format.single.At (Format.single.convert r) (Format.single.clamp c)) :
    (Format.single.convert r).same r ↔
      c.natAbs < Format.single.infinityMagnitude ∧ R = Format.single.point c := by
  rcases lt_or_ge c.natAbs Format.single.infinityMagnitude with hc | hc
  · rw [clamp_of_natAbs_le hc.le] at hat
    rw [(hat.hasValue hc).same_iff hr, eq_comm]
    simp [hc]
  · have hne : Format.single.clamp c ≠ 0 ∧
        (Format.single.clamp c).natAbs = Format.single.infinityMagnitude := by
      have := one_lt_infinityMagnitude (f := .single)
      unfold clamp
      omega
    rw [hat.eq_infinity hne.2 hne.1, (infinity_same_less hr _).1]
    simp [hc.not_gt]

/-- Narrowing a double rounds the exact value that it approximates. -/
theorem narrow_at (mode : RoundingMode) (h : Approximates r R side x)
    (hmid : |R| = overflowMiddle → |R| ≤ |x|) :
    ∃ i, Format.single.round mode x = Format.single.point i ∧
      Format.single.At (mode.narrow side r).1 (Format.single.deliver mode i) := by
  obtain ⟨c, hround, hat⟩ := convert_at (f := .single) h.value
  have hsame := same_convert_iff h.value hat
  have hinf := one_lt_infinityMagnitude (f := .single)
  rcases lt_or_ge c.natAbs Format.single.infinityMagnitude with hc | hc
  · rw [clamp_of_natAbs_le hc.le] at hat
    have hless := (hat.hasValue hc).less_iff h.value
    rcases isPoint_or_between (f := .single) R with hpoint | ⟨j, hb⟩
    · -- the double is a single
      have hR := hpoint.round_eq (f := .single) .nearest ▸ hround
      rw [narrow_of_same (hsame.2 ⟨hc, hR⟩)]
      cases hside : side with
      | exact =>
        have hx := h.exact_iff.1 hside
        rw [hx, if_pos rfl]
        exact ⟨c, by rw [hR, round_point], by rwa [deliver_of_lt hc]⟩
      | above => exact representable_above h hc hR hat (h.above_iff.1 hside)
      | below => exact representable_below h hc hR hat (h.below_iff.1 hside)
    · -- the double lies between two singles, one of them the closest
      have hnot : ¬(Format.single.convert r).same r := by
        rw [hsame]
        rintro ⟨-, rfl⟩
        exact hb.not_point
      have hneighbour : Format.single.neighbour .nearest j R = c := by
        rw [round_between .nearest hb] at hround
        exact point_strictMono.injective hround
      rcases neighbour_eq_or (f := .single) .nearest j R with hj | hj
      · obtain rfl : j = c := hj.symm.trans hneighbour
        rw [narrow_of_less hnot (hless.2 hb.1)]
        exact enclosed_at h hb (by rwa [hj]) (by rwa [hj]) hat (hat.next (by omega))
      · obtain rfl : j + 1 = c := hj.symm.trans hneighbour
        rw [narrow_of_not_less hnot (mt hless.1 hb.2.not_gt)]
        have hprevious := hat.previous (by omega)
        rw [add_sub_cancel_right] at hprevious
        exact enclosed_at h hb (by rwa [hj]) (by rwa [hj]) hprevious hat
  · have hnot : ¬(Format.single.convert r).same r := by
      rw [hsame]
      exact fun hc' => hc.not_gt hc'.1
    obtain ⟨i, hi⟩ := isPoint_round (f := .single) mode x
    refine ⟨i, hi, ?_⟩
    rcases le_or_gt (Format.single.infinityMagnitude : ℤ) c with hpos | hneg
    · have hclamp : Format.single.clamp c = Format.single.infinityMagnitude := by
        unfold clamp
        omega
      rw [hclamp] at hat
      have hinfinity := hat.eq_infinity (by simp) (by omega)
      have hless := (infinity_same_less h.value (decide ((Format.single.infinityMagnitude : ℤ) < 0))).2
      rw [narrow_of_not_less hnot (by rw [hinfinity, hless]; simp)]
      exact beyond_at h hmid (overflowMiddle_le_of_le_index hround hpos) hat hi
    · have hclamp : Format.single.clamp c = -Format.single.infinityMagnitude := by
        unfold clamp
        omega
      rw [hclamp] at hat
      have hinfinity := hat.eq_infinity (by simp) (by omega)
      have hless := (infinity_same_less h.value (decide (-(Format.single.infinityMagnitude : ℤ) < 0))).2
      rw [narrow_of_less hnot (by rw [hinfinity, hless]; simp; omega)]
      exact beyond_neg_at h hmid (le_overflowMiddle_of_index_le hround (by omega)) hat hi

/-- Narrowing says that nothing was lost exactly if the exact value is a finite single. -/
theorem narrow_exact_iff (mode : RoundingMode) (h : Approximates r R side x) :
    (mode.narrow side r).2 = false ↔
      ∃ i : ℤ, i.natAbs < Format.single.infinityMagnitude ∧ x = Format.single.point i := by
  obtain ⟨c, hround, hat⟩ := convert_at (f := .single) h.value
  have hsame := same_convert_iff h.value hat
  constructor
  · intro hexact
    by_cases hs : (Format.single.convert r).same r
    · rw [narrow_of_same hs] at hexact
      split_ifs at hexact with hside
      obtain ⟨hc, hR⟩ := hsame.1 hs
      exact ⟨c, hc, (h.exact_iff.1 hside).trans hR⟩
    · by_cases hless : (Format.single.convert r).less r
      · rw [narrow_of_less hs hless] at hexact
        cases hexact
      · rw [narrow_of_not_less hs hless] at hexact
        cases hexact
  · rintro ⟨i, hi, rfl⟩
    -- a single is a double, so the approximation is the value itself
    have hR : Format.single.point i = R := by
      by_contra hne
      have := h.lt_iff (isPoint_double_of_single ⟨i, rfl⟩) hne
      rcases lt_or_gt_of_ne hne with hlt | hgt
      · exact lt_irrefl _ (h.lt_of_lt (isPoint_double_of_single ⟨i, rfl⟩) hlt)
      · exact lt_irrefl _ (this.2 hgt)
    have hci : c = i := by
      rw [← hR, round_point] at hround
      exact point_strictMono.injective hround.symm
    rw [narrow_of_same (hsame.2 ⟨hci ▸ hi, by rw [hci, hR]⟩), if_pos (h.exact_iff.2 hR)]

end Vr4300.FloatingPoint
