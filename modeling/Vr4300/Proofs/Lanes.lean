import Mathlib.Tactic.Common
import Vr4300.Cpu.Effect
import Vr4300.Proofs.MemoryBytes

/-!
# `Proofs.Lanes` — the left and the right part of a container

A left or a right form works on the bytes of one aligned container. It moves them up or down, so that each meets one
byte of the register, its lane; the other bytes of the register, or of the container, are kept. Loads and stores
use the same lanes in opposite directions.

## Contents

* `MovedUp`, `MovedDown`: numbers a part of which is replaced by another, moved number (`MovedUp.digit`,
  `MovedDown.digit`);
* `Span`, `Side`, `Side.Lane`: words and doublewords, left and right forms, and which bytes meet;
* `digit_merge`, `digit_stored`: loads and stores, by lanes;
* `Span.Extended`: numbers that are kept sign-extended (`Span.Extended.eq_of_digits`, `extended_merge`).
-/

namespace Vr4300

open Bytes

/-! ## Moved numbers -/

/-- A moved number replaces the bits above. -/
theorem getLsbD_up {w : Nat} (old src : BitVec w) (s : Nat) {bit : Nat} (hbit : bit < w) :
    ((old &&& ~~~(BitVec.allOnes w <<< s)) ||| (src <<< s)).getLsbD bit =
      if s ≤ bit then src.getLsbD (bit - s) else old.getLsbD bit := by
  simp only [BitVec.getLsbD_or, BitVec.getLsbD_and, BitVec.getLsbD_not, BitVec.getLsbD_shiftLeft,
    BitVec.getLsbD_allOnes]
  by_cases h : s ≤ bit
  · have hnot : ¬ bit < s := by omega
    have hlt : bit - s < w := by omega
    simp [h, hnot, hbit, hlt]
  · have hlt : bit < s := by omega
    simp [h, hlt, hbit]

/-- A moved number replaces the bits below. -/
theorem getLsbD_down {w : Nat} (old src : BitVec w) (s : Nat) {bit : Nat} (hbit : bit < w) :
    ((old &&& ~~~(BitVec.allOnes w >>> s)) ||| (src >>> s)).getLsbD bit =
      if bit + s < w then src.getLsbD (bit + s) else old.getLsbD bit := by
  simp only [BitVec.getLsbD_or, BitVec.getLsbD_and, BitVec.getLsbD_not, BitVec.getLsbD_ushiftRight,
    BitVec.getLsbD_allOnes, Nat.add_comm s bit]
  by_cases h : bit + s < w
  · simp [h, hbit]
  · have hge : src.getLsbD (bit + s) = false := BitVec.getLsbD_of_ge _ _ (by omega)
    simp [h, hbit, hge]

namespace Lane

/-- Of the `n` bytes of a number, the upper ones are those of `src`, moved up by `s`, and the others those of `old`. -/
def MovedUp (n s : Nat) (src old x : UInt64) : Prop :=
  ∀ bit < 8 * n, x.toBitVec.getLsbD bit =
    if 8 * s ≤ bit then src.toBitVec.getLsbD (bit - 8 * s) else old.toBitVec.getLsbD bit

/-- Of the `n` bytes of a number, the lower ones are those of `src`, moved down by `s`, and the others those of
`old`. -/
def MovedDown (n s : Nat) (src old x : UInt64) : Prop :=
  ∀ bit < 8 * n, x.toBitVec.getLsbD bit =
    if bit + 8 * s < 8 * n then src.toBitVec.getLsbD (bit + 8 * s) else old.toBitVec.getLsbD bit

section

variable {n s place : Nat} {src old x : UInt64}

theorem MovedUp.digit (h : MovedUp n s src old x) (hn : n ≤ 8) (hplace : place < n) :
    digit n place x = if place + s < n then digit n (place + s) src else digit n place old := by
  apply UInt8.toBitVec_inj.mp
  apply BitVec.eq_of_getLsbD_eq
  intro bit hbit
  rw [getLsbD_digit hn hbit, h _ (by omega)]
  by_cases hup : place + s < n
  · rw [if_pos hup, if_pos (by omega), getLsbD_digit hn hbit,
      show 8 * (n - 1 - place) + bit - 8 * s = 8 * (n - 1 - (place + s)) + bit by omega]
  · rw [if_neg hup, if_neg (by omega), getLsbD_digit hn hbit]

theorem MovedDown.digit (h : MovedDown n s src old x) (hn : n ≤ 8) (hplace : place < n) :
    digit n place x = if s ≤ place then digit n (place - s) src else digit n place old := by
  apply UInt8.toBitVec_inj.mp
  apply BitVec.eq_of_getLsbD_eq
  intro bit hbit
  rw [getLsbD_digit hn hbit, h _ (by omega)]
  by_cases hdown : s ≤ place
  · rw [if_pos hdown, if_pos (by omega), getLsbD_digit hn hbit,
      show 8 * (n - 1 - place) + bit + 8 * s = 8 * (n - 1 - (place - s)) + bit by omega]
  · rw [if_neg hdown, if_neg (by omega), getLsbD_digit hn hbit]

end

/-! ### Doublewords -/

section

variable (src old : UInt64) {k : Nat}

theorem movedUp_double {shift : UInt64} (hshift : shift.toNat = 8 * k) (hk : k < 8) :
    MovedUp 8 k src old ((old &&& ~~~(0xFFFFFFFFFFFFFFFF <<< shift)) ||| (src <<< shift)) := by
  intro bit hbit
  have hmod : shift.toNat % 64 = 8 * k := by omega
  rw [← getLsbD_up old.toBitVec src.toBitVec (8 * k) hbit]
  simp [hmod]

theorem movedDown_double {shift : UInt64} (hshift : shift.toNat = 8 * k) (hk : k < 8) :
    MovedDown 8 k src old ((old &&& ~~~(0xFFFFFFFFFFFFFFFF >>> shift)) ||| (src >>> shift)) := by
  intro bit hbit
  have hmod : shift.toNat % 64 = 8 * k := by omega
  rw [← getLsbD_down old.toBitVec src.toBitVec (8 * k) hbit]
  simp [hmod]

end

/-! ### Words -/

/-- The bits of the low word. -/
theorem getLsbD_low (x : UInt64) {bit : Nat} (h : bit < 32) :
    x.toUInt32.toBitVec.getLsbD bit = x.toBitVec.getLsbD bit := by
  simp [h]

section

variable (src old : UInt64) {x : UInt64} {k : Nat}

theorem movedUp_word {shift : UInt32} (hshift : shift.toNat = 8 * k) (hk : k < 4)
    (hx : x.toUInt32 = (old.toUInt32 &&& ~~~(0xFFFFFFFF <<< shift)) ||| (src.toUInt32 <<< shift)) :
    MovedUp 4 k src old x := by
  intro bit hbit
  have hmod : shift.toNat % 32 = 8 * k := by omega
  have h := getLsbD_up old.toUInt32.toBitVec src.toUInt32.toBitVec (8 * k) hbit
  rw [getLsbD_low old hbit, getLsbD_low src (show bit - 8 * k < 32 by omega)] at h
  rw [← getLsbD_low x hbit, hx, ← h]
  simp [hmod]

theorem movedDown_word {shift : UInt32} (hshift : shift.toNat = 8 * k) (hk : k < 4)
    (hx : x.toUInt32 = (old.toUInt32 &&& ~~~(0xFFFFFFFF >>> shift)) ||| (src.toUInt32 >>> shift)) :
    MovedDown 4 k src old x := by
  intro bit hbit
  have hmod : shift.toNat % 32 = 8 * k := by omega
  have h := getLsbD_down old.toUInt32.toBitVec src.toUInt32.toBitVec (8 * k) hbit
  have hsrc : (if bit + 8 * k < 32 then src.toUInt32.toBitVec.getLsbD (bit + 8 * k) else old.toBitVec.getLsbD bit) =
      if bit + 8 * k < 32 then src.toBitVec.getLsbD (bit + 8 * k) else old.toBitVec.getLsbD bit := by
    split
    · rename_i hlow
      exact getLsbD_low src hlow
    · rfl
  rw [getLsbD_low old hbit, hsrc] at h
  rw [← getLsbD_low x hbit, hx, ← h]
  simp [hmod]

end

/-! ### The forms -/

variable (address : UInt64)

/-- The place of an address in its word. -/
theorem toNat_and_three : (address &&& 3).toNat = address.toNat % 4 := by
  rw [UInt64.toNat_and]
  exact Nat.and_two_pow_sub_one_eq_mod _ 2

/-- The place of an address in its doubleword. -/
theorem toNat_and_seven : (address &&& 7).toNat = address.toNat % 8 := by
  rw [UInt64.toNat_and]
  exact Nat.and_two_pow_sub_one_eq_mod _ 3

theorem toNat_wordShift : (wordShift address).toNat = 8 * (address.toNat % 4) := by
  unfold wordShift
  rw [UInt32.toNat_mul, UInt64.toNat_toUInt32, toNat_and_three, show (8 : UInt32).toNat = 8 from rfl]
  omega

theorem toNat_wordRightShift : (wordRightShift address).toNat = 8 * (3 - address.toNat % 4) := by
  unfold wordRightShift
  rw [UInt32.toNat_mul, UInt32.toNat_sub, UInt64.toNat_toUInt32, toNat_and_three, show (8 : UInt32).toNat = 8 from rfl,
    show (3 : UInt32).toNat = 3 from rfl]
  omega

theorem toNat_doubleShift : (doubleShift address).toNat = 8 * (address.toNat % 8) := by
  unfold doubleShift
  rw [UInt64.toNat_mul, toNat_and_seven, show (8 : UInt64).toNat = 8 from rfl]
  omega

theorem toNat_doubleRightShift : (doubleRightShift address).toNat = 8 * (7 - address.toNat % 8) := by
  unfold doubleRightShift
  rw [UInt64.toNat_mul, UInt64.toNat_sub, toNat_and_seven, show (8 : UInt64).toNat = 8 from rfl,
    show (7 : UInt64).toNat = 7 from rfl]
  omega

end Lane

/-! ## Lanes -/

/-- The numbers that have left and right forms. -/
inductive Span where
  | word | double
deriving DecidableEq, Repr

/-- The two forms. -/
inductive Side where
  | left | right
deriving DecidableEq, Repr

namespace Span

/-- The width of the number, and of its containers. -/
def width : Span → Width
  | word => .word
  | double => .double

/-- The number of its bytes. -/
def bytes (span : Span) : Nat := span.width.bytes

/-- The load of one side. -/
def merge : Span → Side → MergeOp
  | word, .left => .wordLeft
  | word, .right => .wordRight
  | double, .left => .doubleLeft
  | double, .right => .doubleRight

/-- The store of one side. -/
def masked : Span → Side → UInt64 → UInt64 → Lane.MaskedStore
  | word, .left => Lane.storeWordLeft
  | word, .right => Lane.storeWordRight
  | double, .left => Lane.storeDoubleLeft
  | double, .right => Lane.storeDoubleRight

/-- The container behind a store. -/
def stored (span : Span) (side : Side) (rt address old : UInt64) : UInt64 :=
  blend old (span.masked side rt address).value (span.masked side rt address).mask

end Span

/-- **The lanes** of a form whose address is at place `k` in its container: the byte `i` of the register meets the byte
`j` of the container. -/
def Side.Lane (n k i j : Nat) : Side → Prop
  | left => j = i + k
  | right => j + n = i + k + 1

namespace Lane

/-! ### Loads and stores move bytes -/

/-- The bits of a word that is kept sign-extended. -/
theorem getLsbD_ofWord (w : UInt32) {bit : Nat} (h : bit < 64) :
    (ofWord w).toBitVec.getLsbD bit = w.toBitVec.getLsbD (min bit 31) := by
  show (BitVec.signExtend 64 w.toBitVec).getLsbD bit = _
  rw [BitVec.getLsbD_signExtend, BitVec.msb_eq_getLsbD_last, decide_eq_true h, Bool.true_and]
  split
  · rw [Nat.min_eq_left (by omega)]
  · rw [Nat.min_eq_right (by omega)]

theorem toUInt32_ofWord (w : UInt32) : (ofWord w).toUInt32 = w := by
  apply UInt32.toBitVec_inj.mp
  apply BitVec.eq_of_getLsbD_eq
  intro bit hbit
  rw [getLsbD_low _ hbit, getLsbD_ofWord _ (by omega), Nat.min_eq_left (by omega)]

/-- **A load** moves the bytes of the container, up on the left side and down on the right one. -/
theorem moved_merge (span : Span) (old container address : UInt64) :
    MovedUp span.bytes (address.toNat % span.bytes) container old
        ((span.merge .left).apply old container address) ∧
      MovedDown span.bytes (span.bytes - 1 - address.toNat % span.bytes) container old
        ((span.merge .right).apply old container address) := by
  cases span with
  | double =>
    exact ⟨movedUp_double container old (toNat_doubleShift address) (Nat.mod_lt _ (by decide)),
      movedDown_double container old (toNat_doubleRightShift address) (show 7 - address.toNat % 8 < 8 by omega)⟩
  | word =>
    refine ⟨movedUp_word container old (toNat_wordShift address) (Nat.mod_lt _ (by decide)) (toUInt32_ofWord _),
      movedDown_word container old (toNat_wordRightShift address) (show 3 - address.toNat % 4 < 4 by omega) ?_⟩
    show (wordRight old container.toUInt32 address).toUInt32 = _
    unfold wordRight
    dsimp only
    split
    -- the whole word
    · rename_i hzero
      have hnone : ~~~((0xFFFFFFFF : UInt32) >>> 0) = 0 := by decide
      rw [toUInt32_ofWord, hzero, hnone, UInt32.and_zero, UInt32.zero_or, UInt32.shiftRight_zero]
    · simp only [UInt64.toUInt32_or, UInt64.toUInt32_and, UInt64.toUInt32_not, UInt32.toUInt32_toUInt64]

/-- A moved number has no other bits than moved ones. -/
theorem shiftLeft_and_ones (x shift : UInt64) : x <<< shift &&& 0xFFFFFFFFFFFFFFFF <<< shift = x <<< shift := by
  rw [← UInt64.shiftLeft_and, show x &&& 0xFFFFFFFFFFFFFFFF = x from UInt64.toBitVec_inj.mp BitVec.and_allOnes]

theorem shiftRight_and_ones (x shift : UInt64) : x >>> shift &&& 0xFFFFFFFFFFFFFFFF >>> shift = x >>> shift := by
  rw [← UInt64.shiftRight_and, show x &&& 0xFFFFFFFFFFFFFFFF = x from UInt64.toBitVec_inj.mp BitVec.and_allOnes]

theorem shiftLeft_and_onesWord (x shift : UInt32) : x <<< shift &&& 0xFFFFFFFF <<< shift = x <<< shift := by
  rw [← UInt32.shiftLeft_and, show x &&& 0xFFFFFFFF = x from UInt32.toBitVec_inj.mp BitVec.and_allOnes]

theorem shiftRight_and_onesWord (x shift : UInt32) : x >>> shift &&& 0xFFFFFFFF >>> shift = x >>> shift := by
  rw [← UInt32.shiftRight_and, show x &&& 0xFFFFFFFF = x from UInt32.toBitVec_inj.mp BitVec.and_allOnes]

theorem blend_of_within (old : UInt64) {v mask : UInt64} (h : v &&& mask = v) :
    blend old v mask = (old &&& ~~~mask) ||| v := by
  unfold blend
  rw [h]

/-- **A store** moves the bytes of the register, down on the left side and up on the right one. -/
theorem moved_stored (span : Span) (rt address old : UInt64) :
    MovedDown span.bytes (address.toNat % span.bytes) rt old (span.stored .left rt address old) ∧
      MovedUp span.bytes (span.bytes - 1 - address.toNat % span.bytes) rt old (span.stored .right rt address old) := by
  cases span with
  | double =>
    have hleft := movedDown_double rt old (toNat_doubleShift address) (Nat.mod_lt _ (by decide))
    have hright := movedUp_double rt old (toNat_doubleRightShift address) (show 7 - address.toNat % 8 < 8 by omega)
    rw [show Span.double.stored .left rt address old = _ from
        blend_of_within old (shiftRight_and_ones rt (doubleShift address)),
      show Span.double.stored .right rt address old = _ from
        blend_of_within old (shiftLeft_and_ones rt (doubleRightShift address))]
    exact ⟨hleft, hright⟩
  | word =>
    refine ⟨movedDown_word rt old (toNat_wordShift address) (Nat.mod_lt _ (by decide)) ?_,
      movedUp_word rt old (toNat_wordRightShift address) (show 3 - address.toNat % 4 < 4 by omega) ?_⟩
    · rw [← shiftRight_and_onesWord rt.toUInt32]
      simp only [Span.stored, blend, Span.masked, storeWordLeft, UInt64.toUInt32_or, UInt64.toUInt32_and,
        UInt64.toUInt32_not, UInt32.toUInt32_toUInt64]
    · rw [← shiftLeft_and_onesWord rt.toUInt32]
      simp only [Span.stored, blend, Span.masked, storeWordRight, UInt64.toUInt32_or, UInt64.toUInt32_and,
        UInt64.toUInt32_not, UInt32.toUInt32_toUInt64]

end Lane

section

variable (span : Span) (side : Side) (address : UInt64)

/-- **A load** takes the bytes of its lanes from the container, and keeps the others. -/
theorem digit_merge (old container : UInt64) {i : Nat} (hi : i < span.bytes) :
    (∀ j < span.bytes, side.Lane span.bytes (address.toNat % span.bytes) i j →
      digit span.bytes i ((span.merge side).apply old container address) = digit span.bytes j container) ∧
    ((∀ j < span.bytes, ¬ side.Lane span.bytes (address.toNat % span.bytes) i j) →
      digit span.bytes i ((span.merge side).apply old container address) = digit span.bytes i old) := by
  have hn : span.bytes ≤ 8 := by cases span <;> decide
  have hk : address.toNat % span.bytes < span.bytes := Nat.mod_lt _ (Nat.zero_lt_of_lt hi)
  obtain ⟨hleft, hright⟩ := Lane.moved_merge span old container address
  cases side with
  | left =>
    have h := hleft.digit hn hi
    refine ⟨fun j hj hlane => ?_, fun hnone => ?_⟩
    · obtain rfl : j = i + address.toNat % span.bytes := hlane
      rw [h, if_pos hj]
    · rw [h, if_neg fun hin => hnone _ hin rfl]
  | right =>
    have h := hright.digit hn hi
    refine ⟨fun j hj hlane => ?_, fun hnone => ?_⟩
    · have hlane : j + span.bytes = i + address.toNat % span.bytes + 1 := hlane
      rw [h, if_pos (by omega), show i - (span.bytes - 1 - address.toNat % span.bytes) = j by omega]
    · have hnone := hnone (i + address.toNat % span.bytes + 1 - span.bytes) (by omega)
      rw [h, if_neg fun hin => hnone (show _ + _ = _ by omega)]

/-- **A store** gives the bytes of its lanes to the container, which keeps the others. -/
theorem digit_stored (rt old : UInt64) {j : Nat} (hj : j < span.bytes) :
    (∀ i < span.bytes, side.Lane span.bytes (address.toNat % span.bytes) i j →
      digit span.bytes j (span.stored side rt address old) = digit span.bytes i rt) ∧
    ((∀ i < span.bytes, ¬ side.Lane span.bytes (address.toNat % span.bytes) i j) →
      digit span.bytes j (span.stored side rt address old) = digit span.bytes j old) := by
  have hn : span.bytes ≤ 8 := by cases span <;> decide
  have hk : address.toNat % span.bytes < span.bytes := Nat.mod_lt _ (Nat.zero_lt_of_lt hj)
  obtain ⟨hleft, hright⟩ := Lane.moved_stored span rt address old
  cases side with
  | left =>
    have h := hleft.digit hn hj
    refine ⟨fun i hi hlane => ?_, fun hnone => ?_⟩
    · obtain rfl : j = i + address.toNat % span.bytes := hlane
      rw [h, if_pos (by omega), Nat.add_sub_cancel]
    · have hnone := hnone (j - address.toNat % span.bytes) (by omega)
      rw [h, if_neg fun hin => hnone (show _ = _ by omega)]
  | right =>
    have h := hright.digit hn hj
    refine ⟨fun i hi hlane => ?_, fun hnone => ?_⟩
    · have hlane : j + span.bytes = i + address.toNat % span.bytes + 1 := hlane
      rw [h, if_pos (by omega), show j + (span.bytes - 1 - address.toNat % span.bytes) = i by omega]
    · rw [h, if_neg fun hin => hnone _ hin (show _ + _ = _ by omega)]

end

/-! ## Sign extension -/

theorem signExtendWord_ofWord (w : UInt32) : signExtendWord (ofWord w) = ofWord w :=
  congrArg ofWord (Lane.toUInt32_ofWord w)

/-- A word is kept sign-extended if all bits from the uppermost one of the word on are the same. -/
theorem signExtendWord_eq_iff (x : UInt64) :
    signExtendWord x = x ↔ ∀ bit < 64, 31 ≤ bit → x.toBitVec.getLsbD bit = x.toBitVec.getLsbD 31 := by
  have hbits {bit : Nat} (hbit : bit < 64) :
      (signExtendWord x).toBitVec.getLsbD bit = x.toBitVec.getLsbD (min bit 31) := by
    show (ofWord x.toUInt32).toBitVec.getLsbD bit = _
    rw [Lane.getLsbD_ofWord _ hbit, Lane.getLsbD_low _ (by omega)]
  constructor
  · intro h bit hbit hle
    have heq := hbits hbit
    rw [h, Nat.min_eq_right hle] at heq
    exact heq
  · intro h
    apply UInt64.toBitVec_inj.mp
    apply BitVec.eq_of_getLsbD_eq
    intro bit hbit
    rw [hbits hbit]
    rcases Nat.le_total bit 31 with hle | hle
    · rw [Nat.min_eq_left hle]
    · rw [Nat.min_eq_right hle, h bit hbit hle]

/-- The number is kept as a load of its width leaves it. -/
def Span.Extended (span : Span) (x : UInt64) : Prop := span.width.signExtend x = x

/-- A number that is kept so is determined by its bytes. -/
theorem Span.Extended.eq_of_digits {span : Span} {v : UInt64} (h : span.Extended v) {byte : Nat → UInt8}
    (hdigits : ∀ i < span.bytes, digit span.bytes i v = byte i) :
    v = span.width.signExtend (assemble byte span.bytes) := by
  have hbits {bit : Nat} (hbit : bit < 8 * span.bytes) :=
    getLsbD_of_digits (by cases span <;> decide) hdigits hbit
  cases span with
  | word =>
    have hlow : v.toUInt32 = (assemble byte Span.word.bytes).toUInt32 := by
      apply UInt32.toBitVec_inj.mp
      apply BitVec.eq_of_getLsbD_eq
      intro bit hbit
      rw [Lane.getLsbD_low _ hbit, Lane.getLsbD_low _ hbit]
      exact hbits hbit
    exact (show signExtendWord v = v from h).symm.trans (congrArg ofWord hlow)
  | double =>
    apply UInt64.toBitVec_inj.mp
    apply BitVec.eq_of_getLsbD_eq
    intro bit hbit
    exact hbits hbit

/-- The right form of a word keeps the upper part of the register, or replaces the whole word. -/
theorem signExtendWord_wordRight {old : UInt64} (h : signExtendWord old = old) (container : UInt32) (address : UInt64) :
    signExtendWord (Lane.wordRight old container address) = Lane.wordRight old container address := by
  unfold Lane.wordRight
  dsimp only
  split
  · exact signExtendWord_ofWord container
  · rename_i hshift
    have hpos : (Lane.wordRightShift address).toNat ≠ 0 := fun hzero => hshift (UInt32.toNat_inj.mp hzero)
    rw [Lane.toNat_wordRightShift] at hpos
    -- what is moved down does not reach the upper part
    have hbelow (y : UInt32) {bit : Nat} (hle : 31 ≤ bit) :
        (y >>> Lane.wordRightShift address).toUInt64.toBitVec.getLsbD bit = false := by
      rw [UInt32.toBitVec_toUInt64, BitVec.getLsbD_setWidth, UInt32.toBitVec_shiftRight, BitVec.ushiftRight_eq',
        BitVec.getLsbD_ushiftRight]
      have hamount : ((Lane.wordRightShift address).toBitVec % 32).toNat = 8 * (3 - address.toNat % 4) := by
        show (Lane.wordRightShift address).toNat % 32 = _
        rw [Lane.toNat_wordRightShift]
        omega
      rw [hamount, BitVec.getLsbD_of_ge _ _ (by omega), Bool.and_false]
    have hkept {bit : Nat} (hbit : bit < 64) (hle : 31 ≤ bit) :
        ((old &&& ~~~((0xFFFFFFFF : UInt32) >>> Lane.wordRightShift address).toUInt64) |||
          (container >>> Lane.wordRightShift address).toUInt64).toBitVec.getLsbD bit = old.toBitVec.getLsbD bit := by
      rw [UInt64.toBitVec_or, UInt64.toBitVec_and, UInt64.toBitVec_not, BitVec.getLsbD_or, BitVec.getLsbD_and,
        BitVec.getLsbD_not, hbelow _ hle, hbelow _ hle, decide_eq_true hbit]
      simp
    rw [signExtendWord_eq_iff] at h ⊢
    intro bit hbit hle
    rw [hkept hbit hle, hkept (by decide) (Nat.le_refl 31), h bit hbit hle]

/-- **A left form** leaves the register sign-extended. -/
theorem extended_left (span : Span) (old container address : UInt64) :
    span.Extended ((span.merge .left).apply old container address) := by
  cases span with
  | word => exact signExtendWord_ofWord _
  | double => rfl

/-- **A right form** keeps it so. -/
theorem extended_right (span : Span) {old : UInt64} (h : span.Extended old) (container address : UInt64) :
    span.Extended ((span.merge .right).apply old container address) := by
  cases span with
  | word => exact signExtendWord_wordRight h _ _
  | double => rfl

/-- **Two forms of different sides**, one behind the other, leave the register sign-extended. -/
theorem extended_merge (span : Span) {first second : Side} (h : first ≠ second) (old container container' : UInt64)
    (address address' : UInt64) :
    span.Extended ((span.merge second).apply ((span.merge first).apply old container address) container' address') := by
  cases second with
  | left => exact extended_left span _ _ _
  | right =>
    cases first with
    | left => exact extended_right span (extended_left span _ _ _) _ _
    | right => exact absurd rfl h

end Vr4300
