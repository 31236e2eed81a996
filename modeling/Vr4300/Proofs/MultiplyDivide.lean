import Mathlib.Algebra.Order.Ring.Abs
import Mathlib.Tactic.Linarith
import Vr4300.Cpu.Semantics

/-!
# `Proofs.MultiplyDivide` — the multiply/divide unit obeys integer arithmetic

An operation of the unit sees an integer in each register, `MultiplyOp.value`: the low word or the whole register, with
or without a sign. What it leaves in HI and LO is read in the same way, and between these integers hold the equations
of multiplication and of division toward zero, with no condition on the upper halves of the operands.

All ways to read a register are remainders of the signed doubleword in it, so that every equation comes down to one
between integers.

## Contents

* `MultiplyOp.value`, `MultiplyOp.Overflows`, `MultiplyOp.Obeys`: what an operation owes;
* `signedDouble_eq` and the other readings of a register;
* `ofWordProduct` and `ofDoubleProduct` in integers, and with them the four products;
* `MultiplyOp.fits_tdiv_iff`: the one quotient that has no room;
* `MultiplyOp.obeys_of_division`, `obeys_of_zero`, and with them the four divisions;
* `multiply_divide_exact`.
-/

namespace Vr4300

open Integer

namespace MultiplyOp

/-! ## What an operation owes -/

/-- The operation reads the low words of its operands. -/
def isWord : MultiplyOp → Bool
  | mult | multu | div | divu => true
  | dmult | dmultu | ddiv | ddivu => false

/-- It takes them with a sign. -/
def isSigned : MultiplyOp → Bool
  | mult | dmult | div | ddiv => true
  | multu | dmultu | divu | ddivu => false

/-- It multiplies. -/
def isProduct : MultiplyOp → Bool
  | mult | multu | dmult | dmultu => true
  | div | divu | ddiv | ddivu => false

/-- The bits of an operand. -/
def bits (op : MultiplyOp) : ℕ := if op.isWord then 32 else 64

/-- The integer that an operation sees in a register. -/
def value (op : MultiplyOp) (v : UInt64) : ℤ :=
  match op with
  | mult | div => signedWord v
  | multu | divu => v.toUInt32.toNat
  | dmult | ddiv => signedDouble v
  | dmultu | ddivu => v.toNat

/-- The least integer of `n` bits. -/
def least (op : MultiplyOp) (n : ℕ) : ℤ := if op.isSigned then -2 ^ (n - 1) else 0

/-- An integer has room in `n` bits. -/
def Fits (op : MultiplyOp) (n : ℕ) (x : ℤ) : Prop := op.least n ≤ x ∧ x < op.least n + 2 ^ n

/-- The quotient is one more than the largest integer: the least one is divided by minus one. -/
def Overflows (op : MultiplyOp) (a b : UInt64) : Prop :=
  op.isSigned = true ∧ op.value a = op.least op.bits ∧ op.value b = -1

/-- **What an operation owes** for the registers `a` and `b`. -/
structure Obeys (op : MultiplyOp) (a b : UInt64) (h : HiLo) : Prop where
  /-- Words are sign-extended from bit 31. -/
  extended : op.isWord = true → signedDouble h.hi = signedWord h.hi ∧ signedDouble h.lo = signedWord h.lo
  /-- A product has room in both registers. -/
  fits : op.isProduct = true → op.Fits (2 * op.bits) (op.value a * op.value b)
  /-- HI holds the upper half of it, and LO the lower one. -/
  product : op.isProduct = true →
    op.value h.hi * 2 ^ op.bits + (h.lo.toNat : ℤ) % 2 ^ op.bits = op.value a * op.value b
  /-- HI holds a remainder, which is less than the divisor and has the sign of the dividend, and LO the quotient. -/
  division : op.isProduct = false → op.value b ≠ 0 → ¬ op.Overflows a b →
    op.value a = op.value h.lo * op.value b + op.value h.hi ∧ |op.value h.hi| < |op.value b| ∧
      (op.value h.hi = 0 ∨ (op.value h.hi).sign = (op.value a).sign)
  /-- The exact quotient has room in a register, unless it overflows. -/
  room : op.isProduct = false → op.value b ≠ 0 →
    (op.Fits op.bits ((op.value a).tdiv (op.value b)) ↔ ¬ op.Overflows a b)
  /-- A quotient that overflows is replaced by the dividend. -/
  overflow : op.isProduct = false → op.Overflows a b → op.value h.lo = op.value a ∧ h.hi = 0
  /-- A division by zero leaves the dividend in HI, and minus one in LO, or one for a negative dividend. -/
  zero : op.isProduct = false → op.value b = 0 →
    op.value h.hi = op.value a ∧ signedDouble h.lo = if op.value a < 0 then 1 else -1

end MultiplyOp

/-! ## Readings of a register -/

theorem signedDouble_eq (v : UInt64) : signedDouble v = (v.toNat + 2 ^ 63) % 2 ^ 64 - 2 ^ 63 := by
  have h : signedDouble v =
      if 2 * v.toNat < 2 ^ 64 then (v.toNat : ℤ) else (v.toNat : ℤ) - (2 ^ 64 : ℕ) :=
    BitVec.toInt_eq_toNat_cond _
  have := v.toNat_lt
  rw [h]
  split <;> omega

theorem signedWord_eq (v : UInt64) : signedWord v = (signedDouble v + 2 ^ 31) % 2 ^ 32 - 2 ^ 31 := by
  have h : signedWord v =
      if 2 * v.toUInt32.toNat < 2 ^ 32 then (v.toUInt32.toNat : ℤ) else (v.toUInt32.toNat : ℤ) - (2 ^ 32 : ℕ) :=
    BitVec.toInt_eq_toNat_cond _
  rw [h, signedDouble_eq, UInt64.toNat_toUInt32]
  split <;> omega

theorem toNat_eq (v : UInt64) : (v.toNat : ℤ) = signedDouble v % 2 ^ 64 := by
  have := v.toNat_lt
  rw [signedDouble_eq]
  omega

theorem toNat_toUInt32_eq (v : UInt64) : (v.toUInt32.toNat : ℤ) = signedDouble v % 2 ^ 32 := by
  rw [UInt64.toNat_toUInt32, signedDouble_eq]
  omega

/-- A word that is sign-extended reads as itself, as a word and as a doubleword. -/
theorem signedDouble_extended (w : Int32) : signedDouble w.toInt64.toUInt64 = w.toInt := by
  unfold signedDouble
  rw [Int64.toInt64_toUInt64, Int32.toInt_toInt64]

theorem signedWord_extended (w : Int32) : signedWord w.toInt64.toUInt64 = w.toInt := by
  have := w.le_toInt
  have := w.toInt_lt
  rw [signedWord_eq, signedDouble_extended]
  omega

theorem signedDouble_eq_signedWord (w : Int32) :
    signedDouble w.toInt64.toUInt64 = signedWord w.toInt64.toUInt64 :=
  (signedDouble_extended w).trans (signedWord_extended w).symm

theorem signedDouble_signExtendWord (v : UInt64) : signedDouble (signExtendWord v) = signedWord v :=
  signedDouble_extended _

theorem signedWord_signExtendWord (v : UInt64) : signedWord (signExtendWord v) = signedWord v :=
  signedWord_extended _

/-- A word without a sign survives its extension. -/
theorem toNat_ofWord (w : UInt32) : ((ofWord w).toUInt32.toNat : ℤ) = w.toNat := by
  have h : w.toInt32.toInt = if 2 * w.toNat < 2 ^ 32 then (w.toNat : ℤ) else (w.toNat : ℤ) - (2 ^ 32 : ℕ) :=
    BitVec.toInt_eq_toNat_cond _
  have := w.toNat_lt
  unfold ofWord
  rw [toNat_toUInt32_eq, signedDouble_extended, h]
  split <;> omega

/-- The upper half of a doubleword, as a word. -/
theorem signedWord_shiftRight (p : UInt64) : signedWord (p >>> 32) = signedDouble p / 2 ^ 32 := by
  have hshift : (p >>> 32).toNat = p.toNat / 2 ^ 32 := by
    rw [UInt64.toNat_shiftRight]
    exact Nat.shiftRight_eq_div_pow _ _
  have := p.toNat_lt
  rw [signedWord_eq, signedDouble_eq, signedDouble_eq, hshift]
  omega

namespace MultiplyOp

variable {op : MultiplyOp} {a b : UInt64} {h : HiLo}

theorem abs_signedWord_le (v : UInt64) : |signedWord v| ≤ 2 ^ 31 := by
  rw [abs_le, signedWord_eq]
  omega

theorem abs_signedDouble_le (v : UInt64) : |signedDouble v| ≤ 2 ^ 63 := by
  have := v.toNat_lt
  rw [abs_le, signedDouble_eq]
  omega

theorem abs_mul_le {x y k : ℤ} (hx : |x| ≤ k) (hy : |y| ≤ k) : |x * y| ≤ k * k := by
  rw [abs_mul]
  exact mul_le_mul hx hy (abs_nonneg y) ((abs_nonneg x).trans hx)

/-! ## Products -/

/-- A product owes nothing that a division owes. -/
theorem obeys_of_isProduct (hp : op.isProduct = true)
    (hextended : op.isWord = true → signedDouble h.hi = signedWord h.hi ∧ signedDouble h.lo = signedWord h.lo)
    (hfits : op.Fits (2 * op.bits) (op.value a * op.value b))
    (hproduct : op.value h.hi * 2 ^ op.bits + (h.lo.toNat : ℤ) % 2 ^ op.bits = op.value a * op.value b) :
    op.Obeys a b h where
  extended := hextended
  fits _ := hfits
  product _ := hproduct
  division hd := absurd hp (hd ▸ Bool.false_ne_true)
  room hd := absurd hp (hd ▸ Bool.false_ne_true)
  overflow hd := absurd hp (hd ▸ Bool.false_ne_true)
  zero hd := absurd hp (hd ▸ Bool.false_ne_true)

/-- The halves of a word product are sign-extended. -/
theorem extended_ofWordProduct (p : UInt64) :
    signedDouble (HiLo.ofWordProduct p).hi = signedWord (HiLo.ofWordProduct p).hi ∧
      signedDouble (HiLo.ofWordProduct p).lo = signedWord (HiLo.ofWordProduct p).lo := by
  exact ⟨signedDouble_eq_signedWord _, signedDouble_eq_signedWord _⟩

/-- The lower half of a word product. -/
theorem lo_ofWordProduct (p : UInt64) :
    ((HiLo.ofWordProduct p).lo.toNat : ℤ) % 2 ^ 32 = signedDouble p % 2 ^ 32 := by
  show ((signExtendWord p).toNat : ℤ) % 2 ^ 32 = _
  rw [toNat_eq, signedDouble_signExtendWord, signedWord_eq]
  omega

/-- The upper half of a word product, with a sign and without one. -/
theorem hi_ofWordProduct (p : UInt64) :
    signedWord (HiLo.ofWordProduct p).hi = signedDouble p / 2 ^ 32 ∧
      ((HiLo.ofWordProduct p).hi.toUInt32.toNat : ℤ) = (p.toNat : ℤ) / 2 ^ 32 := by
  have hsigned : signedWord (signExtendWord (p >>> 32)) = signedDouble p / 2 ^ 32 :=
    (signedWord_signExtendWord _).trans (signedWord_shiftRight p)
  refine ⟨hsigned, ?_⟩
  have := p.toNat_lt
  show ((signExtendWord (p >>> 32)).toUInt32.toNat : ℤ) = _
  rw [toNat_toUInt32_eq, signedDouble_signExtendWord, signedWord_shiftRight, signedDouble_eq]
  omega

/-- The halves of a doubleword product. -/
theorem halves_ofDoubleProduct (p : ℤ) :
    ((HiLo.ofDoubleProduct p).hi.toNat : ℤ) = p % 2 ^ 128 / 2 ^ 64 ∧
      ((HiLo.ofDoubleProduct p).lo.toNat : ℤ) = p % 2 ^ 64 := by
  unfold HiLo.ofDoubleProduct
  dsimp only
  rw [UInt64.toNat_ofNat', UInt64.toNat_ofNat', Nat.shiftRight_eq_div_pow]
  omega

theorem obeys_mult (a b : UInt64) : Obeys mult a b (mult.apply a b) := by
  have hbound := abs_le.mp (abs_mul_le (abs_signedWord_le a) (abs_signedWord_le b))
  -- the product of two words has room in a doubleword
  have hproduct : signedDouble (signExtendWord a * signExtendWord b) = signedWord a * signedWord b := by
    have h : signedDouble (signExtendWord a * signExtendWord b) =
        (signedDouble (signExtendWord a) * signedDouble (signExtendWord b)).bmod (2 ^ 64) :=
      Int64.toInt_mul _ _
    rw [h, signedDouble_signExtendWord, signedDouble_signExtendWord]
    exact Int.bmod_eq_of_le (by omega) (by omega)
  refine obeys_of_isProduct rfl (fun _ => extended_ofWordProduct _) ?_ ?_
  · show -2 ^ 63 ≤ signedWord a * signedWord b ∧ signedWord a * signedWord b < -2 ^ 63 + 2 ^ 64
    omega
  · show signedWord (HiLo.ofWordProduct (signExtendWord a * signExtendWord b)).hi * 2 ^ 32 +
      ((HiLo.ofWordProduct (signExtendWord a * signExtendWord b)).lo.toNat : ℤ) % 2 ^ 32 =
        signedWord a * signedWord b
    rw [(hi_ofWordProduct _).1, lo_ofWordProduct, hproduct]
    omega

theorem obeys_multu (a b : UInt64) : Obeys multu a b (multu.apply a b) := by
  have hbound : a.toUInt32.toNat * b.toUInt32.toNat ≤ (2 ^ 32 - 1) * (2 ^ 32 - 1) :=
    Nat.mul_le_mul (Nat.le_pred_of_lt a.toUInt32.toNat_lt) (Nat.le_pred_of_lt b.toUInt32.toNat_lt)
  have hproduct : ((a.toUInt32.toUInt64 * b.toUInt32.toUInt64).toNat : ℤ) =
      (a.toUInt32.toNat : ℤ) * b.toUInt32.toNat := by
    rw [UInt64.toNat_mul, UInt32.toNat_toUInt64, UInt32.toNat_toUInt64, Nat.mod_eq_of_lt (by omega)]
    exact Int.natCast_mul _ _
  refine obeys_of_isProduct rfl (fun _ => extended_ofWordProduct _) ?_ ?_
  · show 0 ≤ (a.toUInt32.toNat : ℤ) * b.toUInt32.toNat ∧ (a.toUInt32.toNat : ℤ) * b.toUInt32.toNat < 0 + 2 ^ 64
    rw [← Int.natCast_mul]
    omega
  · show ((HiLo.ofWordProduct (a.toUInt32.toUInt64 * b.toUInt32.toUInt64)).hi.toUInt32.toNat : ℤ) * 2 ^ 32 +
      ((HiLo.ofWordProduct (a.toUInt32.toUInt64 * b.toUInt32.toUInt64)).lo.toNat : ℤ) % 2 ^ 32 =
        (a.toUInt32.toNat : ℤ) * b.toUInt32.toNat
    rw [(hi_ofWordProduct _).2, lo_ofWordProduct, ← hproduct, signedDouble_eq]
    omega

theorem obeys_dmult (a b : UInt64) : Obeys dmult a b (dmult.apply a b) := by
  have hbound := abs_le.mp (abs_mul_le (abs_signedDouble_le a) (abs_signedDouble_le b))
  obtain ⟨hhi, hlo⟩ := halves_ofDoubleProduct (signedDouble a * signedDouble b)
  refine obeys_of_isProduct rfl (fun hw => by cases hw) ?_ ?_
  · show -2 ^ 127 ≤ signedDouble a * signedDouble b ∧ signedDouble a * signedDouble b < -2 ^ 127 + 2 ^ 128
    omega
  · show signedDouble (HiLo.ofDoubleProduct (signedDouble a * signedDouble b)).hi * 2 ^ 64 +
      ((HiLo.ofDoubleProduct (signedDouble a * signedDouble b)).lo.toNat : ℤ) % 2 ^ 64 =
        signedDouble a * signedDouble b
    rw [signedDouble_eq, hhi, hlo]
    omega

theorem obeys_dmultu (a b : UInt64) : Obeys dmultu a b (dmultu.apply a b) := by
  have hbound : a.toNat * b.toNat ≤ (2 ^ 64 - 1) * (2 ^ 64 - 1) :=
    Nat.mul_le_mul (Nat.le_pred_of_lt a.toNat_lt) (Nat.le_pred_of_lt b.toNat_lt)
  have hcast : (a.toNat : ℤ) * b.toNat = (a.toNat * b.toNat : ℕ) := (Int.natCast_mul _ _).symm
  obtain ⟨hhi, hlo⟩ := halves_ofDoubleProduct ((a.toNat : ℤ) * b.toNat)
  refine obeys_of_isProduct rfl (fun hw => by cases hw) ?_ ?_
  · show 0 ≤ (a.toNat : ℤ) * b.toNat ∧ (a.toNat : ℤ) * b.toNat < 0 + 2 ^ 128
    rw [hcast]
    omega
  · show ((HiLo.ofDoubleProduct ((a.toNat : ℤ) * b.toNat)).hi.toNat : ℤ) * 2 ^ 64 +
      ((HiLo.ofDoubleProduct ((a.toNat : ℤ) * b.toNat)).lo.toNat : ℤ) % 2 ^ 64 = (a.toNat : ℤ) * b.toNat
    rw [hhi, hlo, hcast]
    omega

/-! ## Quotients -/

/-- The integer in a register has room in the bits of an operand. -/
theorem fits_value (op : MultiplyOp) (v : UInt64) : op.Fits op.bits (op.value v) := by
  have hword := signedWord_eq v
  have hdouble := signedDouble_eq v
  have hlow := v.toUInt32.toNat_lt
  have hwhole := v.toNat_lt
  cases op <;> simp only [Fits, least, bits, value, isSigned, isWord] <;> norm_num <;> omega

/-- A quotient toward zero of an integer in `[-m, m)` leaves this interval only when the least integer of it is divided
by minus one. -/
theorem tdiv_mem_iff {x y m : ℤ} (_ : 0 < m) (hx : -m ≤ x ∧ x < m) :
    (-m ≤ x.tdiv y ∧ x.tdiv y < m) ↔ ¬ (x = -m ∧ y = -1) := by
  have habs : (x.tdiv y).natAbs ≤ x.natAbs := Int.natAbs_tdiv_le_natAbs x y
  constructor
  · rintro hq ⟨rfl, rfl⟩
    rw [Int.tdiv_neg, Int.tdiv_one] at hq
    omega
  · intro hne
    refine ⟨by omega, lt_of_not_ge fun hq => hne ?_⟩
    -- only the least integer is as large as the quotient
    have hleast : x = -m := by omega
    have hself : x.natAbs / y.natAbs = x.natAbs := (Int.natAbs_tdiv x y).symm.trans (by omega)
    have hunit : y.natAbs = 1 := (Nat.div_eq_self.mp hself).resolve_left (by omega)
    obtain rfl | rfl : y = 1 ∨ y = -1 := by omega
    · rw [Int.tdiv_one] at hq
      omega
    · exact ⟨hleast, rfl⟩

/-- Only one quotient has no room. -/
theorem fits_tdiv_iff (op : MultiplyOp) (a b : UInt64) :
    op.Fits op.bits ((op.value a).tdiv (op.value b)) ↔ ¬ op.Overflows a b := by
  have ha := op.fits_value a
  have hb := op.fits_value b
  unfold Overflows
  unfold Fits least at *
  cases hs : op.isSigned with
  | true =>
    have hpow : (2 : ℤ) ^ op.bits = 2 ^ (op.bits - 1) + 2 ^ (op.bits - 1) := by cases op <;> rfl
    simp only [hs, if_true, hpow, neg_add_cancel_left, true_and] at *
    exact tdiv_mem_iff (by positivity) ha
  | false =>
    simp only [hs, Bool.false_eq_true, if_false, false_and, not_false_eq_true, iff_true] at *
    have hle := Int.natAbs_tdiv_le_natAbs (op.value a) (op.value b)
    have hnonneg := Int.tdiv_nonneg ha.1 hb.1
    omega

/-- An operation with a sign reads the doubleword of a register that it has written. -/
theorem signedDouble_eq_value {v : UInt64} (hs : op.isSigned = true)
    (hextended : op.isWord = true → signedDouble v = signedWord v) : signedDouble v = op.value v := by
  cases op with
  | mult | div => exact hextended rfl
  | dmult | ddiv => rfl
  | multu | divu | dmultu | ddivu => cases hs

theorem eq_zero_of_signedDouble {v : UInt64} (hv : signedDouble v = 0) : v = 0 := by
  apply UInt64.toNat_inj.mp
  have := toNat_eq v
  rw [hv] at this
  exact_mod_cast this

/-- A division owes nothing that a product owes. -/
theorem obeys_of_division (hp : op.isProduct = false)
    (hextended : op.isWord = true → signedDouble h.hi = signedWord h.hi ∧ signedDouble h.lo = signedWord h.lo)
    (hquotient : op.value b ≠ 0 → ¬ op.Overflows a b → op.value h.lo = (op.value a).tdiv (op.value b))
    (hoverflow : op.Overflows a b → op.value h.lo = op.value a)
    (hremainder : op.value b ≠ 0 → op.value h.hi = (op.value a).tmod (op.value b))
    (hzero : op.value b = 0 →
      op.value h.hi = op.value a ∧ signedDouble h.lo = if op.value a < 0 then 1 else -1) :
    op.Obeys a b h where
  extended := hextended
  fits hm := absurd (hp.symm.trans hm) Bool.false_ne_true
  product hm := absurd (hp.symm.trans hm) Bool.false_ne_true
  division _ hb ho := by
    rw [hquotient hb ho, hremainder hb]
    refine ⟨(Int.tdiv_mul_add_tmod _ _).symm, ?_, ?_⟩
    · rw [Int.abs_eq_natAbs, Int.abs_eq_natAbs, Int.natAbs_tmod]
      exact_mod_cast Nat.mod_lt _ (Int.natAbs_pos.mpr hb)
    · rw [Int.sign_tmod, ← Int.sign_eq_zero_iff_zero, Int.sign_tmod]
      split
      · exact .inl rfl
      · exact .inr rfl
  room _ _ := op.fits_tdiv_iff a b
  overflow _ ho := by
    have hunit : op.value b = -1 := ho.2.2
    have hb : op.value b ≠ 0 := by omega
    have hrest : op.value h.hi = 0 := by
      rw [hremainder hb, hunit, Int.tmod_neg, Int.tmod_one]
    refine ⟨hoverflow ho, eq_zero_of_signedDouble ?_⟩
    exact (signedDouble_eq_value ho.1 fun hw => (hextended hw).1).trans hrest
  zero _ := hzero

/-- A quotient that wraps is exact, or it wraps to the dividend. -/
theorem bmod_tdiv (hs : op.isSigned = true) (a b : UInt64) :
    (¬ op.Overflows a b →
      ((op.value a).tdiv (op.value b)).bmod (2 ^ op.bits) = (op.value a).tdiv (op.value b)) ∧
    (op.Overflows a b → ((op.value a).tdiv (op.value b)).bmod (2 ^ op.bits) = op.value a) := by
  constructor
  · intro ho
    obtain ⟨hleast, hmost⟩ := (op.fits_tdiv_iff a b).mpr ho
    unfold least at hleast hmost
    rw [if_pos hs] at hleast hmost
    cases op with
    | mult | div | dmult | ddiv =>
      norm_num [bits, isWord] at hleast hmost
      exact Int.bmod_eq_of_le (by norm_num [bits, isWord]; omega) (by norm_num [bits, isWord]; omega)
    | multu | divu | dmultu | ddivu => cases hs
  · rintro ⟨-, ha, hb⟩
    rw [ha, hb, Int.tdiv_neg, Int.tdiv_one]
    cases op <;> rfl

/-- The quotient of a division with a sign wraps. -/
theorem obeys_of_signedDivision (hp : op.isProduct = false) (hs : op.isSigned = true)
    (hextended : op.isWord = true → signedDouble h.hi = signedWord h.hi ∧ signedDouble h.lo = signedWord h.lo)
    (hne : op.value b ≠ 0 → op.value h.lo = ((op.value a).tdiv (op.value b)).bmod (2 ^ op.bits) ∧
      op.value h.hi = (op.value a).tmod (op.value b))
    (hzero : op.value b = 0 →
      op.value h.hi = op.value a ∧ signedDouble h.lo = if op.value a < 0 then 1 else -1) :
    op.Obeys a b h := by
  obtain ⟨hexact, hwraps⟩ := bmod_tdiv hs a b
  refine obeys_of_division hp hextended (fun hb ho => (hne hb).1.trans (hexact ho)) (fun ho => ?_)
    (fun hb => (hne hb).2) hzero
  have hunit : op.value b = -1 := ho.2.2
  exact (hne (by omega)).1.trans (hwraps ho)

/-- A division by zero only sets the pair. -/
theorem obeys_of_zero (hp : op.isProduct = false) (hb : op.value b = 0)
    (hextended : op.isWord = true → signedDouble h.hi = signedWord h.hi ∧ signedDouble h.lo = signedWord h.lo)
    (hhi : op.value h.hi = op.value a) (hlo : signedDouble h.lo = if op.value a < 0 then 1 else -1) :
    op.Obeys a b h :=
  obeys_of_division hp hextended (fun hne => absurd hb hne) (fun ho => absurd (hb.symm.trans ho.2.2) (by decide))
    (fun hne => absurd hb hne) fun _ => ⟨hhi, hlo⟩

/-- One and minus one are words. -/
theorem signedDouble_unit :
    signedDouble (~~~0) = -1 ∧ signedWord (~~~0) = -1 ∧ signedDouble 1 = 1 ∧ signedWord 1 = 1 := by
  decide

theorem obeys_div (a b : UInt64) : Obeys div a b (div.apply a b) := by
  obtain ⟨hones, hones', hone, hone'⟩ := signedDouble_unit
  have hn : a.toUInt32.toInt32.toInt = div.value a := rfl
  have hd : b.toUInt32.toInt32.toInt = div.value b := rfl
  show Obeys div a b (divideWord a.toUInt32.toInt32 b.toUInt32.toInt32)
  generalize a.toUInt32.toInt32 = n at *
  generalize b.toUInt32.toInt32 = d at *
  have hnegative : n < 0 ↔ div.value a < 0 := hn ▸ Int32.lt_iff_toInt_lt
  unfold divideWord
  split_ifs with hzero hneg
  · have hb : div.value b = 0 := hd.symm.trans (congrArg Int32.toInt hzero)
    refine obeys_of_zero rfl hb (fun _ => ⟨signedDouble_eq_signedWord _, hone.trans hone'.symm⟩) ?_ ?_
    · exact (signedWord_extended n).trans hn
    · exact hone.trans (if_pos (hnegative.mp hneg)).symm
  · have hb : div.value b = 0 := hd.symm.trans (congrArg Int32.toInt hzero)
    refine obeys_of_zero rfl hb (fun _ => ⟨signedDouble_eq_signedWord _, hones.trans hones'.symm⟩) ?_ ?_
    · exact (signedWord_extended n).trans hn
    · exact hones.trans (if_neg (mt hnegative.mpr hneg)).symm
  · refine obeys_of_signedDivision rfl rfl (fun _ => ⟨signedDouble_eq_signedWord _, signedDouble_eq_signedWord _⟩)
      (fun _ => ⟨?_, ?_⟩) fun hb => ?_
    · rw [← hn, ← hd]
      exact (signedWord_extended _).trans (Int32.toInt_div n d)
    · rw [← hn, ← hd]
      exact (signedWord_extended _).trans (Int32.toInt_mod n d)
    · exact absurd (Int32.toInt_inj.mp ((hd.trans hb).trans Int32.toInt_zero.symm)) hzero

theorem obeys_divu (a b : UInt64) : Obeys divu a b (divu.apply a b) := by
  obtain ⟨hones, hones', -, -⟩ := signedDouble_unit
  have hnone : ¬ divu.Overflows a b := fun ho => by cases ho.1
  show Obeys divu a b (divideWordUnsigned a.toUInt32 b.toUInt32)
  unfold divideWordUnsigned
  split_ifs with hzero
  · have hb : divu.value b = 0 := congrArg (fun w => Int.ofNat (UInt32.toNat w)) hzero
    refine obeys_of_zero rfl hb (fun _ => ⟨signedDouble_eq_signedWord _, hones.trans hones'.symm⟩) ?_ ?_
    · exact toNat_ofWord _
    · exact hones.trans (if_neg (Int.natCast_nonneg _).not_gt).symm
  · refine obeys_of_division rfl (fun _ => ⟨signedDouble_eq_signedWord _, signedDouble_eq_signedWord _⟩)
      (fun _ _ => ?_) (fun ho => absurd ho hnone) (fun _ => ?_) fun hb => ?_
    · exact (toNat_ofWord _).trans (congrArg Int.ofNat (UInt32.toNat_div _ _))
    · exact (toNat_ofWord _).trans (congrArg Int.ofNat (UInt32.toNat_mod _ _))
    · exact absurd (UInt32.toNat_inj.mp (Int.natCast_eq_zero.mp hb)) hzero

theorem obeys_ddiv (a b : UInt64) : Obeys ddiv a b (ddiv.apply a b) := by
  obtain ⟨hones, -, hone, -⟩ := signedDouble_unit
  have hnegative : a.toInt64 < 0 ↔ ddiv.value a < 0 := Int64.lt_iff_toInt_lt
  show Obeys ddiv a b (divideDouble a.toInt64 b.toInt64)
  unfold divideDouble
  split_ifs with hzero hneg
  · exact obeys_of_zero rfl (congrArg Int64.toInt hzero) (fun hw => by cases hw) rfl
      (hone.trans (if_pos (hnegative.mp hneg)).symm)
  · exact obeys_of_zero rfl (congrArg Int64.toInt hzero) (fun hw => by cases hw) rfl
      (hones.trans (if_neg (mt hnegative.mpr hneg)).symm)
  · refine obeys_of_signedDivision rfl rfl (fun hw => by cases hw) (fun _ => ⟨?_, ?_⟩) fun hb => ?_
    · exact Int64.toInt_div _ _
    · exact Int64.toInt_mod _ _
    · exact absurd (Int64.toInt_inj.mp (Eq.trans hb Int64.toInt_zero.symm)) hzero

theorem obeys_ddivu (a b : UInt64) : Obeys ddivu a b (ddivu.apply a b) := by
  have hnone : ¬ ddivu.Overflows a b := fun ho => by cases ho.1
  show Obeys ddivu a b (divideDoubleUnsigned a b)
  unfold divideDoubleUnsigned
  split_ifs with hzero
  · have hb : ddivu.value b = 0 := congrArg (fun v => Int.ofNat (UInt64.toNat v)) hzero
    exact obeys_of_zero rfl hb (fun hw => by cases hw) rfl
      (signedDouble_unit.1.trans (if_neg (Int.natCast_nonneg _).not_gt).symm)
  · refine obeys_of_division rfl (fun hw => by cases hw) (fun _ _ => ?_) (fun ho => absurd ho hnone) (fun _ => ?_)
      fun hb => ?_
    · exact congrArg Int.ofNat (UInt64.toNat_div a b)
    · exact congrArg Int.ofNat (UInt64.toNat_mod a b)
    · exact absurd (UInt64.toNat_inj.mp (Int.natCast_eq_zero.mp hb)) hzero

theorem obeys_apply (op : MultiplyOp) (a b : UInt64) : op.Obeys a b (op.apply a b) := by
  cases op with
  | mult => exact obeys_mult a b
  | multu => exact obeys_multu a b
  | div => exact obeys_div a b
  | divu => exact obeys_divu a b
  | dmult => exact obeys_dmult a b
  | dmultu => exact obeys_dmultu a b
  | ddiv => exact obeys_ddiv a b
  | ddivu => exact obeys_ddivu a b

end MultiplyOp

open MultiplyOp

/-- **The unit obeys integer arithmetic** for all contents of two registers: an instruction of it completes and writes
only HI and LO, and what these read back obeys the equations of its operation. -/
theorem multiply_divide_exact (op : MultiplyOp) :
    (∀ a b, op.Obeys a b (op.apply a b)) ∧
    ∀ (c : Cpu) (rs rt rd : Reg), ∃ h,
      c.plan (.multiply op rs rt) = .ok { effect := .hilo h } ∧
      (c.apply (.hilo h)).plan (.readHiLo .hi rd) = .ok { effect := .register rd h.hi } ∧
      (c.apply (.hilo h)).plan (.readHiLo .lo rd) = .ok { effect := .register rd h.lo } ∧
      op.Obeys (c.regs.get rs) (c.regs.get rt) h :=
  ⟨op.obeys_apply, fun _ _ _ _ => ⟨_, rfl, rfl, rfl, op.obeys_apply _ _⟩⟩

end Vr4300
