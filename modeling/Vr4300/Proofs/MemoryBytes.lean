import Vr4300.Memory.Ram

/-!
# `Proofs.MemoryBytes` — main memory is an array of bytes

Numbers of one to eight bytes are read and written there with the most significant byte first. A write changes the
bytes that it covers, each to one digit of the number, and a read puts the digits together again.

## Contents

* `Bytes.digit`: a byte of a number; `getLsbD_digit`, `digit_blend`;
* `assemble`: a number from its bytes (`getLsbD_of_digits`);
* `digit_read`, `byteAt_write`: reads and writes by digits;
* `Ram.byteAt`, with `Ram.digit_read`, `Ram.byteAt_write`.
-/

namespace Vr4300

/-- A byte with the bits of a mask replaced. -/
def blendByte (old new mask : UInt8) : UInt8 := (old &&& ~~~mask) ||| (new &&& mask)

namespace Bytes

/-- The byte at a place of a number of `n` bytes, of which the most significant one is at place zero. -/
def digit (n place : Nat) (v : UInt64) : UInt8 := (v >>> UInt64.ofNat (8 * (n - 1 - place))).toUInt8

variable {n : Nat}

/-- The bits of a byte of a number. -/
theorem getLsbD_digit (hn : n ≤ 8) {place bit : Nat} (hbit : bit < 8) (v : UInt64) :
    (digit n place v).toBitVec.getLsbD bit = v.toBitVec.getLsbD (8 * (n - 1 - place) + bit) := by
  have hshift : 8 * (n - 1 - place) % 64 = 8 * (n - 1 - place) := Nat.mod_eq_of_lt (by omega)
  unfold digit
  simp [hbit, hshift]

/-- The bytes of a blended number are the blended bytes. -/
theorem digit_blend (hn : n ≤ 8) (place : Nat) (old new mask : UInt64) :
    digit n place (blend old new mask) = blendByte (digit n place old) (digit n place new) (digit n place mask) := by
  apply UInt8.toBitVec_inj.mp
  apply BitVec.eq_of_getLsbD_eq
  intro bit hbit
  have hwhole : 8 * (n - 1 - place) + bit < 64 := by omega
  rw [getLsbD_digit hn hbit]
  unfold blend blendByte
  simp only [UInt64.toBitVec_or, UInt64.toBitVec_and, UInt64.toBitVec_not, UInt8.toBitVec_or, UInt8.toBitVec_and,
    UInt8.toBitVec_not, BitVec.getLsbD_or, BitVec.getLsbD_and, BitVec.getLsbD_not, getLsbD_digit hn hbit, hbit, hwhole]

/-! ## Reading -/

/-- A digit more moves the others up. -/
theorem getLsbD_push (digits : UInt64) (v : UInt8) {bit : Nat} (hbit : bit < 64) :
    ((digits <<< 8) ||| v.toUInt64).toBitVec.getLsbD bit =
      if bit < 8 then v.toBitVec.getLsbD bit else digits.toBitVec.getLsbD (bit - 8) := by
  by_cases hlow : bit < 8
  · simp [hbit, hlow]
  · have hhigh := BitVec.getLsbD_of_ge v.toBitVec bit (by omega)
    simp [hbit, hlow, hhigh, BitVec.getLsbD_eq_getElem (show bit - 8 < 64 by omega)]

/-- **The bits of a number that is read**, behind the digits read so far. -/
theorem getLsbD_readFrom (b : ByteArray) (n : Nat) :
    ∀ (i : Nat) (digits : UInt64) {bit : Nat}, bit < 64 →
      (readFrom b n i digits).toBitVec.getLsbD bit =
        if bit < 8 * n then (byteAt b (i + (n - 1 - bit / 8))).toBitVec.getLsbD (bit % 8)
        else digits.toBitVec.getLsbD (bit - 8 * n) := by
  induction n with
  | zero => simp [readFrom]
  | succ n ih =>
    intro i digits bit hbit
    unfold readFrom
    rw [ih _ _ hbit]
    by_cases hlow : bit < 8 * n
    -- a byte behind the first one
    · rw [if_pos hlow, if_pos (by omega), show i + 1 + (n - 1 - bit / 8) = i + (n + 1 - 1 - bit / 8) by omega]
    · rw [if_neg hlow, getLsbD_push _ _ (by omega)]
      by_cases hfirst : bit < 8 * (n + 1)
      · rw [if_pos (by omega), if_pos hfirst, show i + (n + 1 - 1 - bit / 8) = i by omega,
          show bit - 8 * n = bit % 8 by omega]
      · rw [if_neg (by omega), if_neg hfirst, show bit - 8 * n - 8 = bit - 8 * (n + 1) by omega]

/-- **The bytes of a number that is read** are the bytes of memory. -/
theorem digit_read (b : ByteArray) (hn : n ≤ 8) (i : Nat) {place : Nat} (hplace : place < n) :
    digit n place (read b n i) = byteAt b (i + place) := by
  apply UInt8.toBitVec_inj.mp
  apply BitVec.eq_of_getLsbD_eq
  intro bit hbit
  unfold read
  rw [getLsbD_digit hn hbit, getLsbD_readFrom _ _ _ _ (by omega), if_pos (by omega),
    show i + (n - 1 - (8 * (n - 1 - place) + bit) / 8) = i + place by omega,
    show (8 * (n - 1 - place) + bit) % 8 = bit by omega]

/-! ## Assembling -/

/-- The number of the first `n` of some bytes, of which the first one is the most significant. -/
def assemble (byte : Nat → UInt8) : Nat → UInt64
  | 0 => 0
  | n + 1 => (assemble byte n <<< 8) ||| (byte n).toUInt64

theorem getLsbD_assemble (byte : Nat → UInt8) (n : Nat) :
    ∀ {bit : Nat}, bit < 64 → bit < 8 * n →
      (assemble byte n).toBitVec.getLsbD bit = (byte (n - 1 - bit / 8)).toBitVec.getLsbD (bit % 8) := by
  induction n with
  | zero => exact fun _ h => absurd h (Nat.not_lt_zero _)
  | succ n ih =>
    intro bit hbit hin
    unfold assemble
    rw [getLsbD_push _ _ hbit]
    by_cases hlast : bit < 8
    · rw [if_pos hlast, show n + 1 - 1 - bit / 8 = n by omega, Nat.mod_eq_of_lt hlast]
    · rw [if_neg hlast, ih (by omega) (by omega), show n - 1 - (bit - 8) / 8 = n + 1 - 1 - bit / 8 by omega,
        show (bit - 8) % 8 = bit % 8 by omega]

/-- **The bytes of a number** determine its bits. -/
theorem getLsbD_of_digits (hn : n ≤ 8) {byte : Nat → UInt8} {v : UInt64} (h : ∀ i < n, digit n i v = byte i)
    {bit : Nat} (hbit : bit < 8 * n) : v.toBitVec.getLsbD bit = (assemble byte n).toBitVec.getLsbD bit := by
  have hplace : 8 * (n - 1 - (n - 1 - bit / 8)) + bit % 8 = bit := by omega
  rw [getLsbD_assemble byte n (by omega) hbit, ← h (n - 1 - bit / 8) (by omega), getLsbD_digit hn (by omega), hplace]

/-! ## Writing -/

/-- **The bytes of memory** behind a write are those of the number, where it was written. -/
theorem byteAt_write (n : Nat) :
    ∀ (b : ByteArray) (i : Nat) (v : UInt64), i + n ≤ b.size → ∀ j,
      byteAt (write b n i v) j = if i ≤ j ∧ j < i + n then digit n (j - i) v else byteAt b j := by
  induction n with
  | zero =>
    intro b i v _ j
    rw [if_neg (by omega)]
    rfl
  | succ n ih =>
    intro b i v hsize j
    unfold write
    rw [ih _ _ _ (by rw [size_put]; omega)]
    by_cases hrest : i + 1 ≤ j ∧ j < i + 1 + n
    · rw [if_pos hrest, if_pos (by omega)]
      unfold digit
      rw [show n - 1 - (j - (i + 1)) = n + 1 - 1 - (j - i) by omega]
    · rw [if_neg hrest]
      by_cases hfirst : j = i
      · subst hfirst
        rw [byteAt_put_self _ _ (by omega), if_pos (by omega), Nat.sub_self]
        rfl
      · rw [byteAt_put_of_ne _ _ (Ne.symm hfirst), if_neg (by omega)]

end Bytes

namespace Ram

/-- The byte at a physical address. -/
def byteAt (r : Ram) (p : Nat) : UInt8 := Bytes.byteAt r.bytes p

/-- The access lies wholly inside main memory. -/
def Within (r : Ram) (w : Width) (p : UInt64) : Prop := p.toNat + w.bytes ≤ r.size

instance (r : Ram) (w : Width) (p : UInt64) : Decidable (r.Within w p) :=
  inferInstanceAs (Decidable (p.toNat + w.bytes ≤ r.size))

variable {r : Ram} {w : Width} {p : UInt64}

/-- **What is read** is in the bytes from the address on. -/
theorem digit_read (h : r.Within w p) {place : Nat} (hplace : place < w.bytes) :
    Bytes.digit w.bytes place (r.read w p) = r.byteAt (p.toNat + place) := by
  have hwidth : w.bytes ≤ 8 := by cases w <;> decide
  unfold read
  rw [show r.holds w p = true from decide_eq_true h, if_pos rfl]
  exact Bytes.digit_read r.bytes hwidth _ hplace

/-- **What is written** changes the bytes from the address on, and no others. -/
theorem byteAt_write (h : r.Within w p) (v : UInt64) (q : Nat) :
    (r.write w p v).byteAt q =
      if p.toNat ≤ q ∧ q < p.toNat + w.bytes then Bytes.digit w.bytes (q - p.toNat) v else r.byteAt q := by
  unfold write
  rw [show r.holds w p = true from decide_eq_true h, if_pos rfl]
  exact Bytes.byteAt_write _ _ _ _ h q

end Ram

end Vr4300
