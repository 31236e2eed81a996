import Vr4300.Access

/-!
# Main memory

Main memory is a block of bytes from physical address zero, accessed big-endian. An access that does
not lie wholly inside reads zero or is dropped.

## Contents

* `Bytes`: big-endian numbers in an array of bytes.
* `Ram`: reads and writes of every width, and bulk copies.
-/

namespace Vr4300

namespace Bytes

/-- The byte at a position, or zero beyond the end. -/
def byteAt (b : ByteArray) (i : Nat) : UInt8 :=
  if h : i < b.size then b.get i h else 0

/-- Replaces the byte at a position; nothing happens beyond the end. -/
def put (b : ByteArray) (i : Nat) (v : UInt8) : ByteArray :=
  if h : i < b.size then b.set i v h else b

theorem byteAt_eq_getD (b : ByteArray) (i : Nat) : byteAt b i = b.data[i]?.getD 0 := by
  obtain ⟨a⟩ := b
  by_cases h : i < a.size
  · exact (dif_pos h).trans (show a[i] = a[i]?.getD 0 by simp [h])
  · exact (dif_neg h).trans (by simp [h])

theorem data_put (b : ByteArray) (i : Nat) (v : UInt8) :
    (put b i v).data = b.data.setIfInBounds i v := by
  obtain ⟨a⟩ := b
  by_cases h : i < a.size
  · exact (congrArg ByteArray.data (dif_pos h)).trans (by simp [ByteArray.set, Array.setIfInBounds, h])
  · exact (congrArg ByteArray.data (dif_neg h)).trans (by simp [Array.setIfInBounds, h])

@[simp] theorem size_put (b : ByteArray) (i : Nat) (v : UInt8) : (put b i v).size = b.size :=
  (congrArg Array.size (data_put b i v)).trans Array.size_setIfInBounds

theorem byteAt_put_self (b : ByteArray) {i : Nat} (v : UInt8) (h : i < b.size) :
    byteAt (put b i v) i = v := by
  have h : i < b.data.size := h
  rw [byteAt_eq_getD, data_put, Array.getElem?_setIfInBounds_self_of_lt h]
  rfl

theorem byteAt_put_of_ne (b : ByteArray) {i j : Nat} (v : UInt8) (h : i ≠ j) :
    byteAt (put b i v) j = byteAt b j := by
  rw [byteAt_eq_getD, byteAt_eq_getD, data_put, Array.getElem?_setIfInBounds_ne h]

/-- The big-endian number in `n` bytes from a position, behind the digits read so far. -/
def readFrom (b : ByteArray) : Nat → Nat → UInt64 → UInt64
  | 0, _, digits => digits
  | n + 1, i, digits => readFrom b n (i + 1) ((digits <<< 8) ||| (Bytes.byteAt b i).toUInt64)

/-- The big-endian number in `n` bytes from a position. -/
def read (b : ByteArray) (n i : Nat) : UInt64 :=
  readFrom b n i 0

/-- Writes the low `n` bytes of a number from a position on, the most significant one first. -/
def write (b : ByteArray) : Nat → Nat → UInt64 → ByteArray
  | 0, _, _ => b
  | n + 1, i, v => write (put b i (v >>> UInt64.ofNat (8 * n)).toUInt8) n (i + 1) v

@[simp] theorem size_write (b : ByteArray) (n i : Nat) (v : UInt64) : (write b n i v).size = b.size := by
  induction n generalizing b i with
  | zero => rfl
  | succ n ih => simp [write, ih]

/-- Words as bytes, the most significant byte of each first. -/
def ofWords (words : List UInt32) : List UInt8 :=
  words.flatMap fun (w : UInt32) =>
    [(w >>> 24).toUInt8, (w >>> 16).toUInt8, (w >>> 8).toUInt8, w.toUInt8]

/-- An array of zeros, doubled as often as needed. -/
def zeros (n : Nat) : ByteArray :=
  if n = 0 then ByteArray.empty
  else
    let half := zeros (n / 2)
    let whole := half ++ half
    if n % 2 = 0 then whole else whole.push 0
termination_by n

@[simp] theorem size_zeros (n : Nat) : (zeros n).size = n := by
  fun_induction zeros n with
  | case1 => rfl
  | case2 n _ half whole heven ih =>
    rw [ByteArray.size_append, ih]
    omega
  | case3 n _ half whole hodd ih =>
    rw [ByteArray.size_push, ByteArray.size_append, ih]
    omega

/-- Copies bytes to a position; those past the end are dropped. -/
def copyTo (b : ByteArray) (offset : Nat) (data : List UInt8) : ByteArray :=
  match data with
  | [] => b
  | v :: rest => copyTo (put b offset v) (offset + 1) rest

@[simp] theorem size_copyTo (b : ByteArray) (offset : Nat) (data : List UInt8) :
    (copyTo b offset data).size = b.size := by
  induction data generalizing b offset with
  | nil => rfl
  | cons v rest ih => simp [copyTo, ih]

end Bytes

/-- Main memory. -/
structure Ram where
  /-- The bytes, from physical address zero. -/
  bytes : ByteArray
deriving Inhabited

namespace Ram

/-- Cleared memory of a size. -/
def zeros (size : Nat) : Ram := ⟨Bytes.zeros size⟩

/-- The size in bytes. -/
def size (r : Ram) : Nat := r.bytes.size

@[simp] theorem size_zeros (n : Nat) : (zeros n).size = n := Bytes.size_zeros n

/-- The access lies wholly inside. -/
def holds (r : Ram) (w : Width) (offset : UInt64) : Bool :=
  offset.toNat + w.bytes ≤ r.size

/-- Reads a number, or zero if the access is not wholly inside. -/
def read (r : Ram) (w : Width) (offset : UInt64) : UInt64 :=
  if r.holds w offset then Bytes.read r.bytes w.bytes offset.toNat else 0

/-- Writes a number; an access that is not wholly inside is dropped. -/
def write (r : Ram) (w : Width) (offset v : UInt64) : Ram :=
  if r.holds w offset then ⟨Bytes.write r.bytes w.bytes offset.toNat v⟩ else r

@[simp] theorem size_write (r : Ram) (w : Width) (offset v : UInt64) :
    (r.write w offset v).size = r.size := by
  unfold write
  split <;> simp [size]

/-- Copies bytes to an offset; those past the end are dropped. -/
def load (r : Ram) (offset : Nat) (data : List UInt8) : Ram :=
  ⟨Bytes.copyTo r.bytes offset data⟩

@[simp] theorem size_load (r : Ram) (offset : Nat) (data : List UInt8) :
    (r.load offset data).size = r.size := by
  simp [load, size]

/-- The bytes of a range, or none if it is not wholly inside. -/
def slice (r : Ram) (offset len : Nat) : ByteArray :=
  if offset + len ≤ r.size then r.bytes.extract offset (offset + len) else ByteArray.empty

end Ram

end Vr4300
