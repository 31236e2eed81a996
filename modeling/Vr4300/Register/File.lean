import Vr4300.Word

/-!
# Register files

Thirty-two cells under register numbers. Each bank of registers stores its values in one and adds its
own rules of reading and writing.

## Contents

* `RegisterFile`, with `read` and `write`.
* `read_write_self`, `read_write_of_ne`: a write is seen at its register and nowhere else.
-/

namespace Vr4300

/-- Thirty-two cells, one for each register number. -/
abbrev RegisterFile (α : Type) := Vector α 32

namespace RegisterFile

variable {α : Type}

/-- The file whose cells all hold `v`. -/
def filled (v : α) : RegisterFile α :=
  Vector.replicate 32 v

/-- What the cell of register `r` holds. -/
def read (f : RegisterFile α) (r : Reg) : α :=
  GetElem.getElem f r.val r.isLt

/-- The file with `v` in the cell of register `r`. -/
def write (f : RegisterFile α) (r : Reg) (v : α) : RegisterFile α :=
  Vector.set f r.val v r.isLt

@[simp] theorem read_filled (v : α) (r : Reg) : (filled v).read r = v := by
  simp [read, filled]

@[simp] theorem read_write_self (f : RegisterFile α) (r : Reg) (v : α) : (f.write r v).read r = v := by
  simp [read, write]

theorem read_write_of_ne (f : RegisterFile α) {r s : Reg} (v : α) (h : r ≠ s) :
    (f.write r v).read s = f.read s := by
  have : r.val ≠ s.val := fun e => h (Fin.ext e)
  simp [read, write, this]

end RegisterFile

end Vr4300
