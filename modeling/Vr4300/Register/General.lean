import Vr4300.Register.File
import Vr4300.Text.Hex

/-!
# General registers

Thirty-two registers of 64 bits, of which register zero is always zero.
-/

namespace Vr4300

/-- The general register file. -/
structure GeneralRegisters where
  /-- The values as stored; the first one is never read. -/
  values : RegisterFile UInt64 := .filled 0
deriving DecidableEq, Repr, Inhabited

namespace GeneralRegisters

/-- The value of a register. -/
def get (g : GeneralRegisters) (r : Reg) : UInt64 :=
  if r = 0 then 0 else g.values.read r

/-- Writes a register; writes to register zero are dropped. -/
def set (g : GeneralRegisters) (r : Reg) (v : UInt64) : GeneralRegisters :=
  if r = 0 then g else ⟨g.values.write r v⟩

@[simp] theorem get_zero (g : GeneralRegisters) : g.get 0 = 0 := by
  simp [get]

@[simp] theorem set_zero (g : GeneralRegisters) (v : UInt64) : g.set 0 v = g := by
  simp [set]

theorem get_set_self (g : GeneralRegisters) {r : Reg} (v : UInt64) (h : r ≠ 0) :
    (g.set r v).get r = v := by
  simp [get, set, h]

theorem get_set_of_ne (g : GeneralRegisters) {r s : Reg} (v : UInt64) (h : r ≠ s) :
    (g.set r v).get s = g.get s := by
  by_cases hr : r = 0
  · simp [set, hr]
  · simp [get, set, hr, RegisterFile.read_write_of_ne _ _ h]

/-- The conventional names of the registers. -/
def names : RegisterFile String :=
  #v["zero", "at", "v0", "v1", "a0", "a1", "a2", "a3", "t0", "t1", "t2", "t3", "t4", "t5", "t6",
    "t7", "s0", "s1", "s2", "s3", "s4", "s5", "s6", "s7", "t8", "t9", "k0", "k1", "gp", "sp", "fp",
    "ra"]

/-- One register of a listing: its name, right-aligned in four columns, and its value in full. -/
def entry (g : GeneralRegisters) (r : Reg) : String :=
  let name := names.read r
  String.ofList (List.replicate (4 - name.length) ' ') ++ name ++ "=" ++
    Text.paddedHex 16 (g.get r).toNat

/-- All registers, two to a line. -/
def listing (g : GeneralRegisters) : String :=
  String.join ((List.range 16).map fun i =>
    g.entry (Fin.ofNat 32 (2 * i)) ++ " " ++ g.entry (Fin.ofNat 32 (2 * i + 1)) ++ "\n")

end GeneralRegisters

end Vr4300
