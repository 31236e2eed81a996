import Vr4300.Trap

/-!
# Decode tables

A group of instructions is told apart by one field of the word, so a table for the group has an entry
for every value of that field.

## Contents

* `DecodeGroup`, with its name and the size of its table.
* `DecodeGroup.table`: a table of the right size from a list of entries.
* `DecodeGroup.listing`: the groups as text.
-/

namespace Vr4300

/-- The groups of instructions. -/
inductive DecodeGroup where
  /-- By the primary opcode. -/
  | primary
  /-- By the function field. -/
  | special
  /-- By the selector of the register-immediate group. -/
  | registerImmediate
  /-- By the selector of the system control coprocessor. -/
  | system
  /-- By the selector or format of the floating-point unit. -/
  | float
  /-- By the selector of the third coprocessor. -/
  | latch
deriving DecidableEq, Repr, Inhabited

namespace DecodeGroup

/-- The groups, in order. -/
def all : List DecodeGroup := [primary, special, registerImmediate, system, float, latch]

/-- The name of a table. -/
def name : DecodeGroup → String
  | primary => "main"
  | special => "special"
  | registerImmediate => "regimm"
  | system => "cop0"
  | float => "cop1"
  | latch => "cop2"

/-- The width of the field that tells the instructions of the group apart. -/
def fieldBits : DecodeGroup → Nat
  | primary | special => 6
  | registerImmediate | system | float | latch => 5

/-- The number of entries of a table. -/
def size (g : DecodeGroup) : Nat := Nat.pow 2 g.fieldBits

/-- The table of a group from the list of its entries, which must be of the right length. -/
def table {α : Type} (g : DecodeGroup) (entries : List α) : Except FatalError (Vector α g.size) :=
  if h : entries.length = g.size then .ok ⟨entries.toArray, by simp [h]⟩
  else .error (.decodeTableSize g.name g.size entries.length)

/-- The groups and their sizes as text, with whether the floating-point unit is usable. -/
def listing (floatUsable : Bool) : String :=
  let sizes := ", ".intercalate (all.map fun g => s!"{g.name}: {g.size}")
  "DispatchTables \x7b " ++ s!"{sizes}, cop1_usable: {floatUsable}" ++ " \x7d"

end DecodeGroup

end Vr4300
