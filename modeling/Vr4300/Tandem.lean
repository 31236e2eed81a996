import Vr4300.Cpu.Step

/-!
# The processor and the vector unit

The vector unit makes one step for every instruction of the processor. All that is seen of it is the
external interrupt line.

## Contents

* `VectorUnit`, `Tandem`, `Tandem.stepVector`.
-/

namespace Vr4300

/-- The vector unit, as far as the processor sees it. -/
structure VectorUnit where
  /-- The level to which a step sets the interrupt line, if it does. Steps are counted from one. -/
  drive : Nat → Option Bool := fun _ => none
  /-- The steps made. -/
  steps : Nat := 0

instance : Inhabited VectorUnit := ⟨{}⟩

/-- The processor together with the vector unit. -/
structure Tandem where
  /-- The processor. -/
  cpu : Cpu
  /-- The vector unit. -/
  vector : VectorUnit := {}
deriving Inhabited

namespace Tandem

/-- Changes the processor. -/
def onCpu (t : Tandem) (f : Cpu → Cpu) : Tandem :=
  let ⟨cpu, vector⟩ := t
  ⟨f cpu, vector⟩

/-- Makes a step of the vector unit. -/
def stepVector (t : Tandem) : Tandem :=
  let ⟨cpu, vector⟩ := t
  let steps := vector.steps + 1
  let cpu :=
    match vector.drive steps with
    | none => cpu
    | some level => { cpu with line := level }
  ⟨cpu, { vector with steps := steps }⟩

/-- Changes the counters. -/
def count (t : Tandem) (f : Statistics → Statistics) : Tandem :=
  t.onCpu fun c =>
    let statistics := c.statistics
    { c with statistics := f statistics }

end Tandem

end Vr4300
