/-!
# Configuration

What is chosen before a machine is built: where it starts, how much memory it has, the reset values of
two control registers, and how eagerly it records fragments.
-/

namespace Vr4300

/-- General settings. -/
structure GeneralSettings where
  /-- Trace every executed instruction. -/
  traceInstructions : Bool := false
  /-- The address of the first instruction; by default the boot code that a cartridge starts with. -/
  startPc : UInt64 := 0xFFFFFFFFA4000040
  /-- Forward time through loops that do nothing. -/
  idleLoopSkip : Bool := true
deriving DecidableEq, Repr, Inhabited

/-- Main memory. -/
structure MemorySettings where
  /-- The size in bytes. -/
  ramSize : UInt64 := 0x800000
deriving DecidableEq, Repr, Inhabited

/-- The reset values of the processor. -/
structure ProcessorSettings where
  /-- Status after a reset; by default the coprocessors 0 and 1 are usable and the full register view
  is selected. -/
  initialStatus : UInt64 := 0x34000000
  /-- Config after a reset. -/
  initialConfig : UInt64 := 0x7006E463
deriving DecidableEq, Repr, Inhabited

/-- How fragments are recorded. -/
structure RecompilerSettings where
  /-- Fragments are recorded and run. -/
  enabled : Bool := true
  /-- The landings at an address after which the next one starts a recording. -/
  hotThreshold : UInt32 := 500
  /-- The number of operations after which a recording ends. -/
  maxFragmentOps : UInt64 := 250
deriving DecidableEq, Repr, Inhabited

/-- The configuration of a machine. -/
structure Configuration where
  /-- General settings. -/
  general : GeneralSettings := {}
  /-- Main memory. -/
  memory : MemorySettings := {}
  /-- The processor. -/
  cpu : ProcessorSettings := {}
  /-- Fragments. -/
  recompiler : RecompilerSettings := {}
deriving DecidableEq, Repr, Inhabited

end Vr4300
