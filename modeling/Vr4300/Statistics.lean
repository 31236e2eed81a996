import Vr4300.FloatingPoint.Nearest
import Vr4300.Text.Decimal

/-!
# Statistics

Counters of what the machine did since its last reset, and a report on them. The report has sections;
a reader may ask for some of them by name.

## Contents

* `Statistics`: the counters.
* `StatisticsSection`: the sections of the report, in their order.
* `Statistics.report`: the lines of the report.
-/

namespace Vr4300

/-- Counters since the last reset. -/
structure Statistics where
  /-- Cycles elapsed. -/
  cycles : Nat := 0
  /-- Instructions executed. -/
  instructions : Nat := 0
  /-- Instructions that were interpreted. -/
  interpretedOps : Nat := 0
  /-- Instructions that ran from a fragment. -/
  compiledOps : Nat := 0
  /-- Traces that became fragments. -/
  fragmentsCompiled : Nat := 0
  /-- Times a fragment was entered. -/
  fragmentRuns : Nat := 0
  /-- Fragment runs that left before their last operation. -/
  bailouts : Nat := 0
  /-- Fragments that an invalidation dropped. -/
  invalidatedFragments : Nat := 0
  /-- Exceptions taken, interrupts apart. -/
  exceptions : Nat := 0
  /-- Interrupts taken. -/
  interrupts : Nat := 0
  /-- Cycles that idle loops were forwarded by. -/
  idleCyclesSkipped : Nat := 0
deriving DecidableEq, Repr, Inhabited

/-- The sections of a report. -/
inductive StatisticsSection where
  /-- Totals. -/
  | summary
  /-- How instructions were executed. -/
  | execution
  /-- The life of fragments. -/
  | recompiler
  /-- Exceptions and interrupts. -/
  | exceptions
deriving DecidableEq, Repr, Inhabited

namespace StatisticsSection

/-- The sections in the order of the report. -/
def all : List StatisticsSection := [summary, execution, recompiler, exceptions]

/-- The name by which a section is asked for. -/
def name : StatisticsSection → String
  | summary => "summary"
  | execution => "execution"
  | recompiler => "dynarec"
  | exceptions => "exceptions"

end StatisticsSection

namespace Statistics

open FloatingPoint

/-- A share of a total in percent, computed in double precision: one rounding for the quotient and one
for the factor. Nothing is zero percent of nothing. -/
def percentage (n total : Nat) : Rat :=
  if total = 0 then 0
  else
    let f := Format.double
    let ratio := f.div (f.nearest false n) (f.nearest false total)
    (f.mul ratio (f.nearest false 100)).toRat?.getD 0

/-- The line above and below the report. -/
def banner : String := String.ofList (List.replicate 58 '=')

/-- The line below a section. -/
def rule : String := String.ofList (List.replicate 58 '-')

/-- A counter with its label. -/
def entry (label : String) (n : Nat) : String :=
  Text.leftAligned 25 label ++ toString n

/-- A counter with its label and its share of the executed instructions. -/
def shareEntry (s : Statistics) (label : String) (n : Nat) : String :=
  let percent := Text.fixedPoint 2 (percentage n (s.interpretedOps + s.compiledOps))
  Text.leftAligned 25 label ++ Text.leftAligned 10 (toString n) ++ " (" ++ percent ++ "%)"

/-- The lines of a section. -/
def sectionLines (s : Statistics) : StatisticsSection → List String
  | .summary => [entry "sim_cycles" s.cycles, entry "sim_insts" s.instructions, rule]
  | .execution =>
    ["EXECUTION", s.shareEntry "  interpreted" s.interpretedOps,
      s.shareEntry "  compiled" s.compiledOps, rule]
  | .recompiler =>
    ["DYNAREC", entry "  fragments.compiled" s.fragmentsCompiled,
      entry "  fragments.runs" s.fragmentRuns, entry "  fragments.bailouts" s.bailouts,
      entry "  fragments.invalidated" s.invalidatedFragments, rule]
  | .exceptions =>
    ["EXCEPTIONS", entry "  exceptions" s.exceptions, entry "  interrupts" s.interrupts,
      entry "  idle_cycles_skipped" s.idleCyclesSkipped]

/-- The lines of a report with the sections that are asked for by name, or with all of them if no name
is given. Names that no section has are ignored. -/
def report (s : Statistics) (names : List String) : List String :=
  let wanted := StatisticsSection.all.filter fun t => names.isEmpty || names.contains t.name
  [banner, "VR4300 CORE STATISTICS", banner] ++ wanted.flatMap s.sectionLines ++ [banner]

end Statistics

end Vr4300
