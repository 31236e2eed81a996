import Vr4300.Instruction.Kind

/-!
# Fragments

A fragment is a straight trace of instructions that were executed one after the other, decoded in
advance. It is entered at the address of the first one only. Its addresses need not be consecutive: a
trace follows the branches that were taken when it was recorded.

## Contents

* `RecordedOp`, `FragmentOp`, `Fragment`, `Fragment.compile`.
* `addressRuns`: the ranges of addresses that a fragment covers.
* `codeLines`: the cache lines that it was read from.
-/

namespace Vr4300

/-- An executed instruction, as it is recorded. -/
structure RecordedOp where
  /-- Its address. -/
  address : UInt64
  /-- The instruction word. -/
  word : UInt32
  /-- It was executed in a delay slot. -/
  inDelaySlot : Bool
deriving DecidableEq, Repr, Inhabited

/-- An operation of a fragment: a recorded instruction, decoded. -/
structure FragmentOp extends RecordedOp where
  /-- The instruction. -/
  instruction : Instruction := .decode word
  /-- It is what the word says. -/
  instruction_eq : instruction = .decode word := by rfl

/-- The operation of a recorded instruction. -/
def FragmentOp.ofRecorded (r : RecordedOp) : FragmentOp := { r with }

/-- The cache line of an address. -/
def codeLine (address : UInt64) : UInt64 := address >>> 5

/-- Inserts a number into an ascending list, unless the list has it. -/
def insertAscending (x : UInt64) : List UInt64 → List UInt64
  | [] => [x]
  | y :: rest =>
    if x < y then x :: y :: rest
    else if x = y then y :: rest
    else y :: insertAscending x rest

/-- Numbers in ascending order, each once. -/
def ascending (xs : List UInt64) : List UInt64 :=
  xs.foldr insertAscending []

theorem mem_insertAscending {a x : UInt64} {ys : List UInt64} :
    a ∈ insertAscending x ys ↔ a = x ∨ a ∈ ys := by
  induction ys with
  | nil => simp [insertAscending]
  | cons y rest ih => grind [insertAscending]

@[simp] theorem mem_ascending {a : UInt64} {xs : List UInt64} : a ∈ ascending xs ↔ a ∈ xs := by
  induction xs with
  | nil => simp [ascending]
  | cons x rest ih => simpa [ascending, mem_insertAscending] using or_congr_right ih

/-- The cache lines of some addresses, in ascending order. -/
def codeLines (addresses : List UInt64) : List UInt64 :=
  ascending (addresses.map codeLine)

/-- Extends a run of instructions while the next address continues it. -/
def extendRun (start stop : UInt64) : List UInt64 → List (UInt64 × UInt64)
  | [] => [(start, stop)]
  | a :: rest =>
    if a = stop then extendRun start (a + 4) rest else (start, stop) :: extendRun a (a + 4) rest

/-- The maximal runs of consecutive instructions among some addresses, each as its start and the
address behind it. -/
def addressRuns (addresses : List UInt64) : List (UInt64 × UInt64) :=
  match ascending addresses with
  | [] => []
  | a :: rest => extendRun a (a + 4) rest

/-- The number that names a fragment. -/
abbrev FragmentId := Nat

/-- A fragment. -/
structure Fragment where
  /-- The address at which it is entered. -/
  entry : UInt64
  /-- The operations in the order in which they were recorded. -/
  ops : List FragmentOp
  /-- The number of operations. -/
  length : Nat
  /-- Some operation needs the floating-point unit. -/
  usesFloat : Bool
  /-- The ranges of addresses of the operations. -/
  ranges : List (UInt64 × UInt64)
  /-- The cache lines of the operations. -/
  lines : List UInt64
  /-- The fragment that was entered next, for each number of operations that a run may execute. -/
  successors : Array (Option FragmentId)
  /-- The times it was entered. -/
  runs : Nat := 0

/-- The fragment of a trace. -/
def Fragment.compile (entry : UInt64) (recorded : List RecordedOp) : Fragment :=
  let ops := recorded.map .ofRecorded
  let addresses := recorded.map (·.address)
  { entry := entry
    ops := ops
    length := ops.length
    usesFloat := ops.any (·.instruction.needsFloat)
    ranges := addressRuns addresses
    lines := codeLines addresses
    successors := Array.replicate (ops.length + 1) none }

end Vr4300
