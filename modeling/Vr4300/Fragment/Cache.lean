import Vr4300.Fragment.Index
import Vr4300.Fragment.Run
import Vr4300.Fragment.Store

/-!
# The fragment cache

An address where execution often lands is hot. From there the interpreted instructions are recorded, and
the trace becomes a fragment, which is run instead from then on. Overwritten code and replaced mappings
drop the fragments that they touch.

## Contents

* `FragmentState`, `Recorder`, `FragmentCache`.
* `lookup`, `enter`: finding a fragment for the processor, and running it.
* `observe`: counting landings and recording.
* `invalidate`, `invalidateMapped`, `clear`: dropping fragments.
-/

namespace Vr4300

/-- What the cache has for an address. -/
inductive FragmentState where
  /-- A trace from there is being recorded. -/
  | recording
  /-- A fragment. -/
  | compiled (id : FragmentId)
deriving DecidableEq, Repr, Inhabited

/-- The trace in progress. -/
structure Recorder where
  /-- The address that it starts at. -/
  entry : UInt64
  /-- The instructions recorded, the latest first. -/
  reversed : List RecordedOp := []
deriving DecidableEq, Repr, Inhabited

/-- An instruction at the address was recorded. -/
def Recorder.holds (r : Recorder) (address : UInt64) : Bool :=
  r.reversed.any (·.address == address)

/-- The cache of fragments. -/
structure FragmentCache where
  /-- Fragments are recorded and run. -/
  enabled : Bool
  /-- The landings after which the next one starts a recording. -/
  hotThreshold : UInt32
  /-- The number of operations after which a recording ends. -/
  maxOps : Nat
  /-- The landings at addresses for which the cache has nothing. A count that is full begins again at zero. -/
  hits : Std.TreeMap UInt64 UInt32 := {}
  /-- What the cache has for each address. -/
  entries : Std.TreeMap UInt64 FragmentState := {}
  /-- The fragments. -/
  store : FragmentStore := {}
  /-- The trace in progress. -/
  recorder : Option Recorder := none
  /-- The lines of the fragments. -/
  index : CodeIndex := {}
  /-- The fragment that was run last, and the exit through which it was left. -/
  lastExit : Option (FragmentId × Nat) := none

namespace FragmentCache

/-- An empty cache. -/
def create (s : RecompilerSettings) : FragmentCache :=
  { enabled := s.enabled
    hotThreshold := s.hotThreshold
    maxOps := max 1 s.maxFragmentOps.toNat }

/-- The fragment for an address. -/
def compiled? (x : FragmentCache) (entry : UInt64) : Option FragmentId :=
  match x.entries[entry]? with
  | some (.compiled id) => some id
  | _ => none

/-- The number of fragments. -/
def compiledCount (x : FragmentCache) : Nat :=
  x.entries.toList.countP fun (_, s) => s != .recording

/-- A trace is being recorded. -/
def isRecording (x : FragmentCache) : Bool := x.recorder.isSome

/-! ## Dropping fragments -/

/-- Drops everything that was learned. -/
def clear (x : FragmentCache) : FragmentCache :=
  { x with
    hits := {}
    entries := {}
    store := x.store.clear
    recorder := none
    index := {}
    lastExit := none }

/-- Switches the cache on or off. Switching it off drops everything. -/
def setEnabled (x : FragmentCache) (enabled : Bool) : FragmentCache :=
  let x := { x with enabled := enabled }
  if enabled then x else x.clear

/-- Drops a fragment from the store and the index. -/
def dropCompiled (x : FragmentCache) (entry : UInt64) (id : FragmentId) : FragmentCache :=
  match x.store.get? id with
  | none => x
  | some f =>
    { x with
      store := x.store.drop id
      index := x.index.remove entry f.lines
      lastExit := x.lastExit.filter (·.1 != id) }

/-- Forgets everything about an address. -/
def forget (x : FragmentCache) (entry : UInt64) : FragmentCache :=
  let x :=
    match x.compiled? entry with
    | some id => x.dropCompiled entry id
    | none => x
  { x with
    recorder := x.recorder.filter (·.entry != entry)
    entries := x.entries.erase entry
    hits := x.hits.erase entry }

/-- Forgets some addresses; the answer has their number, too. -/
def forgetAll (x : FragmentCache) (entries : List UInt64) : Nat × FragmentCache :=
  (entries.length, entries.foldl forget x)

/-- The trace in progress has its entry or an instruction in a range of addresses. -/
def recorderTouches (x : FragmentCache) (address len : UInt64) : Option UInt64 := do
  let r ← x.recorder
  let addresses := r.entry :: r.reversed.map (·.address)
  if addresses.any fun a => CodeIndex.covers (codeLine a) address len then some r.entry else none

/-- Forgets the fragments, and the trace in progress, whose code lies in a range of addresses. -/
def invalidate (x : FragmentCache) (address len : UInt64) : Nat × FragmentCache :=
  let found := x.index.overlapping address len
  let found :=
    match x.recorderTouches address len with
    | none => found
    | some entry => found.insert entry
  x.forgetAll found.toList

/-- Forgets what the cache has for addresses that are translated. -/
def invalidateMapped (x : FragmentCache) : Nat × FragmentCache :=
  x.forgetAll (x.entries.keys.filter fun a => (Address.segment a).isMapped)

/-! ## Recording -/

/-- Counts a landing. Past the threshold, recording starts there. -/
def countHit (x : FragmentCache) (pc : UInt64) : FragmentCache :=
  if x.entries.contains pc then x
  else
    let hits := x.hits[pc]?.getD 0 + 1
    if hits ≤ x.hotThreshold then { x with hits := x.hits.insert pc hits }
    else
      { x with
        hits := x.hits.erase pc
        entries := x.entries.insert pc .recording
        recorder := some { entry := pc } }

/-- The trace ends before an instruction: it starts elsewhere, or it raised an exception. -/
def endsBefore (r : Recorder) (retired : Retired) : Bool :=
  (r.reversed.isEmpty && retired.address != r.entry) || retired.trapped

/-- The trace ends behind the instruction that was recorded last: it is long enough, the run may stop
here, or execution returns to the trace or continues with a fragment. -/
def endsAfter (x : FragmentCache) (r : Recorder) (c : Cpu) : Bool :=
  x.maxOps ≤ r.reversed.length || c.breakout.isSome || c.interruptsPending ||
    (!c.inDelaySlot && (c.pc == r.entry || r.holds c.pc || (x.compiled? c.pc).isSome))

/-- Ends the trace in progress. Unless it is empty it becomes a fragment; the answer tells so. -/
def close (x : FragmentCache) (r : Recorder) : Bool × FragmentCache :=
  let x := { x with recorder := none }
  if x.entries[r.entry]? != some .recording then (false, x)
  else if r.reversed.isEmpty then (false, { x with entries := x.entries.erase r.entry })
  else
    let f := Fragment.compile r.entry r.reversed.reverse
    let lines := f.lines
    let (id, store) := x.store.add f
    (true,
      { x with
        store := store
        index := x.index.insert r.entry lines
        entries := x.entries.insert r.entry (.compiled id) })

/-- Looks at an interpreted instruction, when the processor has completed it. The answer tells whether
a fragment was made. -/
def observe (x : FragmentCache) (c : Cpu) (retired : Retired) : Bool × FragmentCache :=
  if !x.enabled then (false, x)
  else
    match x.recorder with
    | some r =>
      if endsBefore r retired then x.close r
      else
        let op : RecordedOp := ⟨retired.address, retired.word, retired.inDelaySlot⟩
        let r := { r with reversed := op :: r.reversed }
        if x.endsAfter r c then x.close r else (false, { x with recorder := some r })
    | none =>
      let landed := retired.trapped || c.pc != retired.address + 4
      (false, if landed && !c.inDelaySlot then x.countHit c.pc else x)

/-! ## Running -/

/-- A breakpoint lies in one of the ranges. The registry is an unordered set, which compares each of its addresses with
the bounds, so a range that ends at the top of the address space, whose upper bound is zero, holds none. A registry that
keeps its addresses in order gives the same answers where the bounds ascend; it does not accept others, and fails on
such a range. -/
def blocked (breakpoints : List UInt64) (ranges : List (UInt64 × UInt64)) : Bool :=
  ranges.any fun (start, stop) => breakpoints.any fun a => start ≤ a && a < stop

/-- The fragment may be entered: no event falls due while it runs, it can use the floating-point unit
if it needs to, and no breakpoint lies inside. -/
def isEnterable (f : Fragment) (c : Cpu) (breakpoints : List UInt64) : Bool :=
  (match c.events.untilNext? with
    | none => true
    | some left => (f.length : Int) < left) &&
    (!f.usesFloat || c.statusFloatUsable) && !blocked breakpoints f.ranges

/-- The remembered successor of the last run, if it is for the address. -/
def linked? (x : FragmentCache) (last : Option (FragmentId × Nat)) (pc : UInt64) :
    Option FragmentId := do
  let (id, exit) ← last
  let next ← x.store.successor? id exit
  let f ← x.store.get? next
  if f.entry = pc then some next else none

/-- Finds the fragment for an address: the remembered successor of the last run, or else the one in the
cache, which is remembered. -/
def find (x : FragmentCache) (last : Option (FragmentId × Nat)) (pc : UInt64) :
    Option FragmentId × FragmentCache :=
  match x.linked? last pc with
  | some id => (some id, x)
  | none =>
    match x.compiled? pc, last with
    | none, _ => (none, x)
    | some id, none => (some id, x)
    | some id, some (previous, exit) =>
      (some id, { x with store := x.store.link previous exit id })

/-- Finds a fragment that may be entered now. -/
def lookup (x : FragmentCache) (c : Cpu) (breakpoints : List UInt64) :
    Option FragmentId × FragmentCache :=
  let last := x.lastExit
  let x := { x with lastExit := none }
  if !x.enabled || x.isRecording || c.inDelaySlot then (none, x)
  else
    let (found, x) := x.find last c.pc
    let enterable :=
      match found.bind x.store.get? with
      | none => false
      | some f => isEnterable f c breakpoints
    (if enterable then found else none, x)

/-- Runs a fragment. The place where it ends counts as a landing. -/
def enter (x : FragmentCache) (id : FragmentId) (t : Tandem) :
    Except FatalError Unit × FragmentCache × Tandem :=
  match x.store.get? id with
  | none => (.ok (), x, t)
  | some f =>
    let x := { x with store := x.store.countRun id }
    match f.run t with
    | (.error e, t) => (.error e, x, t)
    | (.ok exit, t) =>
      let x := { x with lastExit := some (id, exit.index) }
      (.ok (), if t.cpu.inDelaySlot then x else x.countHit t.cpu.pc, t)

end FragmentCache

end Vr4300
