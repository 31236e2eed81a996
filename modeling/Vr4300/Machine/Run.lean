import Vr4300.Machine.Basic

/-!
# Running the machine

Between two instructions the machine looks for a reason to stop, for an interrupt and for a breakpoint.
Then it enters a fragment, if it has one for the place, or interprets one instruction; the vector unit
makes one step for each.

## Contents

* `Machine.step`: one instruction, interpreted.
* `Machine.turn`, `Machine.loop`, `Machine.run`.
-/

namespace Vr4300

namespace Machine

/-- Drops the fragments whose code or mapping was changed since the last time. -/
def drain (m : Machine) : Machine :=
  let ranges := m.cpu.codeInvalidations
  let dirty := m.cpu.tlbDirty
  if ranges.isEmpty && !dirty then m
  else
    let m := m.onCpu fun c => { c with codeInvalidations := [], tlbDirty := false }
    let m := ranges.foldl (fun m (address, len) => m.invalidateCode address len) m
    if dirty then m.invalidateMapped else m

/-- Samples the interrupt line and delivers an interrupt that is pending. -/
def takeInterrupt (m : Machine) : Machine :=
  m.onCpu fun c =>
    let c := c.updateInterrupts
    if c.interruptsPending then c.deliverInterrupt else c

/-- Interprets one instruction and makes a step of the vector unit. -/
def interpret (m : Machine) : Except FatalError Retired × Machine :=
  let { tandem, cache, breakpoints, resumeAt, observers, notifications } := m
  let ⟨cpu, vector⟩ := tandem
  match cpu.step with
  | (.error e, cpu) =>
    (.error e, { tandem := ⟨cpu, vector⟩, cache, breakpoints, resumeAt, observers, notifications })
  | (.ok retired, cpu) =>
    let t : Tandem := ⟨cpu, vector⟩
    let t := (t.count fun s => { s with interpretedOps := s.interpretedOps + 1 }).stepVector
    (.ok retired, { tandem := t, cache, breakpoints, resumeAt, observers, notifications })

/-- Executes one instruction, whatever the breakpoints. An interrupt that is pending is delivered
before it. -/
def step (m : Machine) : Except FatalError Retired × Machine :=
  match m.takeInterrupt.interpret with
  | (.error e, m) => (.error e, m)
  | (.ok retired, m) => (.ok retired, m.drain)

/-- Shows an interpreted instruction to the cache. -/
def observe (m : Machine) (retired : Retired) : Machine :=
  let { tandem, cache, breakpoints, resumeAt, observers, notifications } := m
  let (made, cache) := cache.observe tandem.cpu retired
  let tandem :=
    if made then tandem.count fun s => { s with fragmentsCompiled := s.fragmentsCompiled + 1 }
    else tandem
  { tandem, cache, breakpoints, resumeAt, observers, notifications }

/-- Runs a fragment. -/
def enter (m : Machine) (id : FragmentId) : Except FatalError Unit × Machine :=
  let { tandem, cache, breakpoints, resumeAt, observers, notifications } := m
  let (r, cache, tandem) := cache.enter id tandem
  (r, { tandem, cache, breakpoints, resumeAt, observers, notifications })

/-- Interprets an instruction that the cache looks at. -/
def interpretObserved (m : Machine) : Except FatalError Unit × Machine :=
  match m.interpret with
  | (.error e, m) => (.error e, m)
  | (.ok retired, m) => (.ok (), m.observe retired)

/-- Looks for a fragment that may be entered now. -/
def lookup (m : Machine) : Option FragmentId × Machine :=
  let { tandem, cache, breakpoints, resumeAt, observers, notifications } := m
  let (found, cache) := cache.lookup tandem.cpu breakpoints
  (found, { tandem, cache, breakpoints, resumeAt, observers, notifications })

/-- Executes what comes next: a fragment or one instruction. -/
def proceed (m : Machine) : Except FatalError Unit × Machine :=
  let (found, m) := m.lookup
  let (r, m) :=
    match found with
    | some id => m.enter id
    | none => m.interpretObserved
  match r with
  | .error e => (.error e, m)
  | .ok () => (.ok (), m.drain)

/-- One turn of a run, with the result of the run if it ends. The breakpoint at `resumeAt` is passed. -/
def turn (m : Machine) (resumeAt : Option UInt64) :
    Option (Except FatalError Exit) × Machine :=
  match m.cpu.breakout with
  | some exit => (some (.ok exit), m.onCpu fun c => { c with breakout := none })
  | none =>
    let m := m.takeInterrupt
    let pc := m.cpu.pc
    if resumeAt != some pc && m.breakpoints.contains pc then
      (some (.ok (.breakpoint pc)), { m with resumeAt := some pc })
    else
      match m.proceed with
      | (.error e, m) => (some (.error e), m)
      | (.ok (), m) => (none, m)

/-- Takes up to `limit` turns; the result is `none` if none of them ends the run. -/
def loop : Nat → Option UInt64 → Machine → Option (Except FatalError Exit) × Machine
  | 0, _, m => (none, m)
  | limit + 1, resumeAt, m =>
    match m.turn resumeAt with
    | (some r, m) => (some r, m)
    | (none, m) => loop limit none m

/-- The turns after which a run has ended, if each of them executes an instruction: the event that ends
the run comes closer by a cycle each time, and one more turn sees it. -/
def turnsToEnd (m : Machine) : Nat :=
  ((m.cpu.events.until? .runForCycles).getD 0).toNat + 2

/-- The longest run: a budget beyond it is cut. -/
def longestRun : Nat := 0x7FFFFFFFFFFFFFFF

/-- Runs until the budget of cycles is spent, a halt was requested, or the next instruction is at a
breakpoint. The result is `none` if the run has no end, because it enters a fragment that executes
nothing: no time passes then, and every later turn does the same. -/
def run (m : Machine) (budget : UInt64) : Option (Except FatalError Exit) × Machine :=
  if budget = 0 then (some (.ok .budgetExhausted), m)
  else
    let cycles := min budget.toNat longestRun
    let resumeAt := m.resumeAt
    let m := { m with resumeAt := none }
    let m := m.onCpu fun c => c.schedule .runForCycles cycles .budgetSpent
    let (r, m) := loop m.turnsToEnd resumeAt m
    (r, m.onCpu fun c => { c with events := c.events.erase .runForCycles })

end Machine

end Vr4300
