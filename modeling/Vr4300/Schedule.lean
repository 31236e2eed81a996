/-!
# The event schedule

Pending events are kept in the order in which they fall due, each with its distance in cycles from the
one before it, so that the passing of time only touches the first. At most one event of each kind is
pending. The first event may be overdue, and then its distance is negative.

Distances may be numbers of any type. A schedule counts with integers unless another type is given, as the
machine does, whose events cannot be so far away that 64 bits would not hold them.

## Contents

* `EventKind`, `Event`, `ScheduleError`.
* `Schedule`: adding, removing, asking, advancing.
* `dueTimes`: the schedule as a list of kinds with the cycles left until each, and what the operations
  do to it (`until?_eq_lookup`, `dueTimes_advance`).
* `Scheduled`, `elapse`: a state that owns a schedule, and the dispatch of what falls due.
-/

namespace Vr4300

/-- What an event is for. -/
inductive EventKind where
  /-- The counter reaches the value that the timer waits for. -/
  | compare
  /-- The cycle budget of a run is spent. -/
  | runForCycles
  /-- An event of the owner's choice. -/
  | custom (id : UInt32)
deriving DecidableEq, Repr, Inhabited

namespace EventKind

/-- The name of a kind in messages. -/
def name : EventKind → String
  | compare => "compare"
  | runForCycles => "run-for-cycles"
  | custom _ => "custom"

/-- The kind as it is shown in listings. -/
def label : EventKind → String
  | compare => "Compare"
  | runForCycles => "RunForCycles"
  | custom id => s!"Custom({id.toNat})"

end EventKind

/-- Why an event was not added. -/
inductive ScheduleError (ι : Type := Int) where
  /-- An event of the kind is pending already. -/
  | duplicate (kind : EventKind)
  /-- The countdown is zero or negative. -/
  | nonPositiveCountdown (countdown : ι)
deriving DecidableEq, Repr, Inhabited

/-- The message of a schedule error. -/
def ScheduleError.message {ι : Type} [ToString ι] : ScheduleError ι → String
  | duplicate kind => s!"event {kind.name} is already scheduled"
  | nonPositiveCountdown countdown => s!"event countdown must be positive, got {countdown}"

instance {ι : Type} [ToString ι] : ToString (ScheduleError ι) where
  toString := ScheduleError.message

/-- A pending event. -/
structure Event (α : Type) (ι : Type := Int) where
  /-- What it is for. -/
  kind : EventKind
  /-- The cycles between the event before it and this one. -/
  delta : ι
  /-- What to do when it falls due. -/
  action : α
deriving DecidableEq, Repr, Inhabited

/-- The pending events, in the order in which they fall due. -/
structure Schedule (α : Type) (ι : Type := Int) where
  /-- The events with their distances. -/
  events : List (Event α ι) := []
deriving DecidableEq, Repr, Inhabited

namespace Schedule

variable {α ι : Type} [Add ι] [Sub ι] [LE ι] [DecidableLE ι] [LT ι] [DecidableLT ι] [OfNat ι 0]

/-- The number of pending events. -/
def size (s : Schedule α ι) : Nat := s.events.length

/-- Nothing is pending. -/
def isEmpty (s : Schedule α ι) : Bool := s.events.isEmpty

/-- An event of the kind is pending. -/
def contains (s : Schedule α ι) (kind : EventKind) : Bool :=
  s.events.any (·.kind == kind)

/-- Inserts an event that falls due after `left` further cycles, before any event that falls due at
the same time; the event after it becomes that much closer. -/
def insertAt (kind : EventKind) (action : α) : ι → List (Event α ι) → List (Event α ι)
  | left, [] => [⟨kind, left, action⟩]
  | left, e :: rest =>
    if left ≤ e.delta then ⟨kind, left, action⟩ :: { e with delta := e.delta - left } :: rest
    else e :: insertAt kind action (left - e.delta) rest

/-- Adds an event that falls due after `countdown` cycles. -/
def add (s : Schedule α ι) (kind : EventKind) (countdown : ι) (action : α) :
    Except (ScheduleError ι) (Schedule α ι) :=
  if countdown ≤ 0 then .error (.nonPositiveCountdown countdown)
  else if s.contains kind then .error (.duplicate kind)
  else .ok ⟨insertAt kind action countdown s.events⟩

/-- Moves the first event of a list away by some cycles. -/
def postpone (cycles : ι) : List (Event α ι) → List (Event α ι)
  | [] => []
  | e :: rest => { e with delta := e.delta + cycles } :: rest

/-- Takes the event of a kind out of a list, handing its distance to the event after it. The answer
has the cycles that were left, counted from `elapsed`. -/
def removeFrom (kind : EventKind) (elapsed : ι) : List (Event α ι) → Option (ι × List (Event α ι))
  | [] => none
  | e :: rest =>
    if e.kind = kind then some (elapsed + e.delta, postpone e.delta rest)
    else (removeFrom kind (elapsed + e.delta) rest).map fun (left, r) => (left, e :: r)

/-- Removes the event of a kind; the answer has the cycles that were left until it. -/
def remove? (s : Schedule α ι) (kind : EventKind) : Option (ι × Schedule α ι) :=
  (removeFrom kind 0 s.events).map fun (left, events) => (left, ⟨events⟩)

/-- Removes the event of a kind, if one is pending. -/
def erase (s : Schedule α ι) (kind : EventKind) : Schedule α ι :=
  ((s.remove? kind).map (·.2)).getD s

/-- The events of a list with the cycles left until each, counted from `elapsed`. -/
def dueTimesFrom (elapsed : ι) : List (Event α ι) → List (EventKind × ι)
  | [] => []
  | e :: rest => (e.kind, elapsed + e.delta) :: dueTimesFrom (elapsed + e.delta) rest

/-- The pending kinds with the cycles left until each. -/
def dueTimes (s : Schedule α ι) : List (EventKind × ι) :=
  dueTimesFrom 0 s.events

/-- The cycles left until the event of a kind. -/
def until? (s : Schedule α ι) (kind : EventKind) : Option ι :=
  go 0 s.events
where
  /-- Adds up distances until the kind is found. -/
  go (elapsed : ι) : List (Event α ι) → Option ι
    | [] => none
    | e :: rest => if e.kind = kind then some (elapsed + e.delta) else go (elapsed + e.delta) rest

/-- The cycles left until the first event. -/
def untilNext? (s : Schedule α ι) : Option ι :=
  s.events.head?.map (·.delta)

/-- Lets time pass until `remaining` cycles are left before the first event, with the cycles skipped;
zero if nothing is pending or the first event is that close already. -/
def skipToNext (s : Schedule α ι) (remaining : ι) : ι × Schedule α ι :=
  match s.events with
  | [] => (0, s)
  | e :: rest =>
    if remaining < e.delta then (e.delta - remaining, ⟨{ e with delta := remaining } :: rest⟩)
    else (0, s)

/-- Lets time pass without looking at what falls due. -/
def advance (s : Schedule α ι) (cycles : ι) : Schedule α ι :=
  match s.events with
  | [] => s
  | e :: rest => ⟨{ e with delta := e.delta - cycles } :: rest⟩

/-- Takes out the first event if it is due. The cycles by which it is overdue count for the next one
too. -/
def popDue? (s : Schedule α ι) : Option (α × Schedule α ι) :=
  match s.events with
  | [] => none
  | e :: rest => if 0 < e.delta then none else some (e.action, ⟨postpone e.delta rest⟩)

/-- The schedule as text: the kinds in order, each with its distance. -/
def listing [ToString ι] (s : Schedule α ι) : String :=
  "[" ++ ", ".intercalate (s.events.map fun e => s!"({e.kind.label}, {e.delta})") ++ "]"

end Schedule

namespace Schedule

variable {α : Type}

/-! ## The view as due times -/

theorem dueTimesFrom_add (elapsed cycles : Int) (events : List (Event α)) :
    dueTimesFrom (elapsed + cycles) events =
      (dueTimesFrom elapsed events).map fun (kind, left) => (kind, left + cycles) := by
  induction events generalizing elapsed with
  | nil => rfl
  | cons e rest ih =>
    have h : elapsed + cycles + e.delta = elapsed + e.delta + cycles := by omega
    simp [dueTimesFrom, h, ih]

theorem dueTimesFrom_postpone (elapsed cycles : Int) (events : List (Event α)) :
    dueTimesFrom elapsed (postpone cycles events) = dueTimesFrom (elapsed + cycles) events := by
  cases events with
  | nil => rfl
  | cons e rest =>
    have h : elapsed + (e.delta + cycles) = elapsed + cycles + e.delta := by omega
    simp [postpone, dueTimesFrom, h]

@[simp] theorem length_dueTimes (s : Schedule α) : s.dueTimes.length = s.size := by
  have go (elapsed : Int) (events : List (Event α)) :
      (dueTimesFrom elapsed events).length = events.length := by
    induction events generalizing elapsed with
    | nil => rfl
    | cons e rest ih => simp [dueTimesFrom, ih]
  exact go 0 s.events

theorem untilNext?_eq_head? (s : Schedule α) : s.untilNext? = s.dueTimes.head?.map (·.2) := by
  obtain ⟨events⟩ := s
  cases events <;> simp [untilNext?, dueTimes, dueTimesFrom]

theorem until?_eq_lookup (s : Schedule α) (kind : EventKind) :
    s.until? kind = s.dueTimes.lookup kind := by
  have go (elapsed : Int) (events : List (Event α)) :
      until?.go kind elapsed events = (dueTimesFrom elapsed events).lookup kind := by
    induction events generalizing elapsed with
    | nil => rfl
    | cons e rest ih =>
      by_cases h : e.kind = kind
      · simp [until?.go, dueTimesFrom, h]
      · have h' : (kind == e.kind) = false := by simpa using Ne.symm h
        simp [until?.go, dueTimesFrom, List.lookup_cons, h, h', ih]
  exact go 0 s.events

theorem dueTimes_advance (s : Schedule α) (cycles : Int) :
    (s.advance cycles).dueTimes = s.dueTimes.map fun (kind, left) => (kind, left - cycles) := by
  obtain ⟨events⟩ := s
  cases events with
  | nil => rfl
  | cons e rest =>
    have h := dueTimesFrom_add e.delta (-cycles) rest
    simp only [← Int.sub_eq_add_neg] at h
    simp [advance, dueTimes, dueTimesFrom, h]

end Schedule

/-! ## Dispatch -/

/-- A state that owns a schedule of actions on itself. -/
class Scheduled (σ : Type) (α ι : outParam Type) where
  /-- The schedule in a state. -/
  schedule : σ → Schedule α ι
  /-- The state with another schedule. -/
  withSchedule : Schedule α ι → σ → σ
  /-- Performs the action of an event that fell due. -/
  perform : α → σ → σ

section Dispatch

variable {σ α ι : Type} [Add ι] [Sub ι] [LT ι] [DecidableLT ι] [OfNat ι 0] [Scheduled σ α ι]

/-- Performs up to `limit` due events in order. Each is taken out before its action runs, so the action
may add events, also of its own kind. -/
def fireDue : Nat → σ → σ
  | 0, s => s
  | limit + 1, s =>
    match (Scheduled.schedule s).popDue? with
    | none => s
    | some (action, rest) => fireDue limit (Scheduled.perform action (Scheduled.withSchedule rest s))

/-- Lets `cycles` pass and performs what fell due. An event added on the way is at least one cycle
away, so no more events can fire than were pending before. -/
def elapse (cycles : ι) (s : σ) : σ :=
  let pending := (Scheduled.schedule s).advance cycles
  fireDue pending.size (Scheduled.withSchedule pending s)

end Dispatch

end Vr4300
