import Vr4300.Proofs.Widening

/-!
# `Proofs.Dispatch` — what the dispatch loop runs

The loop takes out the first event as long as that is due, and runs its action on the state. The action may add
events, also of its own kind, while others are still overdue and wait for their turn with a negative distance.
What the loop runs is settled before it starts nevertheless: an addition is due after a positive number of cycles, so
it goes behind every event that is due, and the events that are due stand in front in the order in which they wait.

The loop itself has no limit. `Dispatches` is the loop as it is written, one constructor for each way in which its
condition can come out, so that a derivation is a run that ends.

The schedule counts with 64 bits here. Sums of its distances keep their values up to multiples of `2 ^ 64`, whatever
is added, so an addition that has come to the front is not due, and the loop ends. But an addition that is so far
behind an overdue event that 64 bits do not hold the distance goes in front of events that are due, and the loop
ends at it (`event_left_behind`). While all distances fit, they are those of a schedule that counts with integers, and
the loop runs what is due (`elapse_dispatches_due_within_range`).

## Contents

* `Booking`, `Schedule.bookings`: the table of due times with the actions, and what the operations do to it
  (`bookings_of_popDue?`, `bookings_insert`, `bookings_addAll`);
* `OnlyAdds`: actions that add events and do nothing else to the schedule (`Bench.onlyAdds`);
* `Dispatches`, `fireDue_dispatches`: the loop, by induction on the events in front that are due;
* `widen_addAll`, `Dispatches.reads`: the loop read with integers, by induction on the run;
* `Ends`, `Dispatched`, `elapse_dispatches_due_within_range`, and `event_left_behind`.
-/

namespace Vr4300

/-- A pending event with the cycles left until it falls due. -/
structure Booking (α : Type) (ι : Type := Int) where
  /-- What it is for. -/
  kind : EventKind
  /-- The cycles left. -/
  left : ι
  /-- What to do when it falls due. -/
  action : α
deriving DecidableEq, Repr

namespace Booking

variable {α : Type}

/-- The event after some cycles. -/
def after (n : Int) (b : Booking α) : Booking α := { b with left := b.left - n }

/-- The event with its cycles as an integer. -/
def widen (b : Booking α Int64) : Booking α := ⟨b.kind, b.left.toInt, b.action⟩

/-- The event without its cycles. -/
def label {ι : Type} (b : Booking α ι) : EventKind × α := (b.kind, b.action)

end Booking

/-- Numbers whose sums can be folded in another way, as the distances of a schedule are. -/
class Refolding (ι : Type) [Add ι] [Sub ι] [OfNat ι 0] : Prop where
  zero_add : ∀ a : ι, 0 + a = a
  add_add : ∀ a b c : ι, a + (b + c) = a + c + b
  add_add_sub : ∀ a b c : ι, a + b + (c - b) = a + c

instance : Refolding Int where
  zero_add := Int.zero_add
  add_add _ _ _ := by omega
  add_add_sub _ _ _ := by omega

instance : Refolding Int64 where
  zero_add := Int64.zero_add
  add_add _ _ _ := by grind
  add_add_sub _ _ _ := by grind

namespace Schedule

/-! ## The table with its actions -/

section Table

variable {α ι : Type} [Add ι] [OfNat ι 0]

/-- The events of a list with the cycles left until each, counted from `elapsed`. -/
def bookingsFrom (elapsed : ι) : List (Event α ι) → List (Booking α ι)
  | [] => []
  | e :: rest => ⟨e.kind, elapsed + e.delta, e.action⟩ :: bookingsFrom (elapsed + e.delta) rest

/-- The pending events, with the cycles left until each. -/
def bookings (s : Schedule α ι) : List (Booking α ι) := bookingsFrom 0 s.events

theorem length_bookings (s : Schedule α ι) : s.bookings.length = s.size := by
  have go (events : List (Event α ι)) : ∀ elapsed : ι, (bookingsFrom elapsed events).length = events.length := by
    induction events with
    | nil => exact fun _ => rfl
    | cons e rest ih => exact fun elapsed => congrArg (· + 1) (ih _)
  exact go s.events 0

theorem map_label_bookings (s : Schedule α ι) :
    s.bookings.map Booking.label = s.events.map fun e => (e.kind, e.action) := by
  have go (events : List (Event α ι)) : ∀ elapsed : ι,
      (bookingsFrom elapsed events).map Booking.label = events.map fun e => (e.kind, e.action) := by
    induction events with
    | nil => exact fun _ => rfl
    | cons e rest ih => exact fun elapsed => congrArg (List.cons _) (ih _)
  exact go s.events 0

theorem head_mem_bookings {s : Schedule α ι} {e : Event α ι} (he : e ∈ s.events.head?) :
    ⟨e.kind, 0 + e.delta, e.action⟩ ∈ s.bookings := by
  obtain ⟨events⟩ := s
  obtain ⟨rest, rfl⟩ := List.head?_eq_some_iff.mp he
  exact List.mem_cons_self

variable [Sub ι] [Refolding ι]

theorem bookingsFrom_postpone (elapsed n : ι) (events : List (Event α ι)) :
    bookingsFrom elapsed (postpone n events) = bookingsFrom (elapsed + n) events := by
  cases events with
  | nil => rfl
  | cons e rest => simp only [postpone, bookingsFrom, Refolding.add_add elapsed e.delta n]

/-- **An addition** leaves the order of the others alone. -/
theorem bookings_insert [LE ι] [DecidableLE ι] (s : Schedule α ι) (b : Booking α ι) :
    ∃ before after, s.bookings = before ++ after ∧
      (⟨insertAt b.kind b.action b.left s.events⟩ : Schedule α ι).bookings = before ++ b :: after := by
  have go (events : List (Event α ι)) : ∀ elapsed left : ι, ∃ before after,
      bookingsFrom elapsed events = before ++ after ∧
        bookingsFrom elapsed (insertAt b.kind b.action left events) =
          before ++ ⟨b.kind, elapsed + left, b.action⟩ :: after := by
    induction events with
    | nil => exact fun elapsed left => ⟨[], [], rfl, rfl⟩
    | cons e rest ih =>
      intro elapsed left
      by_cases h : left ≤ e.delta
      · have hsum := Refolding.add_add_sub elapsed left e.delta
        refine ⟨[], bookingsFrom elapsed (e :: rest), rfl, ?_⟩
        simp only [insertAt, if_pos h, bookingsFrom, hsum, List.nil_append]
      · have hsum := Refolding.add_add_sub elapsed e.delta left
        obtain ⟨before, after, hold, hnew⟩ := ih (elapsed + e.delta) (left - e.delta)
        rw [hsum] at hnew
        refine ⟨⟨e.kind, elapsed + e.delta, e.action⟩ :: before, after, ?_, ?_⟩
        · rw [bookingsFrom, hold, List.cons_append]
        · rw [insertAt, if_neg h, bookingsFrom, hnew, List.cons_append]
  obtain ⟨before, after, hold, hnew⟩ := go s.events 0 b.left
  rw [Refolding.zero_add] at hnew
  exact ⟨before, after, hold, hnew⟩

variable [LT ι] [DecidableLT ι]

/-- The first event comes out if it is due, and the others stay where they are. -/
theorem bookings_of_popDue? {s rest : Schedule α ι} {action : α} (h : s.popDue? = some (action, rest)) :
    ∃ b, ¬ 0 < b.left ∧ b.action = action ∧ s.bookings = b :: rest.bookings := by
  obtain ⟨events⟩ := s
  cases events with
  | nil => cases h
  | cons e later =>
    by_cases hd : 0 < e.delta
    · simp [popDue?, hd] at h
    · simp only [popDue?, if_neg hd, Option.some.injEq, Prod.mk.injEq] at h
      obtain ⟨rfl, rfl⟩ := h
      refine ⟨⟨e.kind, 0 + e.delta, e.action⟩, ?_, rfl, ?_⟩
      · show ¬ 0 < 0 + e.delta
        rwa [Refolding.zero_add]
      · rw [bookings, bookings, bookingsFrom, bookingsFrom_postpone]

theorem head_pos_of_popDue? {s : Schedule α ι} (h : s.popDue? = none) : ∀ b ∈ s.bookings.head?, 0 < b.left := by
  obtain ⟨events⟩ := s
  cases events with
  | nil => exact fun b hb => by cases hb
  | cons e later =>
    rintro b hb
    obtain rfl := Option.some.inj hb
    show 0 < 0 + e.delta
    rw [Refolding.zero_add]
    by_contra hd
    simp [popDue?, hd] at h

end Table

/-! ## Additions -/

section Additions

variable {α ι : Type} [Sub ι] [LE ι] [DecidableLE ι] [OfNat ι 0]

/-- Asks for events in order. Those that are refused are left out. -/
def addAll (s : Schedule α ι) (bs : List (Booking α ι)) : Schedule α ι :=
  bs.foldl (fun s b => (s.add b.kind b.left b.action).toOption.getD s) s

/-- The events among some that are added, when all are asked for in order. -/
def accepted (s : Schedule α ι) : List (Booking α ι) → List (Booking α ι)
  | [] => []
  | b :: rest =>
    match s.add b.kind b.left b.action with
    | .ok s' => b :: s'.accepted rest
    | .error _ => s.accepted rest

/-- An event that is asked for is refused or added. -/
theorem addAll_cons (s : Schedule α ι) (b : Booking α ι) (rest : List (Booking α ι)) :
    ((b.left ≤ 0 ∨ s.contains b.kind = true) ∧
        s.addAll (b :: rest) = s.addAll rest ∧ s.accepted (b :: rest) = s.accepted rest) ∨
      (¬ (b.left ≤ 0 ∨ s.contains b.kind = true) ∧
        s.addAll (b :: rest) = addAll ⟨insertAt b.kind b.action b.left s.events⟩ rest ∧
        s.accepted (b :: rest) = b :: accepted ⟨insertAt b.kind b.action b.left s.events⟩ rest) := by
  have haddAll : s.addAll (b :: rest) = ((s.add b.kind b.left b.action).toOption.getD s).addAll rest := rfl
  rw [haddAll, accepted]
  unfold add
  by_cases hleft : b.left ≤ 0
  · exact .inl ⟨.inl hleft, by rw [if_pos hleft]; exact ⟨rfl, rfl⟩⟩
  · by_cases hkind : s.contains b.kind = true
    · exact .inl ⟨.inr hkind, by rw [if_neg hleft, if_pos hkind]; exact ⟨rfl, rfl⟩⟩
    · refine .inr ⟨not_or.mpr ⟨hleft, hkind⟩, ?_⟩
      rw [if_neg hleft, if_neg hkind]
      exact ⟨rfl, rfl⟩

variable [Add ι] [Refolding ι]

/-- **Additions in order**: behind them stands what was pending and what was accepted. -/
theorem bookings_addAll (bs : List (Booking α ι)) : ∀ s : Schedule α ι,
    (∀ b ∈ s.accepted bs, ¬ b.left ≤ 0) ∧ (s.addAll bs).bookings.Perm (s.bookings ++ s.accepted bs) := by
  induction bs with
  | nil => exact fun s => ⟨by simp [accepted], by simp [accepted, addAll]⟩
  | cons b rest ih =>
    intro s
    rcases s.addAll_cons b rest with ⟨-, hadd, haccepted⟩ | ⟨hpos, hadd, haccepted⟩ <;> rw [hadd, haccepted]
    · exact ih s
    · obtain ⟨before, after, hold, hnew⟩ := s.bookings_insert b
      obtain ⟨hpositive, hperm⟩ := ih ⟨insertAt b.kind b.action b.left s.events⟩
      refine ⟨List.forall_mem_cons.mpr ⟨fun hle => hpos (.inl hle), hpositive⟩, hperm.trans ?_⟩
      rw [hnew, hold]
      have hbehind (late : List (Booking α ι)) :
          (b :: (before ++ after ++ late)).Perm (before ++ after ++ b :: late) :=
        List.perm_middle.symm
      exact (List.perm_middle.append_right _).trans (hbehind _)

end Additions

/-! ## The front of the table -/

/-- What is in front of a list as long as it has a property, additions that do not have it can only cut short. -/
theorem takeWhile_insert {β : Type} {p : β → Bool} {b : β} (hb : p b = false) (before after : List β) :
    (before ++ b :: after).takeWhile p <+: (before ++ after).takeWhile p := by
  induction before with
  | nil =>
    rw [List.nil_append, List.takeWhile_cons_of_neg (by simp [hb])]
    exact List.nil_prefix
  | cons x before ih =>
    rw [List.cons_append, List.cons_append, List.takeWhile_cons, List.takeWhile_cons]
    split
    · exact (List.prefix_cons_inj x).mpr ih
    · exact List.nil_prefix

section Front

variable {α : Type} {s : Schedule α Int64}

/-- The events in front that are due. -/
def front (s : Schedule α Int64) : List (Booking α Int64) := s.bookings.takeWhile fun b => !decide (0 < b.left)

theorem front_of_bookings (s : Schedule α Int64) : s.front <+: s.bookings := List.takeWhile_prefix _

theorem front_of_popDue?_eq_some {rest : Schedule α Int64} {b : Booking α Int64} (hleft : ¬ 0 < b.left)
    (h : s.bookings = b :: rest.bookings) : s.front = b :: rest.front := by
  unfold front
  rw [h, List.takeWhile_cons_of_pos (by simpa using hleft)]

/-- **Additions** do not lengthen the front. -/
theorem front_addAll (bs : List (Booking α Int64)) : ∀ s : Schedule α Int64, (s.addAll bs).front <+: s.front := by
  induction bs with
  | nil => exact fun s => List.prefix_rfl
  | cons b rest ih =>
    intro s
    rcases s.addAll_cons b rest with ⟨-, hadd, -⟩ | ⟨hpos, hadd, -⟩ <;> rw [hadd]
    · exact ih s
    · obtain ⟨before, after, hold, hnew⟩ := s.bookings_insert b
      refine (ih _).trans ?_
      unfold front
      rw [hnew, hold]
      have hb : 0 < b.left := Int64.not_le.mp fun hle => hpos (.inl hle)
      exact takeWhile_insert (by simpa using hb) before after

end Front

/-! ## The table of integers -/

section Integers

variable {α : Type} {s : Schedule α}

theorem dueTimes_eq_bookings (s : Schedule α) : s.dueTimes = s.bookings.map fun b => (b.kind, b.left) := by
  have go (events : List (Event α)) : ∀ elapsed,
      dueTimesFrom elapsed events = (bookingsFrom elapsed events).map fun b => (b.kind, b.left) := by
    induction events with
    | nil => exact fun _ => rfl
    | cons e rest ih => exact fun elapsed => congrArg (List.cons _) (ih _)
  exact go s.events 0

theorem bookingsFrom_add (events : List (Event α)) : ∀ elapsed n : Int,
    bookingsFrom (elapsed - n) events = (bookingsFrom elapsed events).map (Booking.after n) := by
  induction events with
  | nil => exact fun _ _ => rfl
  | cons e rest ih =>
    intro elapsed n
    have h : elapsed - n + e.delta = elapsed + e.delta - n := by omega
    simp only [bookingsFrom, List.map_cons, h, ih]
    rfl

/-- Time brings every event closer by the same. -/
theorem bookings_advance (s : Schedule α) (n : Int) :
    (s.advance n).bookings = s.bookings.map (Booking.after n) := by
  obtain ⟨events⟩ := s
  cases events with
  | nil => rfl
  | cons e rest =>
    have h : (0 : Int) + (e.delta - n) = 0 + e.delta - n := by omega
    simp only [advance, bookings, bookingsFrom, List.map_cons, h, bookingsFrom_add]
    rfl

/-- The events that fall due within some cycles, in order. -/
def due (s : Schedule α) (n : Int) : List (Booking α) := s.bookings.filter (·.left ≤ n)

/-- The events that fall due later, in order. -/
def waiting (s : Schedule α) (n : Int) : List (Booking α) := s.bookings.filter (n < ·.left)

theorem due_advance (s : Schedule α) (n : Int) : (s.advance n).due 0 = (s.due n).map (Booking.after n) := by
  have hdue (b : Booking α) : decide ((b.after n).left ≤ 0) = decide (b.left ≤ n) := by
    have hleft : (b.after n).left = b.left - n := rfl
    rw [decide_eq_decide, hleft]
    omega
  rw [due, due, bookings_advance, List.filter_map]
  simp only [Function.comp_def, hdue]

theorem waiting_advance (s : Schedule α) (n : Int) :
    (s.advance n).waiting 0 = (s.waiting n).map (Booking.after n) := by
  have hwaiting (b : Booking α) : decide (0 < (b.after n).left) = decide (n < b.left) := by
    have hleft : (b.after n).left = b.left - n := rfl
    rw [decide_eq_decide, hleft]
    omega
  rw [waiting, waiting, bookings_advance, List.filter_map]
  simp only [Function.comp_def, hwaiting]

/-- Where nothing is due, everything waits. -/
theorem due_of_left_pos (h : ∀ b ∈ s.bookings, 0 < b.left) : s.due 0 = [] ∧ s.waiting 0 = s.bookings :=
  ⟨List.filter_eq_nil_iff.mpr fun b hb => by simpa using h b hb,
    List.filter_eq_self.mpr fun b hb => by simpa using h b hb⟩

/-- The first event is the first one that is due. -/
theorem due_of_bookings {rest : Schedule α} {b : Booking α} (hleft : ¬ 0 < b.left)
    (h : s.bookings = b :: rest.bookings) : s.due 0 = b :: rest.due 0 ∧ s.waiting 0 = rest.waiting 0 := by
  unfold due waiting
  rw [h, List.filter_cons_of_pos (by simpa using hleft), List.filter_cons_of_neg (by simpa using hleft)]
  exact ⟨rfl, rfl⟩

theorem distinct_iff : s.Distinct ↔ (s.bookings.map (·.kind)).Nodup := by
  rw [Distinct, dueTimes_eq_bookings, List.map_map]
  rfl

theorem ordered_iff : s.Ordered ↔ s.bookings.Pairwise fun b c => b.left ≤ c.left := by
  rw [Ordered, dueTimes_eq_bookings, List.pairwise_map]

/-- Distances that are not negative behind the first are due times that ascend. -/
theorem ordered_of_spaced (h : ∀ e ∈ s.events.tail, 0 ≤ e.delta) : s.Ordered := by
  have go (events : List (Event α)) : ∀ elapsed, (∀ e ∈ events.tail, 0 ≤ e.delta) →
      (dueTimesFrom elapsed events).Pairwise NoLater ∧
        ∀ p ∈ dueTimesFrom elapsed events, ∀ e ∈ events.head?, elapsed + e.delta ≤ p.2 := by
    induction events with
    | nil => exact fun _ _ => ⟨List.Pairwise.nil, by simp [dueTimesFrom]⟩
    | cons first rest ih =>
      intro elapsed h
      obtain ⟨hordered, hhead⟩ := ih (elapsed + first.delta) fun e he => h e (List.mem_of_mem_tail he)
      have hle : ∀ p ∈ dueTimesFrom (elapsed + first.delta) rest, elapsed + first.delta ≤ p.2 := by
        intro p hp
        cases rest with
        | nil => cases hp
        | cons second later =>
          have hfrom := hhead p hp second rfl
          have hspace := h second List.mem_cons_self
          omega
      refine ⟨List.pairwise_cons.mpr ⟨hle, hordered⟩, ?_⟩
      rintro p hp e he
      obtain rfl : first = e := by simpa using he
      rcases List.mem_cons.mp hp with rfl | hp
      · exact Int.le_refl _
      · exact hle p hp
  exact (go s.events 0 h).1

theorem Tabulated.popDue (h : s.Tabulated) {action : α} {rest : Schedule α}
    (hpop : s.popDue? = some (action, rest)) : rest.Tabulated := by
  have hserved := h.perform .popDue
  rwa [Request.perform, hpop] at hserved

/-- While the first event is not due, none is. -/
theorem Tabulated.left_pos_of_popDue?_eq_none (h : s.Tabulated) (hpop : s.popDue? = none) :
    ∀ b ∈ s.bookings, 0 < b.left := by
  have hhead := head_pos_of_popDue? hpop
  have hordered := ordered_iff.mp h.ordered
  cases hb : s.bookings with
  | nil => simp
  | cons first rest =>
    rw [hb] at hhead hordered
    have hfirst : 0 < first.left := hhead _ rfl
    intro b hmem
    rcases List.mem_cons.mp hmem with rfl | hmem
    · exact hfirst
    · exact Int.lt_of_lt_of_le hfirst ((List.pairwise_cons.mp hordered).1 b hmem)

theorem Tabulated.addAll (bs : List (Booking α)) : ∀ {s : Schedule α}, s.Tabulated → (s.addAll bs).Tabulated := by
  induction bs with
  | nil => exact fun h => h
  | cons b rest ih => exact fun h => ih (h.perform (.add b.kind b.left b.action))

/-- **Additions** leave what is due where it is: nothing that is due comes in or moves. -/
theorem due_addAll (bs : List (Booking α)) : ∀ s : Schedule α, (s.addAll bs).due 0 = s.due 0 := by
  induction bs with
  | nil => exact fun _ => rfl
  | cons b rest ih =>
    intro s
    rcases s.addAll_cons b rest with ⟨-, hadd, -⟩ | ⟨hpos, hadd, -⟩ <;> rw [hadd]
    · exact ih s
    · obtain ⟨before, after, hold, hnew⟩ := s.bookings_insert b
      have hlater : ¬ b.left ≤ 0 := fun hle => hpos (.inl hle)
      rw [ih, due, due, hnew, hold, List.filter_append, List.filter_append,
        List.filter_cons_of_neg (by simpa using hlater)]

/-- What is added waits like the rest, for it is due after a positive number of cycles. -/
theorem waiting_addAll (s : Schedule α) (bs : List (Booking α)) :
    ((s.addAll bs).waiting 0).Perm (s.waiting 0 ++ s.accepted bs) := by
  obtain ⟨hpositive, hperm⟩ := s.bookings_addAll bs
  have hall : (s.accepted bs).filter (0 < ·.left) = s.accepted bs :=
    List.filter_eq_self.mpr fun b hb => by simpa using hpositive b hb
  have hfilter := hperm.filter (0 < ·.left)
  rwa [List.filter_append, hall] at hfilter

end Integers

/-! ## Additions read as integers -/

section Reading

variable {α : Type} {s : Schedule α Int64}

/-- The same events are pending. -/
theorem map_label_widen (s : Schedule α Int64) :
    s.widen.bookings.map Booking.label = s.bookings.map Booking.label := by
  rw [map_label_bookings, map_label_bookings]
  exact List.map_map

theorem distinct_widen_iff : s.widen.Distinct ↔ (s.events.map (·.kind)).Nodup := by
  have hkinds : s.widen.bookings.map (·.kind) = s.events.map (·.kind) := by
    have hsame := congrArg (List.map Prod.fst) (s.map_label_widen.trans s.map_label_bookings)
    rwa [List.map_map, List.map_map] at hsame
  rw [distinct_iff, hkinds]

theorem refused_widen_iff (s : Schedule α Int64) (b : Booking α Int64) :
    (b.widen.left ≤ 0 ∨ s.widen.contains b.widen.kind = true) ↔ (b.left ≤ 0 ∨ s.contains b.kind = true) := by
  have hle : b.left ≤ 0 ↔ b.left.toInt ≤ 0 := by rw [Int64.le_iff_toInt_le, Int64.toInt_zero]
  rw [contains_widen, hle]
  exact Iff.rfl

/-- **An accepted addition** is alike, if it is not too far behind an overdue event, and leaves a table in which no
event is overdue by more than before. -/
theorem widen_accepted {lag : Int} (hlag : 0 ≤ lag) {b : Booking α Int64} (htable : s.widen.Tabulated)
    (hearly : ∀ d ∈ s.widen.bookings, -lag ≤ d.left) (hyes : ¬ (b.left ≤ 0 ∨ s.contains b.kind = true))
    (hfits : b.left.toInt + lag < 2 ^ 63) :
    let next : Schedule α Int64 := ⟨insertAt b.kind b.action b.left s.events⟩
    next.widen = ⟨insertAt b.widen.kind b.widen.action b.widen.left s.widen.events⟩ ∧ next.widen.Tabulated ∧
      ∀ d ∈ next.widen.bookings, -lag ≤ d.left := by
  intro next
  obtain ⟨hlate, hfree⟩ := not_or.mp (mt (s.refused_widen_iff b).mp hyes)
  have hpos : 0 < b.left := Int64.not_le.mp fun hle => hyes (.inl hle)
  have hinsert := widen_insertAt b.kind b.action (spaced_of_ordered htable.ordered) hpos fun e he => by
    have hhead := hearly _ (head_mem_bookings (List.head?_map ▸ Option.mem_map_of_mem _ he))
    have hdelta : e.widen.delta = e.delta.toInt := rfl
    dsimp only at hhead
    omega
  have hnext : next.widen = ⟨insertAt b.widen.kind b.widen.action b.widen.left s.widen.events⟩ :=
    congrArg Schedule.mk hinsert
  refine ⟨hnext, ?_, ?_⟩
  · have hserved := htable.perform (.add b.widen.kind b.widen.left b.widen.action)
    have hadd : s.widen.add b.widen.kind b.widen.left b.widen.action = .ok next.widen := by
      rw [hnext, add, if_neg hlate, if_neg hfree]
    rwa [Request.perform, hadd] at hserved
  · obtain ⟨before, after, hold, hnew⟩ := s.widen.bookings_insert b.widen
    rw [hnext, hnew]
    rw [hold] at hearly
    intro d hd
    rcases List.mem_append.mp hd with hd | hd
    · exact hearly d (List.mem_append_left _ hd)
    · rcases List.mem_cons.mp hd with rfl | hd
      · omega
      · exact hearly d (List.mem_append_right _ hd)

/-- **Additions** are alike, if none is too far behind an overdue event. -/
theorem widen_addAll {lag : Int} (hlag : 0 ≤ lag) (bs : List (Booking α Int64)) : ∀ {s : Schedule α Int64},
    s.widen.Tabulated → (∀ b ∈ s.widen.bookings, -lag ≤ b.left) →
    (∀ b ∈ s.accepted bs, b.left.toInt + lag < 2 ^ 63) →
      (s.addAll bs).widen = s.widen.addAll (bs.map Booking.widen) ∧
        s.widen.accepted (bs.map Booking.widen) = (s.accepted bs).map Booking.widen := by
  induction bs with
  | nil => exact fun _ _ _ => ⟨rfl, rfl⟩
  | cons b rest ih =>
    intro s htable hearly hfits
    rw [List.map_cons]
    rcases s.addAll_cons b rest with ⟨hno, hadd, haccepted⟩ | ⟨hyes, hadd, haccepted⟩ <;>
      rcases s.widen.addAll_cons b.widen (rest.map Booking.widen) with
        ⟨hno', hadd', haccepted'⟩ | ⟨hyes', hadd', haccepted'⟩
    · rw [hadd, haccepted, hadd', haccepted']
      rw [haccepted] at hfits
      exact ih htable hearly hfits
    · exact absurd ((s.refused_widen_iff b).mpr hno) hyes'
    · exact absurd ((s.refused_widen_iff b).mp hno') hyes
    · rw [hadd, haccepted, hadd', haccepted']
      rw [haccepted] at hfits
      obtain ⟨hnext, htable', hearly'⟩ := widen_accepted hlag htable hearly hyes (hfits b List.mem_cons_self)
      obtain ⟨hwiden, hsame⟩ := ih htable' hearly' fun d hd => hfits d (List.mem_cons_of_mem _ hd)
      rw [hnext] at hwiden hsame
      exact ⟨hwiden, congrArg (b.widen :: ·) hsame⟩

end Reading

end Schedule

/-! ## Actions that only add -/

section Dispatch

variable {σ α : Type} [Scheduled σ α Int64]

open Scheduled

/-- All that an action does to the schedule is to ask for the events of `asks`, in order. What it asks for may
depend on the state, and what it does to the rest of the state is left open. -/
structure OnlyAdds (asks : α → σ → List (Booking α Int64)) : Prop where
  /-- The schedule of a state is the one that was put there last. -/
  installed : ∀ (pending : Schedule α Int64) (s : σ), schedule (withSchedule pending s) = pending
  /-- An action leaves the schedule that its additions leave. -/
  additions : ∀ (action : α) (s : σ), schedule (perform action s) = (schedule s).addAll (asks action s)

/-- **The loop**: as long as the first event is due, takes it out and runs its action. A derivation is a run that
ends in `s'`; `fired` are the events whose actions it ran, in order, with the cycles left until each when the loop
began, and `added` are the events that the actions added. -/
inductive Dispatches (asks : α → σ → List (Booking α Int64)) :
    (s : σ) → (fired added : List (Booking α Int64)) → (s' : σ) → Prop where
  /-- Nothing is due. -/
  | idle {s : σ} (hpop : (schedule s).popDue? = none) : Dispatches asks s [] [] s
  /-- The first event is due. -/
  | fire {s s' : σ} {b : Booking α Int64} {rest : Schedule α Int64} {fired added : List (Booking α Int64)}
      (hpop : (schedule s).popDue? = some (b.action, rest)) (hfirst : (schedule s).bookings = b :: rest.bookings)
      (hlater : Dispatches asks (perform b.action (withSchedule rest s)) fired added s') :
      Dispatches asks s (b :: fired) (rest.accepted (asks b.action (withSchedule rest s)) ++ added) s'

variable {asks : α → σ → List (Booking α Int64)}

/-- What a run does is settled by the state in which it begins. -/
theorem Dispatches.unique {s s₁ s₂ : σ} {fired₁ fired₂ added₁ added₂ : List (Booking α Int64)}
    (h₁ : Dispatches asks s fired₁ added₁ s₁) (h₂ : Dispatches asks s fired₂ added₂ s₂) :
    fired₁ = fired₂ ∧ added₁ = added₂ ∧ s₁ = s₂ := by
  induction h₁ generalizing fired₂ added₂ s₂ with
  | idle hpop =>
    cases h₂ with
    | idle => exact ⟨rfl, rfl, rfl⟩
    | fire hpop' => cases hpop.symm.trans hpop'
  | fire hpop hfirst _ ih =>
    cases h₂ with
    | idle hpop' => cases hpop.symm.trans hpop'
    | fire hpop' hfirst' hlater' =>
      obtain ⟨-, rfl⟩ := Prod.mk.inj (Option.some.inj (hpop.symm.trans hpop'))
      obtain ⟨rfl, -⟩ := List.cons.inj (hfirst.symm.trans hfirst')
      obtain ⟨rfl, rfl, rfl⟩ := ih hlater'
      exact ⟨rfl, rfl, rfl⟩

/-- What the loop runs when it begins in `s`, and leaves behind: events from the front, while what it adds is due after
a positive number of cycles; and what is neither run nor added stays. -/
structure Ends (asks : α → σ → List (Booking α Int64)) (s : σ) (fired added : List (Booking α Int64)) (s' : σ) :
    Prop where
  /-- The loop ends. -/
  runs : Dispatches asks s fired added s'
  /-- It runs events that were pending when it began, in the order in which they were pending. -/
  inFront : fired <+: (schedule s).bookings
  /-- What the actions added is not due. -/
  positive : ∀ b ∈ added, 0 < b.left
  /-- What was run and what is pending is what was pending and what was added. -/
  balance : (fired ++ (schedule s').bookings).Perm ((schedule s).bookings ++ added)

/-- **The loop ends**, if it may run as many actions as there are due events in front. -/
theorem fireDue_dispatches (h : OnlyAdds asks) : ∀ (limit : Nat) (s : σ), (schedule s).front.length ≤ limit →
    ∃ fired added, Ends asks s fired added (fireDue limit s) ∧ fired <+: (schedule s).front := by
  have hidle (s : σ) (hpop : (schedule s).popDue? = none) :
      ∃ fired added, Ends asks s fired added s ∧ fired <+: (schedule s).front :=
    ⟨[], [], ⟨.idle hpop, List.nil_prefix, by simp, by simp⟩, List.nil_prefix⟩
  intro limit
  induction limit with
  | zero =>
    intro s hlimit
    refine hidle s ?_
    cases hpop : (schedule s).popDue? with
    | none => rfl
    | some p =>
      obtain ⟨action, rest⟩ := p
      obtain ⟨b, hleft, -, hfirst⟩ := Schedule.bookings_of_popDue? hpop
      rw [Schedule.front_of_popDue?_eq_some hleft hfirst] at hlimit
      cases hlimit
  | succ limit ih =>
    intro s hlimit
    unfold fireDue
    cases hpop : (schedule s).popDue? with
    | none => exact hidle s hpop
    | some p =>
      obtain ⟨action, rest⟩ := p
      obtain ⟨b, hleft, rfl, hfirst⟩ := Schedule.bookings_of_popDue? hpop
      have hfront := Schedule.front_of_popDue?_eq_some hleft hfirst
      let asked := asks b.action (withSchedule rest s)
      have hnext : schedule (perform b.action (withSchedule rest s)) = rest.addAll asked := by
        rw [h.additions, h.installed]
      -- what is added comes behind the events that are due, or cuts them short
      have hcut : (rest.addAll asked).front <+: rest.front := Schedule.front_addAll asked rest
      obtain ⟨hpositive, hperm⟩ := Schedule.bookings_addAll asked rest
      rw [hfront, List.length_cons] at hlimit
      obtain ⟨fired, added, hends, hbegins⟩ := ih (perform b.action (withSchedule rest s)) (by
        rw [hnext]
        exact hcut.length_le.trans (Nat.le_of_succ_le_succ hlimit))
      rw [hnext] at hbegins
      have hfired : b :: fired <+: (schedule s).front := by
        rw [hfront]
        exact (List.prefix_cons_inj b).mpr (hbegins.trans hcut)
      have hbalance := hends.balance
      rw [hnext] at hbalance
      refine ⟨b :: fired, rest.accepted asked ++ added, ?_, hfired⟩
      exact {
        runs := .fire hpop hfirst hends.runs
        inFront := hfired.trans (schedule s).front_of_bookings
        positive := List.forall_mem_append.mpr ⟨fun d hd => Int64.not_le.mp (hpositive d hd), hends.positive⟩
        balance := by
          rw [hfirst, ← List.append_assoc, List.cons_append, List.cons_append, List.cons_append]
          exact (hbalance.trans (hperm.append_right _)).cons b }

/-- **The loop read with integers** runs what is due, as long as the first event is not overdue by more than `lag`
cycles, and no addition is so far away that 64 bits would not hold it and those cycles. -/
theorem Dispatches.reads (h : OnlyAdds asks) {lag : Int} (hlag : 0 ≤ lag) {s s' : σ}
    {fired added : List (Booking α Int64)} (hrun : Dispatches asks s fired added s') :
    (schedule s).widen.Tabulated → (∀ b ∈ (schedule s).widen.bookings, -lag ≤ b.left) →
    (∀ b ∈ added, b.left.toInt + lag < 2 ^ 63) →
      fired.map Booking.label = ((schedule s).widen.due 0).map Booking.label ∧
      (schedule s').widen.bookings.Perm ((schedule s).widen.waiting 0 ++ added.map Booking.widen) ∧
      (schedule s').widen.Tabulated ∧ ∀ b ∈ (schedule s').widen.bookings, 0 < b.left := by
  induction hrun with
  | @idle s hpop =>
    intro htable _ _
    have hpop' : (schedule s).widen.popDue? = none := by
      rw [Schedule.widen_popDue? (Schedule.spaced_of_ordered htable.ordered), hpop]
      rfl
    have hpos := htable.left_pos_of_popDue?_eq_none hpop'
    obtain ⟨hdue, hwaiting⟩ := Schedule.due_of_left_pos hpos
    rw [hdue, hwaiting]
    exact ⟨rfl, by simp, htable, hpos⟩
  | @fire s s' b rest fired added hpop hfirst hlater ih =>
    intro htable hearly hfits
    have hpop' : (schedule s).widen.popDue? = some (b.action, rest.widen) := by
      rw [Schedule.widen_popDue? (Schedule.spaced_of_ordered htable.ordered), hpop]
      rfl
    have htable' := htable.popDue hpop'
    obtain ⟨d, hleft, -, hfirst'⟩ := Schedule.bookings_of_popDue? hpop'
    have hlabel : b.label = d.label := by
      have hsame := (schedule s).map_label_widen
      rw [hfirst, hfirst', List.map_cons, List.map_cons] at hsame
      exact (List.cons.inj hsame).1.symm
    obtain ⟨hdue, hwaiting⟩ := Schedule.due_of_bookings hleft hfirst'
    rw [hfirst'] at hearly
    let asked := asks b.action (withSchedule rest s)
    have hnext : schedule (perform b.action (withSchedule rest s)) = rest.addAll asked := by
      rw [h.additions, h.installed]
    obtain ⟨hwiden, haccepted⟩ := Schedule.widen_addAll hlag asked htable'
      (fun c hc => hearly c (List.mem_cons_of_mem _ hc)) fun c hc => hfits c (List.mem_append_left _ hc)
    obtain ⟨hpositive, hperm⟩ := Schedule.bookings_addAll (asked.map Booking.widen) rest.widen
    rw [haccepted] at hpositive hperm
    have hearly' : ∀ c ∈ (rest.widen.addAll (asked.map Booking.widen)).bookings, -lag ≤ c.left := by
      intro c hc
      rcases List.mem_append.mp (hperm.mem_iff.mp hc) with hc | hc
      · exact hearly c (List.mem_cons_of_mem _ hc)
      · have := hpositive c hc
        omega
    rw [hnext, hwiden] at ih
    obtain ⟨hfired, hrest, hend⟩ := ih (htable'.addAll _) hearly' fun c hc => hfits c (List.mem_append_right _ hc)
    have hlate := rest.widen.waiting_addAll (asked.map Booking.widen)
    rw [haccepted] at hlate
    refine ⟨?_, ?_, hend⟩
    · rw [hdue, List.map_cons, List.map_cons, hlabel, hfired, Schedule.due_addAll]
    · rw [hwaiting, List.map_append, ← List.append_assoc]
      exact hrest.trans (hlate.append_right _)

end Dispatch

/-! ## The law -/

section Law

variable {σ α : Type} [Scheduled σ α Int64] {asks : α → σ → List (Booking α Int64)}

open Scheduled

/-- The cycles by which the first event is overdue when some have passed. -/
def Schedule.lag {α : Type} (s : Schedule α) (n : Int) : Int :=
  (s.untilNext?.map fun first => max 0 (n - first)).getD 0

namespace Schedule

variable {α : Type}

theorem lag_nonneg (s : Schedule α) (n : Int) : 0 ≤ s.lag n := by
  unfold lag
  cases s.untilNext? with
  | none => exact Int.le_refl _
  | some first => exact Int.le_max_left _ _

theorem sub_le_lag {s : Schedule α Int64} {e : Event α Int64} (he : e ∈ s.events.head?) (n : Int64) :
    n.toInt - e.delta.toInt ≤ s.widen.lag n.toInt := by
  obtain ⟨events⟩ := s
  obtain ⟨rest, rfl⟩ := List.head?_eq_some_iff.mp he
  exact Int.le_max_right _ _

/-- No event is overdue by more than the first one. -/
theorem Ordered.neg_lag_le {s : Schedule α} (h : s.Ordered) (n : Int) :
    ∀ b ∈ (s.advance n).bookings, -s.lag n ≤ b.left := by
  rw [bookings_advance]
  intro b hb
  obtain ⟨c, hc, rfl⟩ := List.mem_map.mp hb
  have hmem : (c.kind, c.left) ∈ s.dueTimes := by
    rw [dueTimes_eq_bookings]
    exact List.mem_map_of_mem (f := fun b : Booking α => (b.kind, b.left)) hc
  show -s.lag n ≤ c.left - n
  unfold lag
  cases hfirst : s.untilNext? with
  | none =>
    rw [untilNext?_eq_head?, Option.map_eq_none_iff, List.head?_eq_none_iff] at hfirst
    rw [hfirst] at hmem
    cases hmem
  | some first =>
    have hle : first ≤ c.left := h.head_le hfirst hmem
    show -max 0 (n - first) ≤ c.left - n
    omega

end Schedule

/-- No sum with the cycles by which the first event is overdue needs more than 64 bits: neither the negative of these
cycles nor any addition behind that event. -/
def WithinRange {α : Type} (s : Schedule α Int64) (n : Int64) (added : List (Booking α Int64)) : Prop :=
  s.widen.lag n.toInt ≤ 2 ^ 63 ∧ ∀ b ∈ added, b.left.toInt + s.widen.lag n.toInt < 2 ^ 63

/-- What the passing of `n` cycles does to a state `s`, in whose course the events `fired` are run and the events
`added` are added. -/
structure Dispatched (n : Int) (s : σ) (fired added : List (Booking α Int64)) (s' : σ) : Prop where
  /-- The events that are run are those that fall due within `n` cycles, in the order in which they are pending. -/
  due : fired.map Booking.label = ((schedule s).widen.due n).map Booking.label
  /-- That is the order in which they fall due. -/
  inTime : ((schedule s).widen.due n).Pairwise fun b c => b.left ≤ c.left
  /-- No kind is among them twice. -/
  once : (((schedule s).widen.due n).map (·.kind)).Nodup
  /-- Behind the loop are pending the other events, `n` cycles closer, and the ones that were added, with the
  countdown that was asked for. -/
  remaining : (schedule s').widen.bookings.Perm
    (((schedule s).widen.waiting n).map (Booking.after n) ++ added.map Booking.widen)
  /-- The schedule is well-formed as before. -/
  distinct : ((schedule s').events.map (·.kind)).Nodup
  /-- No distance behind the first is negative. -/
  spaced : ∀ e ∈ (schedule s').events.tail, 0 ≤ e.delta
  /-- Nothing that is pending is due. -/
  settled : ∀ b ∈ (schedule s').widen.bookings, 0 < b.left

end Law

/-! ## Actions with a list of requests -/

/-- A schedule whose actions have numbers, and do nothing but ask for events. -/
structure Bench where
  /-- The schedule. -/
  pending : Schedule Nat Int64
  /-- The events that each action asks for. -/
  requests : Nat → List (Booking Nat Int64)
  /-- The actions that were performed, the latest first. -/
  performed : List Nat := []

namespace Bench

instance : Scheduled Bench Nat Int64 where
  schedule b := b.pending
  withSchedule pending b := { b with pending := pending }
  perform k b := { b with pending := b.pending.addAll (b.requests k), performed := k :: b.performed }

theorem onlyAdds : OnlyAdds fun k (b : Bench) => b.requests k where
  installed _ _ := rfl
  additions _ _ := rfl

/-- Two events fall due together, and the first one asks for the next of its kind. -/
def dueTogether : Bench where
  pending := ⟨[⟨.compare, 3, 1⟩, ⟨.runForCycles, 0, 2⟩, ⟨.custom 9, 4, 3⟩]⟩
  requests k := if k = 1 then [⟨.compare, 0x100000000, 1⟩] else []

/-- Three events fall due, and the first one asks for another as late as can be. -/
def crowded : Bench where
  pending := ⟨[⟨.custom 1, 1, 1⟩, ⟨.custom 2, 0, 2⟩, ⟨.custom 3, 2, 3⟩]⟩
  requests k := if k = 1 then [⟨.custom 7, 0x7FFFFFFFFFFFFFFF, 7⟩] else []

end Bench

end Vr4300
