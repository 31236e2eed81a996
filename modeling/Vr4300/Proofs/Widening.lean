import Mathlib.Algebra.Ring.Int.Defs
import Vr4300.Proofs.Passage
import Vr4300.Proofs.Timetable

/-!
# `Proofs.Widening` — schedules that count with 64 bits

A schedule may count with numbers of 64 bits, whose sums and differences lose what does not fit. Read as integers, its
distances are those of a schedule that counts with integers, and each operation does to the one what it does to the
other, as long as the numbers that it forms fit.

What an operation forms is little, because the due times themselves are never stored. Taking out a due event adds a
number that is not positive to one that is not negative, which always fits. Only the passing of time, and an addition
behind an overdue event, can lead out of the range: such an addition is farther from that event than from now. The
events of a processor are never overdue, so it makes no difference whether the processor counts with integers or with
64 bits (`Agenda.mirrored`).

## Contents

* `toInt_add_of_fits`, `toInt_sub_of_fits`: sums and differences that fit;
* `Schedule.widen`, and what the operations do to it: `widen_advance`, `widen_popDue?`, `widen_insertAt`;
* `Schedule.Mirrors`, `Schedule.mirrors_of_ahead`: all operations are alike where every event is ahead;
* `Agenda.mirrored`: the schedules of a processor.
-/

namespace Vr4300

/-! ## Sums and differences that fit -/

theorem toInt_add_of_fits {a b : Int64} (hlow : -2 ^ 63 ≤ a.toInt + b.toInt) (hhigh : a.toInt + b.toInt < 2 ^ 63) :
    (a + b).toInt = a.toInt + b.toInt := by
  rw [Int64.toInt_add, Int.bmod_eq_of_le (by omega) (by omega)]

theorem toInt_sub_of_fits {a b : Int64} (hlow : -2 ^ 63 ≤ a.toInt - b.toInt) (hhigh : a.toInt - b.toInt < 2 ^ 63) :
    (a - b).toInt = a.toInt - b.toInt := by
  rw [Int64.toInt_sub, Int.bmod_eq_of_le (by omega) (by omega)]

theorem toInt_pos_iff {a : Int64} : 0 < a.toInt ↔ 0 < a := by
  rw [Int64.lt_iff_toInt_lt, Int64.toInt_zero]

theorem toInt_nonneg_iff {a : Int64} : 0 ≤ a.toInt ↔ 0 ≤ a := by
  rw [Int64.le_iff_toInt_le, Int64.toInt_zero]

/-- Two numbers that are not negative, whose sum fits. -/
theorem toInt_elapsed_add {a b : Int64} (ha : 0 ≤ a) (hb : 0 ≤ b) (hsum : a.toInt + b.toInt < 2 ^ 63) :
    (a + b).toInt = a.toInt + b.toInt := by
  have ha := toInt_nonneg_iff.mpr ha
  have hb := toInt_nonneg_iff.mpr hb
  exact toInt_add_of_fits (by omega) hsum

/-! ## Distances read as integers -/

/-- The event with its distance as an integer. -/
def Event.widen {α : Type} (e : Event α Int64) : Event α := ⟨e.kind, e.delta.toInt, e.action⟩

namespace Schedule

variable {α : Type} {s : Schedule α Int64}

/-- The schedule with its distances as integers. -/
def widen (s : Schedule α Int64) : Schedule α := ⟨s.events.map Event.widen⟩

/-- No distance behind the first is negative. -/
def Spaced (events : List (Event α Int64)) : Prop := ∀ e ∈ events.tail, 0 ≤ e.delta

theorem spaced_widen_iff : (∀ e ∈ s.widen.events.tail, 0 ≤ e.delta) ↔ Spaced s.events := by
  have htail : s.widen.events.tail = s.events.tail.map Event.widen := List.map_tail.symm
  rw [htail, List.forall_mem_map]
  exact forall₂_congr fun e _ => toInt_nonneg_iff

theorem spaced_of_ordered (h : s.widen.Ordered) : Spaced s.events := spaced_widen_iff.mp h.spaced

theorem contains_widen (s : Schedule α Int64) (kind : EventKind) : s.widen.contains kind = s.contains kind :=
  List.any_map

/-- **Time passes** alike, if the first distance fits afterwards. -/
theorem widen_advance {n : Int64}
    (hlow : ∀ e ∈ s.events.head?, -2 ^ 63 ≤ e.delta.toInt - n.toInt)
    (hhigh : ∀ e ∈ s.events.head?, e.delta.toInt - n.toInt < 2 ^ 63) :
    (s.advance n).widen = s.widen.advance n.toInt := by
  obtain ⟨events⟩ := s
  cases events with
  | nil => rfl
  | cons e rest =>
    have hsub := toInt_sub_of_fits (hlow e rfl) (hhigh e rfl)
    simp only [advance, widen, List.map_cons, Event.widen, hsub]

/-- **The first event** comes out alike: what it hands on is not positive, and what it is added to is not negative. -/
theorem widen_popDue? (h : Spaced s.events) :
    s.widen.popDue? = s.popDue?.map fun (action, rest) => (action, rest.widen) := by
  obtain ⟨events⟩ := s
  cases events with
  | nil => rfl
  | cons e rest =>
    by_cases hpos : 0 < e.delta
    · have hfirst := toInt_pos_iff.mpr hpos
      simp only [popDue?, widen, List.map_cons, Event.widen, if_pos hpos, if_pos hfirst, Option.map_none]
    · have hfirst := mt toInt_pos_iff.mp hpos
      cases rest with
      | nil =>
        simp only [popDue?, widen, postpone, List.map_cons, List.map_nil, Event.widen, if_neg hpos, if_neg hfirst,
          Option.map_some]
      | cons second later =>
        have hsecond := toInt_nonneg_iff.mpr (h second List.mem_cons_self)
        have hadd : (second.delta + e.delta).toInt = second.delta.toInt + e.delta.toInt :=
          toInt_add_of_fits (by have := e.delta.le_toInt; omega) (by have := second.delta.toInt_lt; omega)
        simp only [popDue?, widen, postpone, List.map_cons, Event.widen, if_neg hpos, if_neg hfirst, Option.map_some,
          hadd]

/-- **An addition** is alike, if it is not too far behind an overdue event. -/
theorem widen_insertAt (kind : EventKind) (action : α) : ∀ {events : List (Event α Int64)} {left : Int64},
    Spaced events → 0 < left → (∀ e ∈ events.head?, left.toInt - e.delta.toInt < 2 ^ 63) →
      (insertAt kind action left events).map Event.widen =
        insertAt kind action left.toInt (events.map Event.widen) := by
  intro events
  induction events with
  | nil => intro left _ _ _; rfl
  | cons e rest ih =>
    intro left hspaced hpos hfits
    have hleft := toInt_pos_iff.mpr hpos
    have hfits := hfits e rfl
    by_cases h : left ≤ e.delta
    · have hle := Int64.le_iff_toInt_le.mp h
      have hsub : (e.delta - left).toInt = e.delta.toInt - left.toInt :=
        toInt_sub_of_fits (by omega) (by have := e.delta.toInt_lt; omega)
      simp only [insertAt, List.map_cons, Event.widen, if_pos h, if_pos hle, hsub]
    · have hlt := mt Int64.le_iff_toInt_le.mpr h
      have hsub : (left - e.delta).toInt = left.toInt - e.delta.toInt := toInt_sub_of_fits (by omega) hfits
      have hrest : ∀ d ∈ rest.head?, (left - e.delta).toInt - d.delta.toInt < 2 ^ 63 := by
        intro d hd
        -- the distances behind the first only bring the addition closer
        have hnext := toInt_nonneg_iff.mpr (hspaced d (List.mem_of_mem_head? hd))
        omega
      have hpos' : 0 < left - e.delta := toInt_pos_iff.mp (by omega)
      have ih := ih (fun d hd => hspaced d (List.mem_of_mem_tail hd)) hpos' hrest
      rw [hsub] at ih
      simp only [insertAt, List.map_cons, if_neg h, ih, Event.widen, if_neg hlt]

/-! ## Events that are ahead -/

/-- Where every event is ahead, no distance is negative. -/
theorem Ordered.delta_nonneg {s : Schedule α} (h : s.Ordered) (hahead : ∀ p ∈ s.dueTimes, 0 ≤ p.2) :
    ∀ e ∈ s.events, 0 ≤ e.delta := by
  have hspaced := h.spaced
  obtain ⟨events⟩ := s
  cases events with
  | nil => exact fun e he => (by cases he)
  | cons first rest =>
    intro e he
    rcases List.mem_cons.mp he with rfl | he
    · have := hahead _ (List.mem_cons_self : (e.kind, 0 + e.delta) ∈ _)
      omega
    · exact hspaced e he

/-- A distance is no more than the cycles left until its event, if none is negative. -/
theorem delta_lt_of_dueTimesFrom {bound : Int} : ∀ {events : List (Event α)} {elapsed : Int}, 0 ≤ elapsed →
    (∀ e ∈ events, 0 ≤ e.delta) → (∀ p ∈ dueTimesFrom elapsed events, p.2 < bound) →
      ∀ e ∈ events, e.delta < bound := by
  intro events
  induction events with
  | nil => exact fun _ _ _ e he => (by cases he)
  | cons first rest ih =>
    intro elapsed helapsed hall hfits e he
    have hfirst := hall first List.mem_cons_self
    rcases List.mem_cons.mp he with rfl | he
    · have : elapsed + e.delta < bound := hfits _ List.mem_cons_self
      omega
    · exact ih (by omega) (fun d hd => hall d (List.mem_cons_of_mem _ hd))
        (fun p hp => hfits p (List.mem_cons_of_mem _ hp)) e he

/-- **The cycles left** until an event are the same, if those until any event fit. -/
theorem widen_untilGo (kind : EventKind) : ∀ {events : List (Event α Int64)} {elapsed : Int64}, 0 ≤ elapsed →
    (∀ e ∈ events, 0 ≤ e.delta) → (∀ p ∈ dueTimesFrom elapsed.toInt (events.map Event.widen), p.2 < 2 ^ 63) →
      until?.go kind elapsed.toInt (events.map Event.widen) = (until?.go kind elapsed events).map Int64.toInt := by
  intro events
  induction events with
  | nil => exact fun _ _ _ => rfl
  | cons e rest ih =>
    intro elapsed helapsed hpos hfits
    have hsum := toInt_elapsed_add helapsed (hpos e List.mem_cons_self) (hfits _ List.mem_cons_self)
    simp only [until?.go, List.map_cons, Event.widen]
    split
    · rw [Option.map_some, hsum]
    · rw [← hsum]
      refine ih (toInt_nonneg_iff.mp ?_) (fun d hd => hpos d (List.mem_cons_of_mem _ hd)) fun p hp => ?_
      · have := toInt_nonneg_iff.mpr helapsed
        have := toInt_nonneg_iff.mpr (hpos e List.mem_cons_self)
        omega
      · rw [hsum] at hp
        exact hfits p (List.mem_cons_of_mem _ hp)

/-- **A removal** is alike, if the cycles left until any event fit. -/
theorem widen_removeFrom (kind : EventKind) : ∀ {events : List (Event α Int64)} {elapsed : Int64}, 0 ≤ elapsed →
    (∀ e ∈ events, 0 ≤ e.delta) → (∀ p ∈ dueTimesFrom elapsed.toInt (events.map Event.widen), p.2 < 2 ^ 63) →
      removeFrom kind elapsed.toInt (events.map Event.widen) =
        (removeFrom kind elapsed events).map fun (left, rest) => (left.toInt, rest.map Event.widen) := by
  intro events
  induction events with
  | nil => exact fun _ _ _ => rfl
  | cons e rest ih =>
    intro elapsed helapsed hpos hfits
    have hsum := toInt_elapsed_add helapsed (hpos e List.mem_cons_self) (hfits _ List.mem_cons_self)
    have helapsed' := toInt_nonneg_iff.mpr helapsed
    have hdelta := toInt_nonneg_iff.mpr (hpos e List.mem_cons_self)
    simp only [removeFrom, List.map_cons, Event.widen]
    split
    · rw [Option.map_some, hsum]
      cases rest with
      | nil => rfl
      | cons second later =>
        -- the sum of two distances is no more than the cycles left until the second event
        have hsecond := toInt_nonneg_iff.mpr (hpos second (List.mem_cons_of_mem _ List.mem_cons_self))
        have hleft : elapsed.toInt + e.delta.toInt + second.delta.toInt < 2 ^ 63 :=
          hfits _ (List.mem_cons_of_mem _ List.mem_cons_self)
        have hadd : (second.delta + e.delta).toInt = second.delta.toInt + e.delta.toInt :=
          toInt_add_of_fits (by omega) (by omega)
        simp only [postpone, List.map_cons, Event.widen, hadd]
    · rw [← hsum, ih (toInt_nonneg_iff.mp (by omega)) (fun d hd => hpos d (List.mem_cons_of_mem _ hd)) fun p hp => ?_]
      · cases removeFrom kind (elapsed + e.delta) rest <;> rfl
      · rw [hsum] at hp
        exact hfits p (List.mem_cons_of_mem _ hp)

/-- **A skip** is alike, for what is skipped is less than the first distance. -/
theorem widen_skipToNext {remaining : Int64} (h : 0 ≤ remaining) :
    s.widen.skipToNext remaining.toInt = ((s.skipToNext remaining).1.toInt, (s.skipToNext remaining).2.widen) := by
  have hremaining := toInt_nonneg_iff.mpr h
  obtain ⟨events⟩ := s
  cases events with
  | nil => rfl
  | cons e rest =>
    have hlt : remaining.toInt < e.delta.toInt ↔ remaining < e.delta := Int64.lt_iff_toInt_lt.symm
    have hfirst := e.delta.toInt_lt
    by_cases h : remaining < e.delta
    · have hsub : (e.delta - remaining).toInt = e.delta.toInt - remaining.toInt :=
        toInt_sub_of_fits (by have := hlt.mpr h; omega) (by omega)
      simp only [skipToNext, widen, List.map_cons, Event.widen, if_pos h, if_pos (hlt.mpr h), hsub]
    · simp only [skipToNext, widen, List.map_cons, Event.widen, if_neg h, if_neg (mt hlt.mp h), Int64.toInt_zero]

/-- **An addition** is answered alike, if no event is overdue. -/
theorem widen_add (hspaced : Spaced s.events) (hfirst : ∀ e ∈ s.events.head?, 0 ≤ e.delta) (kind : EventKind)
    (countdown : Int64) (action : α) :
    s.widen.add kind countdown.toInt action =
      match s.add kind countdown action with
      | .ok s' => .ok s'.widen
      | .error (.duplicate k) => .error (.duplicate k)
      | .error (.nonPositiveCountdown n) => .error (.nonPositiveCountdown n.toInt) := by
  have hpos : countdown.toInt ≤ 0 ↔ countdown ≤ 0 := by rw [Int64.le_iff_toInt_le, Int64.toInt_zero]
  unfold add
  rw [contains_widen]
  by_cases hn : countdown ≤ 0
  · rw [if_pos hn, if_pos (hpos.mpr hn)]
  · rw [if_neg hn, if_neg (mt hpos.mp hn)]
    cases s.contains kind with
    | true => rfl
    | false =>
      have hinsert := widen_insertAt kind action hspaced (Int64.not_le.mp hn) fun e he => by
        have := toInt_nonneg_iff.mpr (hfirst e he)
        have := countdown.toInt_lt
        omega
      exact congrArg (fun events => Except.ok (⟨events⟩ : Schedule α)) hinsert.symm

/-- Each operation answers and does what it answers and does where distances are integers. -/
structure Mirrors (s : Schedule α Int64) : Prop where
  /-- An addition. -/
  adds : ∀ kind (countdown : Int64) action, s.widen.add kind countdown.toInt action =
    match s.add kind countdown action with
    | .ok s' => .ok s'.widen
    | .error (.duplicate k) => .error (.duplicate k)
    | .error (.nonPositiveCountdown n) => .error (.nonPositiveCountdown n.toInt)
  /-- A removal. -/
  removes : ∀ kind, s.widen.remove? kind = (s.remove? kind).map fun (left, rest) => (left.toInt, rest.widen)
  /-- The cycles left until an event. -/
  tells : ∀ kind, s.widen.until? kind = (s.until? kind).map Int64.toInt
  /-- The cycles left until the first event. -/
  tellsNext : s.widen.untilNext? = s.untilNext?.map Int64.toInt
  /-- Time that passes. -/
  advances : ∀ cycles : Int64, 0 ≤ cycles → (s.advance cycles).widen = s.widen.advance cycles.toInt
  /-- A skip to the first event. -/
  skips : ∀ remaining : Int64, 0 ≤ remaining →
    s.widen.skipToNext remaining.toInt = ((s.skipToNext remaining).1.toInt, (s.skipToNext remaining).2.widen)
  /-- The first event. -/
  pops : s.widen.popDue? = s.popDue?.map fun (action, rest) => (action, rest.widen)

/-- **Where every event is ahead**, within 64 bits, both schedules are alike. -/
theorem mirrors_of_ahead (hordered : s.widen.Ordered) (hahead : ∀ p ∈ s.widen.dueTimes, 0 ≤ p.2 ∧ p.2 < 2 ^ 63) :
    s.Mirrors := by
  have hspaced := spaced_of_ordered hordered
  have hall : ∀ e ∈ s.events, 0 ≤ e.delta := fun e he =>
    toInt_nonneg_iff.mp (hordered.delta_nonneg (fun p hp => (hahead p hp).1) e.widen (List.mem_map_of_mem he))
  have hfirst : ∀ e ∈ s.events.head?, 0 ≤ e.delta := fun e he => hall e (List.mem_of_mem_head? he)
  have hfits : ∀ p ∈ dueTimesFrom (0 : Int64).toInt (s.events.map Event.widen), p.2 < 2 ^ 63 :=
    fun p hp => (hahead p hp).2
  constructor
  case adds => exact fun kind countdown action => widen_add hspaced hfirst kind countdown action
  case removes =>
    intro kind
    have hremove := widen_removeFrom kind (Int64.le_refl 0) hall hfits
    rw [Int64.toInt_zero] at hremove
    unfold remove?
    show (removeFrom kind 0 (s.events.map Event.widen)).map _ = _
    rw [hremove, Option.map_map, Option.map_map]
    rfl
  case tells => exact fun kind => widen_untilGo kind (Int64.le_refl 0) hall hfits
  case tellsNext =>
    unfold untilNext? widen
    rw [List.head?_map, Option.map_map, Option.map_map]
    rfl
  case advances =>
    intro cycles hcycles
    have hcycles := toInt_nonneg_iff.mpr hcycles
    refine widen_advance (fun e he => ?_) fun e _ => ?_
    · have := toInt_nonneg_iff.mpr (hfirst e he)
      have := cycles.toInt_lt
      omega
    · have := e.delta.toInt_lt
      omega
  case skips => exact fun remaining hremaining => widen_skipToNext hremaining
  case pops => exact widen_popDue? hspaced

/-- The schedule with its distances in 64 bits. -/
def narrow (s : Schedule α) : Schedule α Int64 := ⟨s.events.map fun e => ⟨e.kind, .ofInt e.delta, e.action⟩⟩

theorem widen_narrow {s : Schedule α} (h : ∀ e ∈ s.events, 0 ≤ e.delta ∧ e.delta < 2 ^ 63) : s.narrow.widen = s := by
  have hback : ∀ e ∈ s.events, Event.widen ⟨e.kind, .ofInt e.delta, e.action⟩ = e := by
    intro e he
    obtain ⟨hlow, hhigh⟩ := h e he
    have hdelta : (Int64.ofInt e.delta).toInt = e.delta := Int64.toInt_ofInt_of_le (by omega) hhigh
    unfold Event.widen
    rw [hdelta]
  unfold widen narrow
  rw [List.map_map]
  exact congrArg Schedule.mk (List.map_congr_left hback |>.trans s.events.map_id')

end Schedule

/-- **A processor may count with 64 bits**: its schedules are agendas, whatever it executes. -/
theorem Agenda.mirrored {s : Schedule TimerAction} (h : Agenda s 0) : s.narrow.widen = s ∧ s.narrow.Mirrors := by
  have hahead : ∀ p ∈ s.dueTimes, 0 ≤ p.2 ∧ p.2 < 2 ^ 63 := fun p hp => by
    obtain ⟨hlow, hhigh⟩ := h.ahead p hp
    unfold horizon at hhigh
    omega
  have hall := h.ordered.delta_nonneg fun p hp => (hahead p hp).1
  have hsame : s.narrow.widen = s := Schedule.widen_narrow fun e he =>
    ⟨hall e he, Schedule.delta_lt_of_dueTimesFrom (Int.le_refl 0) hall (fun p hp => (hahead p hp).2) e he⟩
  refine ⟨hsame, Schedule.mirrors_of_ahead ?_ ?_⟩ <;> rw [hsame]
  · exact h.ordered
  · exact hahead

end Vr4300
