import Vr4300.Proofs.DueTimes

/-!
# `Proofs.Timetable` — a schedule is a table of due times

Each operation of a schedule patches one or two distances between neighbours, and every other event keeps
its place only because the patched distances still add up. Read as its due times, a schedule is a plain
table, and each operation does to the table what its name says.

Two facts about the table carry the others: no kind is in it twice, and the due times ascend. Both are
preserved by every operation (`Tabulated.perform`), also while the first event is overdue, so they hold of
every schedule that requests can make (`tabulated_of_requests`).

## Contents

* `Request`, `Schedule.serve`: what is asked of a schedule, in order;
* `Schedule.Tabulated`: the form of the table, preserved by each request;
* `Ordered.spaced`: ascending due times are distances that are not negative;
* `Schedule.Keeps`: what each operation answers and does to the table;
* `schedule_keeps_timetable`.
-/

namespace Vr4300

/-- What is asked of a schedule. Time only passes. -/
inductive Request (α : Type) where
  /-- Adds an event, unless it is refused. -/
  | add (kind : EventKind) (countdown : Int) (action : α)
  /-- Removes the event of a kind. -/
  | remove (kind : EventKind)
  /-- Lets time pass. -/
  | advance (cycles : Nat)
  /-- Lets time pass until some cycles are left before the first event. -/
  | skipToNext (remaining : Nat)
  /-- Takes out the first event if it is due. -/
  | popDue
  /-- Drops every event. -/
  | clear

namespace Request

variable {α : Type}

/-- The schedule behind a request. One that is refused leaves it as it was. -/
def perform (s : Schedule α) : Request α → Schedule α
  | add kind countdown action => (s.add kind countdown action).toOption.getD s
  | remove kind => s.erase kind
  | advance cycles => s.advance cycles
  | skipToNext remaining => (s.skipToNext remaining).2
  | popDue => (s.popDue?.map (·.2)).getD s
  | clear => {}

end Request

namespace Schedule

variable {α : Type} {s : Schedule α} {kind : EventKind} {left : Int}

/-- The schedule behind requests in order. -/
def serve (s : Schedule α) (requests : List (Request α)) : Schedule α := requests.foldl Request.perform s

/-! ## The form of the table -/

/-- The due times are a table in ascending order. -/
structure Tabulated (s : Schedule α) : Prop where
  /-- No kind is in it twice. -/
  distinct : s.Distinct
  /-- The due times ascend. -/
  ordered : s.Ordered

theorem tabulated_empty : ({} : Schedule α).Tabulated := ⟨List.nodup_nil, List.Pairwise.nil⟩

theorem until?_eq_none_of_not_mem (h : ∀ left, (kind, left) ∉ s.dueTimes) : s.until? kind = none := by
  rw [until?_eq_none_iff]
  rintro ⟨k, left⟩ hp rfl
  exact h left hp

/-- What an addition refuses, and that it refuses nothing else. -/
theorem add_cases (s : Schedule α) (kind : EventKind) (countdown : Int) (action : α) :
    (countdown ≤ 0 ∧ s.add kind countdown action = .error (.nonPositiveCountdown countdown)) ∨
      (0 < countdown ∧ s.until? kind ≠ none ∧ s.add kind countdown action = .error (.duplicate kind)) ∨
      0 < countdown ∧ s.until? kind = none ∧
        s.add kind countdown action = .ok ⟨insertAt kind action countdown s.events⟩ := by
  by_cases hpos : countdown ≤ 0
  · exact .inl ⟨hpos, by rw [add, if_pos hpos]⟩
  have hpos' : 0 < countdown := by omega
  cases hfree : s.until? kind with
  | none => exact .inr (.inr ⟨hpos', rfl, s.add_eq_ok action hpos' hfree⟩)
  | some left =>
    have hpending : s.contains kind = true := by
      by_contra hnot
      rw [contains_eq_any, Bool.not_eq_true, List.any_eq_false] at hnot
      have hnone : s.until? kind = none := until?_eq_none_iff.mpr fun p hp => by simpa using hnot p hp
      simp [hnone] at hfree
    exact .inr (.inl ⟨hpos', by simp, by rw [add, if_neg hpos, if_pos hpending]⟩)

/-- **A request** leaves a table in ascending order. -/
theorem Tabulated.perform (h : s.Tabulated) (request : Request α) : (request.perform s).Tabulated := by
  cases request with
  | add kind countdown action =>
    show ((s.add kind countdown action).toOption.getD s).Tabulated
    rcases s.add_cases kind countdown action with ⟨-, hadd⟩ | ⟨-, -, hadd⟩ | ⟨-, hfree, hadd⟩ <;> rw [hadd]
    · exact h
    · exact h
    · exact ⟨h.distinct.insert countdown action hfree, h.ordered.insert kind countdown action⟩
  | remove kind => exact ⟨h.distinct.erase kind, h.ordered.erase kind⟩
  | advance cycles => exact ⟨h.distinct.advance cycles, h.ordered.advance cycles⟩
  | skipToNext remaining =>
    show (s.skipToNext remaining).2.Tabulated
    rw [skipToNext_eq s (Int.natCast_nonneg remaining)]
    exact ⟨h.distinct.advance _, h.ordered.advance _⟩
  | popDue =>
    show ((s.popDue?.map (·.2)).getD s).Tabulated
    cases hpop : s.popDue? with
    | none => exact h
    | some p =>
      obtain ⟨action, rest⟩ := p
      obtain ⟨kind, left, -, htable, -⟩ := dueTimes_of_popDue? hpop
      have hdistinct := h.distinct
      have hordered := h.ordered
      unfold Distinct at hdistinct
      unfold Ordered at hordered
      rw [htable] at hdistinct hordered
      exact ⟨(List.nodup_cons.mp hdistinct).2, (List.pairwise_cons.mp hordered).2⟩
  | clear => exact tabulated_empty

/-- **Requests in order** leave a table in ascending order. -/
theorem tabulated_of_requests (requests : List (Request α)) :
    ∀ {s : Schedule α}, s.Tabulated → (s.serve requests).Tabulated := by
  induction requests with
  | nil => intro s h; exact h
  | cons request rest ih => intro s h; exact ih (h.perform request)

/-- Due times that ascend are distances that are not negative, but for the first. -/
theorem Ordered.spaced (h : s.Ordered) : ∀ e ∈ s.events.tail, 0 ≤ e.delta := by
  have go (events : List (Event α)) :
      ∀ elapsed, (dueTimesFrom elapsed events).Pairwise NoLater → ∀ e ∈ events.tail, 0 ≤ e.delta := by
    induction events with
    | nil => intro elapsed _ e he; cases he
    | cons first rest ih =>
      intro elapsed h e he
      rw [dueTimesFrom, List.pairwise_cons] at h
      cases rest with
      | nil => cases he
      | cons second later =>
        rcases List.mem_cons.mp he with rfl | he
        -- its own due time comes no earlier than that of the event before it
        · have hle : elapsed + first.delta ≤ elapsed + first.delta + e.delta :=
            h.1 (e.kind, elapsed + first.delta + e.delta) List.mem_cons_self
          omega
        · exact ih _ h.2 e he
  exact go s.events 0 h

/-! ## What each operation does to the table -/

/-- An entry goes in front of everything that is due no earlier. -/
theorem exists_orderedInsert {table : List (EventKind × Int)} (h : table.Pairwise NoLater)
    (p : EventKind × Int) :
    ∃ before after, table = before ++ after ∧ table.orderedInsert NoLater p = before ++ p :: after ∧
      (∀ q ∈ before, q.2 < p.2) ∧ ∀ q ∈ after, p.2 ≤ q.2 := by
  induction table with
  | nil => exact ⟨[], [], rfl, rfl, by simp, by simp⟩
  | cons q rest ih =>
    obtain ⟨hq, hrest⟩ := List.pairwise_cons.mp h
    by_cases hle : p.2 ≤ q.2
    · refine ⟨[], q :: rest, rfl, List.orderedInsert_cons_of_le _ _ hle, by simp, ?_⟩
      intro r hr
      rcases List.mem_cons.mp hr with rfl | hr
      · exact hle
      · exact Int.le_trans hle (hq r hr)
    · obtain ⟨before, after, rfl, hinsert, hbefore, hafter⟩ := ih hrest
      refine ⟨q :: before, after, rfl, ?_, ?_, hafter⟩
      · rw [List.orderedInsert_of_not_le (r := NoLater) _ hle, hinsert, List.cons_append]
      · intro r hr
        rcases List.mem_cons.mp hr with rfl | hr
        · omega
        · exact hbefore r hr

theorem removeFrom_fst (kind : EventKind) (events : List (Event α)) :
    ∀ elapsed : Int,
      (removeFrom kind elapsed events).map (·.1) = (dueTimesFrom elapsed events).lookup kind := by
  induction events with
  | nil => intro elapsed; rfl
  | cons e rest ih =>
    intro elapsed
    rw [removeFrom, dueTimesFrom, List.lookup_cons]
    by_cases h : e.kind = kind
    · have hb : (kind == e.kind) = true := by simp [h]
      rw [if_pos h, hb]
      rfl
    · have hb : (kind == e.kind) = false := by simpa using Ne.symm h
      rw [if_neg h, hb, ← ih (elapsed + e.delta), Option.map_map]
      rfl

/-- **A removal** answers with the cycles that were left, and leaves what an erasure leaves. -/
theorem remove?_eq (s : Schedule α) (kind : EventKind) :
    s.remove? kind = (s.until? kind).map fun left => (left, s.erase kind) := by
  have hfst : (s.remove? kind).map (·.1) = s.until? kind := by
    rw [until?_eq_lookup, remove?, Option.map_map]
    exact removeFrom_fst kind s.events 0
  unfold erase
  cases hr : s.remove? kind with
  | none =>
    rw [hr] at hfst
    rw [← hfst]
    rfl
  | some p =>
    rw [hr] at hfst
    rw [← hfst]
    rfl

/-- **An erasure** takes out one entry. -/
theorem Tabulated.erasure (h : s.Tabulated) (hp : (kind, left) ∈ s.dueTimes) :
    ∃ before after, s.dueTimes = before ++ (kind, left) :: after ∧
      (s.erase kind).dueTimes = before ++ after := by
  obtain ⟨before, after, hsplit⟩ := List.append_of_mem hp
  refine ⟨before, after, hsplit, ?_⟩
  have hdistinct := h.distinct
  unfold Distinct at hdistinct
  rw [hsplit, List.map_append, List.map_cons] at hdistinct
  have hbefore : ∀ q ∈ before, ¬ (q.1 == kind) = true := by
    intro q hq heq
    have hk : q.1 = kind := by simpa using heq
    exact List.nodup_append.mp hdistinct |>.2.2 kind
      (List.mem_map.mpr ⟨q, hq, hk⟩) kind List.mem_cons_self rfl
  rw [dueTimes_erase, hsplit, List.eraseP_append_right _ hbefore, List.eraseP_cons_of_pos (by simp)]

/-- The first event comes out exactly if it is due. -/
theorem popDue?_of_dueTimes_cons {rest : List (EventKind × Int)} (h : s.dueTimes = (kind, left) :: rest) :
    (0 < left → s.popDue? = none) ∧
      (left ≤ 0 → ∃ action s', s.popDue? = some (action, s') ∧ s'.dueTimes = rest ∧
        s.labels = (kind, action) :: s'.labels) := by
  constructor
  · intro hleft
    refine popDue?_eq_none_of_head_pos ?_
    intro first hfirst
    rw [untilNext?_eq_head?, h] at hfirst
    obtain rfl : left = first := by simpa using hfirst
    exact hleft
  · intro hleft
    cases hpop : s.popDue? with
    | none =>
      have hpos := head_pos_of_popDue?_eq_none hpop (kind, left) (by rw [h]; rfl)
      dsimp only at hpos
      omega
    | some p =>
      obtain ⟨action, s'⟩ := p
      obtain ⟨k, l, -, htable, hlabels⟩ := dueTimes_of_popDue? hpop
      rw [h] at htable
      obtain ⟨heq, hrest⟩ := List.cons.inj htable
      obtain ⟨rfl, rfl⟩ := Prod.mk.inj heq
      exact ⟨action, s', rfl, hrest.symm, hlabels⟩

/-- What the operations of a schedule answer, and what they do to the table of its due times. -/
structure Keeps (s : Schedule α) : Prop where
  /-- No kind is pending twice. -/
  distinct : (s.dueTimes.map (·.1)).Nodup
  /-- Behind the first event no distance is negative. -/
  spaced : ∀ e ∈ s.events.tail, 0 ≤ e.delta
  /-- The due times ascend. -/
  ascending : s.dueTimes.Pairwise fun p q => p.2 ≤ q.2
  /-- A countdown that is not positive is refused. -/
  refusesCountdown : ∀ kind countdown action, countdown ≤ 0 →
    s.add kind countdown action = .error (.nonPositiveCountdown countdown) ∧
      (Request.add kind countdown action).perform s = s
  /-- A kind that is pending is refused. -/
  refusesKind : ∀ kind countdown action left, 0 < countdown → (kind, left) ∈ s.dueTimes →
    s.add kind countdown action = .error (.duplicate kind) ∧
      (Request.add kind countdown action).perform s = s
  /-- Any other event is due after its countdown, in front of what is due no earlier. -/
  adds : ∀ kind countdown action, 0 < countdown → (∀ left, (kind, left) ∉ s.dueTimes) →
    ∃ s' before after, s.add kind countdown action = .ok s' ∧
      s.dueTimes = before ++ after ∧ s'.dueTimes = before ++ (kind, countdown) :: after ∧
      (∀ p ∈ before, p.2 < countdown) ∧ ∀ p ∈ after, countdown ≤ p.2
  /-- A removal answers with the cycles that were left, and takes out that entry. -/
  removes : ∀ kind left, (kind, left) ∈ s.dueTimes →
    ∃ s' before after, s.remove? kind = some (left, s') ∧
      s.dueTimes = before ++ (kind, left) :: after ∧ s'.dueTimes = before ++ after
  /-- There is nothing to remove of a kind that is not pending. -/
  removesNothing : ∀ kind, (∀ left, (kind, left) ∉ s.dueTimes) → s.remove? kind = none
  /-- The cycles left until a kind are those of its entry. -/
  tells : ∀ kind left, s.until? kind = some left ↔ (kind, left) ∈ s.dueTimes
  /-- Passing time brings every event closer by the same. -/
  advances : ∀ cycles : Nat,
    (s.advance cycles).dueTimes = s.dueTimes.map fun (kind, left) => (kind, left - (cycles : Int))
  /-- Skipping does so, too, by what the first event is farther away than asked for. -/
  skips : ∀ remaining : Nat, ∃ s',
    s.skipToNext remaining = (s.slack remaining, s') ∧
      s'.dueTimes = s.dueTimes.map fun (kind, left) => (kind, left - s.slack remaining)
  /-- The first event stays as long as it is not due. -/
  holds : ∀ p ∈ s.dueTimes.head?, 0 < p.2 → s.popDue? = none
  /-- When it is due it comes out with its action, and the others stay where they are. -/
  pops : ∀ kind left rest, s.dueTimes = (kind, left) :: rest → left ≤ 0 →
    ∃ action s', s.popDue? = some (action, s') ∧ s'.dueTimes = rest ∧
      s.labels = (kind, action) :: s'.labels

/-- **A table in ascending order is kept.** -/
theorem Tabulated.keeps (h : s.Tabulated) : s.Keeps where
  distinct := h.distinct
  spaced := h.ordered.spaced
  ascending := h.ordered
  refusesCountdown kind countdown action hpos := by
    rcases s.add_cases kind countdown action with ⟨-, hadd⟩ | ⟨hlt, -⟩ | ⟨hlt, -⟩
    · exact ⟨hadd, by rw [Request.perform, hadd]; rfl⟩
    · omega
    · omega
  refusesKind kind countdown action left hpos hp := by
    have hpending := (until?_eq_some_iff h.distinct).mpr hp
    rcases s.add_cases kind countdown action with ⟨hle, -⟩ | ⟨-, -, hadd⟩ | ⟨-, hfree, -⟩
    · omega
    · exact ⟨hadd, by rw [Request.perform, hadd]; rfl⟩
    · rw [hpending] at hfree
      cases hfree
  adds kind countdown action hpos hfree := by
    have hnone := until?_eq_none_of_not_mem hfree
    obtain ⟨before, after, hsplit, hinsert, hbefore, hafter⟩ :=
      exists_orderedInsert h.ordered (kind, countdown)
    refine ⟨_, before, after, s.add_eq_ok action hpos hnone, hsplit, ?_, hbefore, hafter⟩
    rw [dueTimes_insert, hinsert]
  removes kind left hp := by
    obtain ⟨before, after, hsplit, herase⟩ := h.erasure hp
    refine ⟨s.erase kind, before, after, ?_, hsplit, herase⟩
    rw [remove?_eq, (until?_eq_some_iff h.distinct).mpr hp]
    rfl
  removesNothing kind hfree := by
    rw [remove?_eq, until?_eq_none_of_not_mem hfree]
    rfl
  tells kind left := until?_eq_some_iff h.distinct
  advances cycles := dueTimes_advance s cycles
  skips remaining :=
    ⟨_, skipToNext_eq s (Int.natCast_nonneg remaining), dueTimes_advance s _⟩
  holds p hp hpos := by
    obtain ⟨rest, hrest⟩ := List.head?_eq_some_iff.mp hp
    exact (popDue?_of_dueTimes_cons hrest).1 hpos
  pops kind left rest hrest hleft := (popDue?_of_dueTimes_cons hrest).2 hleft

end Schedule

/-- **A schedule keeps a table of due times.** Whatever was asked of it since it was empty, each operation
does to the table what its name says, and moves no other entry. -/
theorem schedule_keeps_timetable {α : Type} (requests : List (Request α)) :
    (({} : Schedule α).serve requests).Keeps :=
  (Schedule.tabulated_of_requests requests Schedule.tabulated_empty).keeps

/-- An event that is added while the first one is overdue counts from now on. -/
example :
    (({} : Schedule Unit).serve
      [.add .compare 2 (), .advance 5, .add .runForCycles 1 (), .add (.custom 7) 1 ()]).dueTimes =
      [(.compare, -3), (.custom 7, 1), (.runForCycles, 1)] := rfl

end Vr4300
