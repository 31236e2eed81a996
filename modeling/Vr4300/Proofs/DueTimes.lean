import Mathlib.Data.List.Sort
import Vr4300.Schedule

/-!
# `Proofs.DueTimes` — schedules judged by their due times

A schedule stores distances between neighbours, so every insertion and removal refolds some of them.
Nothing outside depends on the folding: all that matters is the cycles left until each kind, the view
`Schedule.dueTimes`. This file says what each operation does to that view, and then never opens the
list of distances again.

## Contents

* the view under each operation: adding is an ordered insertion (`dueTimes_insert`), removing an erasure
  (`dueTimes_erase`), taking out the first event drops the head (`dueTimes_of_popDue?`), and an idle skip
  is a passing of time (`skipToNext_eq`);
* `Schedule.Ordered`, `Schedule.Distinct`: what makes the view a table, preserved by the operations;
* `until?` read off the table, per operation;
* `Schedule.labels`: which action belongs to which kind, in the order of the view;
* `fireDue_spec`: the dispatch loop, by an invariant of one dispatch and a count of what is due.
-/

namespace Vr4300

namespace Schedule

variable {α : Type}

/-- Falling due no later than. The order of the view. -/
abbrev NoLater (p q : EventKind × Int) : Prop := p.2 ≤ q.2

/-! ## The view under each operation -/

theorem dueTimesFrom_insertAt (kind : EventKind) (action : α) (events : List (Event α)) :
    ∀ elapsed left : Int, dueTimesFrom elapsed (insertAt kind action left events) =
      (dueTimesFrom elapsed events).orderedInsert NoLater (kind, elapsed + left) := by
  induction events with
  | nil => intro elapsed left; rfl
  | cons e rest ih =>
    intro elapsed left
    by_cases h : left ≤ e.delta
    · have hsum : elapsed + left + (e.delta - left) = elapsed + e.delta := by omega
      rw [insertAt, if_pos h, dueTimesFrom, dueTimesFrom, dueTimesFrom, hsum,
        List.orderedInsert_cons_of_le]
      show elapsed + left ≤ elapsed + e.delta
      omega
    · have hsum : elapsed + e.delta + (left - e.delta) = elapsed + left := by omega
      rw [insertAt, if_neg h, dueTimesFrom, dueTimesFrom, ih, hsum,
        List.orderedInsert_of_not_le]
      show ¬ elapsed + left ≤ elapsed + e.delta
      omega

theorem contains_eq_any (s : Schedule α) (kind : EventKind) :
    s.contains kind = s.dueTimes.any (·.1 == kind) := by
  have go (elapsed : Int) (events : List (Event α)) :
      events.any (·.kind == kind) = (dueTimesFrom elapsed events).any (·.1 == kind) := by
    induction events generalizing elapsed with
    | nil => rfl
    | cons e rest ih => rw [dueTimesFrom, List.any_cons, List.any_cons, ih (elapsed + e.delta)]
  exact go 0 s.events

/-- An event is added exactly when its countdown is positive and its kind is not pending. -/
theorem add_eq_ok (s : Schedule α) {kind : EventKind} {countdown : Int} (action : α)
    (hpos : 0 < countdown) (hfree : s.until? kind = none) :
    s.add kind countdown action = .ok ⟨insertAt kind action countdown s.events⟩ := by
  have hnot : s.contains kind = false := by
    rw [until?_eq_lookup] at hfree
    rw [contains_eq_any, List.any_eq_false]
    intro p hp hk
    rw [List.lookup_eq_none_iff] at hfree
    have := hfree p hp
    rw [beq_iff_eq] at hk
    rw [hk] at this
    simp at this
  rw [add, if_neg (by omega), hnot, if_neg (by simp)]

/-- **Adding is an ordered insertion.** -/
theorem dueTimes_insert (s : Schedule α) (kind : EventKind) (countdown : Int) (action : α) :
    (⟨insertAt kind action countdown s.events⟩ : Schedule α).dueTimes =
      s.dueTimes.orderedInsert NoLater (kind, countdown) := by
  rw [dueTimes, dueTimesFrom_insertAt, Int.zero_add]
  rfl

theorem removeFrom_eq (kind : EventKind) (events : List (Event α)) :
    ∀ elapsed start : Int,
      match removeFrom kind elapsed events with
      | none => (dueTimesFrom start events).eraseP (·.1 == kind) = dueTimesFrom start events
      | some (_, rest) =>
        (dueTimesFrom start events).eraseP (·.1 == kind) = dueTimesFrom start rest := by
  induction events with
  | nil => intro elapsed start; rfl
  | cons e rest ih =>
    intro elapsed start
    by_cases h : e.kind = kind
    -- what follows takes over the distance of the event that goes
    · rw [removeFrom, if_pos h]
      show (dueTimesFrom start (e :: rest)).eraseP (·.1 == kind) = dueTimesFrom start (postpone e.delta rest)
      rw [dueTimesFrom_postpone, dueTimesFrom, List.eraseP_cons_of_pos]
      simpa using h
    · have hhead : (dueTimesFrom start (e :: rest)).eraseP (·.1 == kind) =
          (e.kind, start + e.delta) :: (dueTimesFrom (start + e.delta) rest).eraseP (·.1 == kind) := by
        rw [dueTimesFrom, List.eraseP_cons_of_neg]
        simpa using h
      have hrest := ih (elapsed + e.delta) (start + e.delta)
      rw [removeFrom, if_neg h]
      cases hr : removeFrom kind (elapsed + e.delta) rest with
      | none =>
        rw [hr] at hrest
        show (dueTimesFrom start (e :: rest)).eraseP (·.1 == kind) = dueTimesFrom start (e :: rest)
        rw [hhead, hrest, dueTimesFrom]
      | some p =>
        obtain ⟨left, kept⟩ := p
        rw [hr] at hrest
        show (dueTimesFrom start (e :: rest)).eraseP (·.1 == kind) = dueTimesFrom start (e :: kept)
        rw [hhead, hrest, dueTimesFrom]

/-- **Removing is an erasure**: the kind goes, and no other event moves. -/
theorem dueTimes_erase (s : Schedule α) (kind : EventKind) :
    (s.erase kind).dueTimes = s.dueTimes.eraseP (·.1 == kind) := by
  have h := removeFrom_eq kind s.events 0 0
  unfold erase remove?
  cases hr : removeFrom kind 0 s.events with
  | none => rw [hr] at h; exact h.symm
  | some p =>
    obtain ⟨left, rest⟩ := p
    rw [hr] at h
    exact h.symm

/-- The pending kinds with their actions, in order. -/
def labels (s : Schedule α) : List (EventKind × α) := s.events.map fun e => (e.kind, e.action)

theorem labels_postpone (n : Int) (events : List (Event α)) :
    (⟨postpone n events⟩ : Schedule α).labels = (⟨events⟩ : Schedule α).labels := by
  cases events <;> rfl

/-- What is pending is labelled. -/
theorem exists_label {s : Schedule α} {kind : EventKind} {left : Int} (h : (kind, left) ∈ s.dueTimes) :
    ∃ action, (kind, action) ∈ s.labels := by
  obtain ⟨events⟩ := s
  unfold dueTimes at h
  generalize (0 : Int) = elapsed at h
  induction events generalizing elapsed with
  | nil => cases h
  | cons e rest ih =>
    rcases List.mem_cons.mp h with heq | h
    · obtain ⟨rfl, -⟩ := Prod.mk.inj heq
      exact ⟨e.action, List.mem_cons_self⟩
    · obtain ⟨action, haction⟩ := ih _ h
      exact ⟨action, List.mem_cons_of_mem _ haction⟩

@[simp] theorem labels_advance (s : Schedule α) (n : Int) : (s.advance n).labels = s.labels := by
  obtain ⟨events⟩ := s
  cases events <;> rfl

theorem mem_labels_insert {s : Schedule α} {kind : EventKind} {n : Int} {action : α}
    {p : EventKind × α} (h : p ∈ (⟨insertAt kind action n s.events⟩ : Schedule α).labels) :
    p = (kind, action) ∨ p ∈ s.labels := by
  obtain ⟨events⟩ := s
  unfold labels at *
  induction events generalizing n with
  | nil => exact Or.inl (by simpa [insertAt] using h)
  | cons e rest ih =>
    by_cases hn : n ≤ e.delta
    · simpa [insertAt, hn] using h
    · simp only [insertAt, hn, if_false, List.map_cons, List.mem_cons] at h ⊢
      rcases h with h | h
      · exact Or.inr (Or.inl h)
      · exact (ih h).imp id Or.inr

theorem mem_labels_erase {s : Schedule α} {kind : EventKind} {p : EventKind × α}
    (h : p ∈ (s.erase kind).labels) : p ∈ s.labels := by
  have go (events : List (Event α)) : ∀ elapsed left rest,
      removeFrom kind elapsed events = some (left, rest) →
        p ∈ rest.map (fun e => (e.kind, e.action)) → p ∈ events.map (fun e => (e.kind, e.action)) := by
    induction events with
    | nil => intro elapsed left rest hr; simp [removeFrom] at hr
    | cons e later ih =>
      intro elapsed left rest hr hp
      by_cases hk : e.kind = kind
      · simp only [removeFrom, hk, if_true, Option.some.injEq, Prod.mk.injEq] at hr
        obtain ⟨-, rfl⟩ := hr
        exact List.mem_cons_of_mem _ ((labels_postpone e.delta later).subst (motive := (p ∈ ·)) hp)
      · simp only [removeFrom, hk, if_false, Option.map_eq_some_iff, Prod.mk.injEq, Prod.exists] at hr
        obtain ⟨l, r, hr, -, rfl⟩ := hr
        rcases List.mem_cons.mp hp with hp | hp
        · exact List.mem_cons.mpr (Or.inl hp)
        · exact List.mem_cons_of_mem _ (ih _ _ _ hr hp)
  unfold erase remove? at h
  cases hr : removeFrom kind 0 s.events with
  | none => rw [hr] at h; exact h
  | some q =>
    obtain ⟨left, rest⟩ := q
    rw [hr] at h
    exact go s.events 0 left rest hr h

/-- The first event comes out if it is due, and the others stay where they are. -/
theorem dueTimes_of_popDue? {s rest : Schedule α} {action : α} (h : s.popDue? = some (action, rest)) :
    ∃ kind left, left ≤ 0 ∧ s.dueTimes = (kind, left) :: rest.dueTimes ∧
      s.labels = (kind, action) :: rest.labels := by
  obtain ⟨events⟩ := s
  cases events with
  | nil => simp [popDue?] at h
  | cons e later =>
    by_cases hd : 0 < e.delta
    · simp [popDue?, hd] at h
    · simp only [popDue?, if_neg hd, Option.some.injEq, Prod.mk.injEq] at h
      obtain ⟨rfl, rfl⟩ := h
      refine ⟨e.kind, e.delta, by omega, ?_, ?_⟩
      · rw [dueTimes, dueTimes, dueTimesFrom, dueTimesFrom_postpone, Int.zero_add]
      · rw [labels_postpone]
        rfl

theorem head_pos_of_popDue?_eq_none {s : Schedule α} (h : s.popDue? = none) :
    ∀ p ∈ s.dueTimes.head?, 0 < p.2 := by
  obtain ⟨events⟩ := s
  cases events with
  | nil => intro p hp; simp [dueTimes, dueTimesFrom] at hp
  | cons e later =>
    intro p hp
    have hd : 0 < e.delta := by
      by_contra hd
      simp [popDue?, hd] at h
    simp only [dueTimes, dueTimesFrom, List.head?_cons, Option.mem_some_iff] at hp
    subst hp
    show 0 < 0 + e.delta
    omega

theorem popDue?_eq_none_of_head_pos {s : Schedule α} (h : ∀ left ∈ s.untilNext?, 0 < left) :
    s.popDue? = none := by
  obtain ⟨events⟩ := s
  cases events with
  | nil => rfl
  | cons e later =>
    have hd : 0 < e.delta := h e.delta rfl
    simp [popDue?, hd]

@[simp] theorem advance_zero (s : Schedule α) : s.advance 0 = s := by
  obtain ⟨events⟩ := s
  cases events with
  | nil => rfl
  | cons e rest => simp [advance]

theorem advance_advance (s : Schedule α) (m n : Int) :
    (s.advance m).advance n = s.advance (m + n) := by
  obtain ⟨events⟩ := s
  cases events with
  | nil => rfl
  | cons e rest =>
    have h : e.delta - m - n = e.delta - (m + n) := by omega
    simp [advance, h]

theorem untilNext?_advance (s : Schedule α) (n : Int) :
    (s.advance n).untilNext? = s.untilNext?.map (· - n) := by
  obtain ⟨events⟩ := s
  cases events <;> rfl

/-- The cycles by which time may be forwarded to leave `remaining` before the first event. -/
def slack (s : Schedule α) (remaining : Int) : Int :=
  max 0 (s.untilNext?.getD 0 - remaining)

/-- **An idle skip is a passing of time.** -/
theorem skipToNext_eq (s : Schedule α) {remaining : Int} (h : 0 ≤ remaining) :
    s.skipToNext remaining = (s.slack remaining, s.advance (s.slack remaining)) := by
  obtain ⟨events⟩ := s
  cases events with
  | nil =>
    have hz : slack (⟨[]⟩ : Schedule α) remaining = 0 := by
      show max 0 (0 - remaining) = 0
      omega
    rw [hz, advance_zero]
    rfl
  | cons e rest =>
    have hslack : slack (⟨e :: rest⟩ : Schedule α) remaining = max 0 (e.delta - remaining) := rfl
    by_cases hd : remaining < e.delta
    · have hs : slack (⟨e :: rest⟩ : Schedule α) remaining = e.delta - remaining := by rw [hslack]; omega
      have hback : e.delta - (e.delta - remaining) = remaining := by omega
      rw [hs]
      simp [skipToNext, advance, hd, hback]
    · have hs : slack (⟨e :: rest⟩ : Schedule α) remaining = 0 := by rw [hslack]; omega
      rw [hs, advance_zero]
      simp [skipToNext, hd]

/-! ## Schedules whose view is a table -/

/-- The events are kept in the order in which they fall due. -/
def Ordered (s : Schedule α) : Prop := s.dueTimes.Pairwise NoLater

/-- No kind is pending twice. -/
def Distinct (s : Schedule α) : Prop := (s.dueTimes.map (·.1)).Nodup

theorem Ordered.advance {s : Schedule α} (h : s.Ordered) (n : Int) : (s.advance n).Ordered := by
  unfold Ordered at *
  rw [dueTimes_advance, List.pairwise_map]
  exact h.imp fun hpq => by simp only [NoLater] at hpq ⊢; omega

theorem Distinct.advance {s : Schedule α} (h : s.Distinct) (n : Int) : (s.advance n).Distinct := by
  unfold Distinct at *
  rw [dueTimes_advance, List.map_map]
  exact h

theorem Ordered.insert {s : Schedule α} (h : s.Ordered) (kind : EventKind) (n : Int) (action : α) :
    (⟨insertAt kind action n s.events⟩ : Schedule α).Ordered := by
  unfold Ordered at *
  rw [dueTimes_insert]
  have : Std.Total (α := EventKind × Int) NoLater := ⟨fun p q => Int.le_total p.2 q.2⟩
  have : IsTrans (EventKind × Int) NoLater := ⟨fun _ _ _ => Int.le_trans⟩
  exact h.orderedInsert _ _

theorem Ordered.erase {s : Schedule α} (h : s.Ordered) (kind : EventKind) : (s.erase kind).Ordered := by
  unfold Ordered at *
  rw [dueTimes_erase]
  exact h.sublist List.eraseP_sublist

theorem Distinct.erase {s : Schedule α} (h : s.Distinct) (kind : EventKind) :
    (s.erase kind).Distinct := by
  unfold Distinct at *
  rw [dueTimes_erase]
  exact h.sublist (List.eraseP_sublist.map _)

/-- In an ordered schedule nothing falls due before the first event. -/
theorem Ordered.head_le {s : Schedule α} (h : s.Ordered) {left : Int} (hl : s.untilNext? = some left)
    {p : EventKind × Int} (hp : p ∈ s.dueTimes) : left ≤ p.2 := by
  unfold Ordered at h
  rw [untilNext?_eq_head?] at hl
  cases hd : s.dueTimes with
  | nil => rw [hd] at hp; simp at hp
  | cons q rest =>
    rw [hd] at h hl hp
    have hq : q.2 = left := by simpa using hl
    rw [← hq]
    rcases List.mem_cons.mp hp with rfl | hr
    · exact Int.le_refl _
    · exact (List.pairwise_cons.mp h).1 p hr

/-! ## Cycles left, per operation -/

/-- In a table the cycles left until a kind are those of its entry. -/
theorem until?_eq_some_iff {s : Schedule α} (h : s.Distinct) {kind : EventKind} {left : Int} :
    s.until? kind = some left ↔ (kind, left) ∈ s.dueTimes := by
  rw [until?_eq_lookup]
  unfold Distinct at h
  generalize s.dueTimes = table at h
  induction table with
  | nil => simp
  | cons p rest ih =>
    obtain ⟨k, l⟩ := p
    have hn := List.nodup_cons.mp h
    rw [List.lookup_cons]
    by_cases hk : kind = k
    · subst hk
      have hout : (kind, left) ∉ rest := fun hm => hn.1 (List.mem_map.mpr ⟨(kind, left), hm, rfl⟩)
      simp [hout, eq_comm]
    · have hb : (kind == k) = false := by simpa using hk
      rw [hb, ih hn.2]
      simp [hk]

/-- A kind that is pending is pending once. -/
theorem filter_dueTimes {s : Schedule α} (hs : s.Distinct) {kind : EventKind} {left : Int}
    (h : (kind, left) ∈ s.dueTimes) : s.dueTimes.filter (fun p => p.1 == kind) = [(kind, left)] := by
  unfold Distinct at hs
  generalize s.dueTimes = ps at hs h
  induction ps with
  | nil => cases h
  | cons p rest ih =>
    obtain ⟨hp, hrest⟩ := List.nodup_cons.mp hs
    rcases List.mem_cons.mp h with rfl | h
    · have hnone : rest.filter (fun p => p.1 == kind) = [] := by
        rw [List.filter_eq_nil_iff]
        intro q hq heq
        exact hp (List.mem_map.mpr ⟨q, hq, beq_iff_eq.mp heq⟩)
      rw [List.filter_cons_of_pos (by simp), hnone]
    · have hne : p.1 ≠ kind := fun heq => hp (List.mem_map.mpr ⟨_, h, heq.symm⟩)
      rw [List.filter_cons_of_neg (by simpa using hne)]
      exact ih hrest h

theorem until?_eq_none_iff {s : Schedule α} {kind : EventKind} :
    s.until? kind = none ↔ ∀ p ∈ s.dueTimes, p.1 ≠ kind := by
  rw [until?_eq_lookup, List.lookup_eq_none_iff]
  constructor
  · intro h p hp he
    have := h p hp
    simp [he] at this
  · intro h p hp
    have := h p hp
    simpa using Ne.symm this

@[simp] theorem until?_advance (s : Schedule α) (n : Int) (kind : EventKind) :
    (s.advance n).until? kind = (s.until? kind).map (· - n) := by
  rw [until?_eq_lookup, until?_eq_lookup, dueTimes_advance]
  induction s.dueTimes with
  | nil => rfl
  | cons p rest ih =>
    obtain ⟨k, l⟩ := p
    rw [List.map_cons, List.lookup_cons, List.lookup_cons, ih]
    cases kind == k <;> rfl

theorem Distinct.insert {s : Schedule α} (h : s.Distinct) {kind : EventKind} (n : Int) (action : α)
    (hfree : s.until? kind = none) :
    (⟨insertAt kind action n s.events⟩ : Schedule α).Distinct := by
  unfold Distinct at *
  rw [dueTimes_insert, ((List.perm_orderedInsert NoLater (kind, n) s.dueTimes).map _).nodup_iff,
    List.map_cons, List.nodup_cons]
  refine ⟨?_, h⟩
  intro hm
  obtain ⟨p, hp, he⟩ := List.mem_map.mp hm
  exact until?_eq_none_iff.mp hfree p hp he

theorem until?_insert {s : Schedule α} (h : s.Distinct) {kind : EventKind} (n : Int) (action : α)
    (hfree : s.until? kind = none) (k : EventKind) :
    (⟨insertAt kind action n s.events⟩ : Schedule α).until? k =
      if k = kind then some n else s.until? k := by
  have hd := h.insert n action hfree
  have hmem (p : EventKind × Int) :
      p ∈ (⟨insertAt kind action n s.events⟩ : Schedule α).dueTimes ↔ p = (kind, n) ∨ p ∈ s.dueTimes := by
    rw [dueTimes_insert]
    exact List.mem_orderedInsert NoLater
  by_cases hk : k = kind
  · rw [if_pos hk, until?_eq_some_iff hd, hmem, hk]
    exact Or.inl rfl
  · rw [if_neg hk]
    cases hu : s.until? k with
    | none =>
      rw [until?_eq_none_iff] at hu ⊢
      intro p hp
      rcases (hmem p).mp hp with rfl | hp
      · exact Ne.symm hk
      · exact hu p hp
    | some left =>
      rw [until?_eq_some_iff hd, hmem]
      exact Or.inr ((until?_eq_some_iff h).mp hu)

theorem until?_erase {s : Schedule α} (h : s.Distinct) (kind k : EventKind) :
    (s.erase kind).until? k = if k = kind then none else s.until? k := by
  have hd := h.erase kind
  by_cases hk : k = kind
  · subst hk
    rw [if_pos rfl, until?_eq_none_iff, dueTimes_erase]
    unfold Distinct at h
    clear hd
    -- the table alone decides, so the induction is on it
    generalize s.dueTimes = table at h
    induction table with
    | nil => simp
    | cons p rest ih =>
      have hn := List.nodup_cons.mp h
      by_cases hp : p.1 = k
      · rw [List.eraseP_cons_of_pos (by simpa using hp)]
        intro q hq he
        exact hn.1 (List.mem_map.mpr ⟨q, hq, he.trans hp.symm⟩)
      · rw [List.eraseP_cons_of_neg (by simpa using hp)]
        intro q hq
        rcases List.mem_cons.mp hq with rfl | hq
        · exact hp
        · exact ih hn.2 q hq
  · rw [if_neg hk]
    have hmem (left : Int) : (k, left) ∈ (s.erase kind).dueTimes ↔ (k, left) ∈ s.dueTimes := by
      rw [dueTimes_erase]
      exact List.mem_eraseP_of_neg (by simpa using hk)
    cases hu : s.until? k with
    | none =>
      rw [until?_eq_none_iff] at hu ⊢
      intro p hp he
      obtain ⟨k', l⟩ := p
      obtain rfl : k' = k := he
      exact hu (k', l) ((hmem l).mp hp) rfl
    | some left => rw [until?_eq_some_iff hd, hmem, ← until?_eq_some_iff h, hu]

/-- After a kind is taken out, the others keep their cycles. -/
theorem until?_of_dueTimes_cons {s rest : Schedule α} {e : EventKind × Int} (h : s.Distinct)
    (hc : s.dueTimes = e :: rest.dueTimes) (k : EventKind) :
    rest.until? k = if k = e.1 then none else s.until? k := by
  unfold Distinct at h
  rw [hc, List.map_cons] at h
  have hn := List.nodup_cons.mp h
  by_cases hk : k = e.1
  · rw [if_pos hk, until?_eq_none_iff]
    intro p hp he
    exact hn.1 (List.mem_map.mpr ⟨p, hp, he.trans hk⟩)
  · have hb : (k == e.1) = false := by simpa using hk
    rw [if_neg hk, until?_eq_lookup, until?_eq_lookup, hc]
    obtain ⟨k', l⟩ := e
    rw [List.lookup_cons, hb]

end Schedule

/-! ## The dispatch loop -/

section Dispatch

variable {σ α : Type} [Scheduled σ α Int]

/-- What one dispatch preserves, the dispatch of everything that is due preserves; and if each dispatch
leaves fewer events due, enough of them leave none. -/
theorem fireDue_spec {P : σ → Prop} {overdue : σ → Nat}
    (hstep : ∀ s action rest, P s → (Scheduled.schedule s).popDue? = some (action, rest) →
      P (Scheduled.perform action (Scheduled.withSchedule rest s)) ∧
        overdue (Scheduled.perform action (Scheduled.withSchedule rest s)) < overdue s)
    {s : σ} (hs : P s) {limit : Nat} (hlimit : overdue s ≤ limit) :
    P (fireDue limit s) ∧ (Scheduled.schedule (fireDue limit s)).popDue? = none := by
  induction limit generalizing s with
  | zero =>
    -- nothing is overdue, so a dispatch would leave less than nothing
    refine ⟨hs, ?_⟩
    cases hp : (Scheduled.schedule s).popDue? with
    | none => exact hp
    | some p =>
      obtain ⟨action, rest⟩ := p
      have := (hstep s action rest hs hp).2
      omega
  | succ limit ih =>
    unfold fireDue
    cases hp : (Scheduled.schedule s).popDue? with
    | none => exact ⟨hs, hp⟩
    | some p =>
      obtain ⟨action, rest⟩ := p
      obtain ⟨hs', hlt⟩ := hstep s action rest hs hp
      exact ih hs' (by omega)

/-- Nothing is dispatched while nothing is due. -/
theorem fireDue_of_none {s : σ} (h : (Scheduled.schedule s).popDue? = none) (limit : Nat) :
    fireDue limit s = s := by
  cases limit with
  | zero => rfl
  | succ limit => unfold fireDue; rw [h]

end Dispatch

end Vr4300
