import Vr4300.Proofs.Consistency

/-!
# `Proofs.Links` — links between fragments go unnoticed

A fragment remembers which fragment was entered after it, for each of its exits, and the next lookup tries that
one first. Links are left behind when their target is dropped, and when another fragment takes its place.

They never decide anything. A link that leads somewhere leads to what is compiled for the address
(`Consistent.compiled?_of_linked?`), so a lookup answers what it would answer without links
(`Consistent.fst_lookup`). Two machines that differ in their links alone, in any way, go on to do the same
(`Relinked.passAll`). And because no number is given to two fragments, one that was dropped is never found again
(`Succeeds`).

## Contents

* `FragmentStore.Relinked`, `FragmentCache.Relinked`, `Machine.Relinked`: equal up to links;
* `FragmentCache.lookupUnlinked`: a lookup that does not know of links;
* `FragmentStore.Succeeds`: what may become of a store;
* `Moment`, `Machine.passAll`: the states of a machine, also in the middle of a run;
* `links_unnoticed`.
-/

namespace Vr4300

/-! ## Stores -/

/-- The fragment without its links. -/
def Fragment.unlinked (f : Fragment) : Fragment := { f with successors := #[] }

/-- The stores hold the same fragments, which may be linked in different ways. -/
structure FragmentStore.Relinked (s t : FragmentStore) : Prop where
  /-- They will give the same numbers. -/
  fresh : t.fresh = s.fresh
  /-- They hold the same fragments. -/
  fragments : ∀ id, (t.get? id).map Fragment.unlinked = (s.get? id).map Fragment.unlinked

namespace FragmentStore.Relinked

variable {s t u : FragmentStore} {id : FragmentId}

theorem refl (s : FragmentStore) : s.Relinked s := ⟨rfl, fun _ => rfl⟩

theorem symm (h : s.Relinked t) : t.Relinked s := ⟨h.fresh.symm, fun id => (h.fragments id).symm⟩

theorem trans (h : s.Relinked t) (h' : t.Relinked u) : s.Relinked u :=
  ⟨h'.fresh.trans h.fresh, fun id => (h'.fragments id).trans (h.fragments id)⟩

theorem get?_of_none (h : s.Relinked t) (hs : s.get? id = none) : t.get? id = none := by
  have heq := h.fragments id
  rw [hs] at heq
  exact Option.map_eq_none_iff.mp heq

/-- A fragment of the one store is in the other, with links of its own. -/
theorem get?_of_some (h : s.Relinked t) {f : Fragment} (hs : s.get? id = some f) :
    ∃ successors, t.get? id = some { f with successors := successors } := by
  have heq := h.fragments id
  rw [hs] at heq
  obtain ⟨g, hg, hunlinked⟩ := Option.map_eq_some_iff.mp heq
  refine ⟨g.successors, hg.trans (congrArg some ?_)⟩
  exact congrArg (fun b : Fragment => { b with successors := g.successors }) hunlinked

/-- A change that does not look at links. -/
theorem modify (h : s.Relinked t) (id : FragmentId) {change : Fragment → Fragment}
    (hchange : ∀ f g, g.unlinked = f.unlinked → (change g).unlinked = (change f).unlinked) :
    FragmentStore.Relinked ⟨s.fragments.modify id change, s.fresh⟩ ⟨t.fragments.modify id change, t.fresh⟩ := by
  refine ⟨h.fresh, ?_⟩
  intro i
  rw [FragmentCache.get?_modify_eq, FragmentCache.get?_modify_eq]
  split
  · cases hs : s.get? i with
    | none => rw [h.get?_of_none hs]
    | some f =>
      obtain ⟨successors, ht⟩ := h.get?_of_some hs
      rw [ht]
      exact congrArg some (hchange f _ rfl)
  · exact h.fragments i

theorem countRun (h : s.Relinked t) (id : FragmentId) : (s.countRun id).Relinked (t.countRun id) :=
  h.modify id fun _ _ heq => congrArg (fun b : Fragment => { b with runs := b.runs + 1 }) heq

/-- A link is all that linking changes. -/
theorem link (s : FragmentStore) (id : FragmentId) (exit : Nat) (next : FragmentId) :
    s.Relinked (s.link id exit next) := by
  refine ⟨rfl, ?_⟩
  intro i
  unfold FragmentStore.link
  rw [FragmentCache.get?_modify_eq]
  split
  · rw [Option.map_map]
    rfl
  · rfl

theorem drop (h : s.Relinked t) (id : FragmentId) : (s.drop id).Relinked (t.drop id) := by
  refine ⟨h.fresh, ?_⟩
  intro i
  have hdrop (s : FragmentStore) : (s.drop id).get? i = if i = id then none else s.get? i := by
    apply Option.ext
    intro f
    rw [FragmentCache.get?_drop_iff]
    by_cases hi : i = id
    · simp [hi]
    · simp [hi]
  rw [hdrop, hdrop]
  split
  · rfl
  · exact h.fragments i

theorem clear (h : s.Relinked t) : s.clear.Relinked t.clear := ⟨h.fresh, fun _ => rfl⟩

theorem add (h : s.Relinked t) (f : Fragment) : (s.add f).2.Relinked (t.add f).2 := by
  refine ⟨congrArg (· + 1) h.fresh, ?_⟩
  intro i
  rw [FragmentCache.get?_add_eq, FragmentCache.get?_add_eq, h.fresh]
  split
  · rfl
  · exact h.fragments i

end FragmentStore.Relinked

/-! ### What becomes of a store -/

/-- **The second store may come of the first one**: no number is given again, and what has an old number is for
the address that it was for. -/
structure FragmentStore.Succeeds (s t : FragmentStore) : Prop where
  /-- Numbers are given in order. -/
  fresh : s.fresh ≤ t.fresh
  /-- What has an old number is an old fragment. -/
  old : ∀ id f, id < s.fresh → t.get? id = some f → ∃ g, s.get? id = some g ∧ g.entry = f.entry

namespace FragmentStore.Succeeds

variable {s t u : FragmentStore}

theorem refl (s : FragmentStore) : s.Succeeds s := ⟨Nat.le_refl _, fun _ f _ hf => ⟨f, hf, rfl⟩⟩

theorem trans (h : s.Succeeds t) (h' : t.Succeeds u) : s.Succeeds u := by
  refine ⟨Nat.le_trans h.fresh h'.fresh, ?_⟩
  intro id f hlt hf
  obtain ⟨g, hg, hentry⟩ := h'.old id f (Nat.lt_of_lt_of_le hlt h.fresh) hf
  obtain ⟨b, hb, hentry'⟩ := h.old id g hlt hg
  exact ⟨b, hb, hentry'.trans hentry⟩

/-- Links change no fragment. -/
theorem of_relinked (h : s.Relinked t) : s.Succeeds t := by
  refine ⟨Nat.le_of_eq h.fresh.symm, ?_⟩
  intro id f _ hf
  obtain ⟨successors, hg⟩ := h.symm.get?_of_some hf
  exact ⟨_, hg, rfl⟩

theorem clear (s : FragmentStore) : s.Succeeds s.clear := by
  refine ⟨Nat.le_refl _, ?_⟩
  intro id f _ hf
  cases hf.symm.trans (Std.TreeMap.getElem?_emptyc (a := id))

/-- A fragment that is made has a new number. -/
theorem add (s : FragmentStore) (f : Fragment) : s.Succeeds (s.add f).2 := by
  refine ⟨Nat.le_succ _, ?_⟩
  intro id g hlt hg
  rcases FragmentCache.get?_add hg with ⟨rfl, -⟩ | ⟨-, hg⟩
  · exact absurd hlt (Nat.lt_irrefl _)
  · exact ⟨g, hg, rfl⟩

/-- A fragment that is counted is what it was. -/
theorem countRun (s : FragmentStore) (id : FragmentId) : s.Succeeds (s.countRun id) := by
  refine ⟨Nat.le_refl _, ?_⟩
  intro i g _ hg
  obtain ⟨f, successors, runs, hf, rfl⟩ :=
    FragmentCache.get?_modify_links (s := s) (fun f => ⟨f.successors, f.runs + 1, rfl⟩) hg
  exact ⟨f, hf, rfl⟩

end FragmentStore.Succeeds

/-! ## Caches -/

namespace FragmentCache

/-- The second cache is the first one with other links, and with another memory of the last exit. -/
def Relinked (x y : FragmentCache) : Prop :=
  ∃ store last, y = { x with store := store, lastExit := last } ∧ x.store.Relinked store

/-- The cache with another memory of the last exit. -/
def remembering (x : FragmentCache) (last : Option (FragmentId × Nat)) : FragmentCache :=
  { x with lastExit := last }

/-- **A lookup without links**: what is compiled for the address, if it may be entered now. -/
def lookupUnlinked (x : FragmentCache) (c : Cpu) (breakpoints : List UInt64) : Option FragmentId :=
  if !x.enabled || x.isRecording || c.inDelaySlot then none
  else (x.compiled? c.pc).filter fun id => (x.store.get? id).any (isEnterable · c breakpoints)

/-- **A link that leads somewhere** leads to what is compiled for the address. -/
theorem Consistent.compiled?_of_linked? {x : FragmentCache} {limit : Nat} (h : x.Consistent limit)
    {last : Option (FragmentId × Nat)} {pc : UInt64} {id : FragmentId} (hl : x.linked? last pc = some id) :
    x.compiled? pc = some id := by
  have hfind : (x.find last pc).1 = some id := by
    unfold find
    rw [hl]
  exact (h.find_fst last pc).symm.trans hfind

/-- **A lookup answers what it would answer without links**, whatever is remembered of the last exit. -/
theorem Consistent.fst_lookup {x : FragmentCache} {limit : Nat} (h : x.Consistent limit)
    (last : Option (FragmentId × Nat)) (c : Cpu) (breakpoints : List UInt64) :
    ((x.remembering last).lookup c breakpoints).1 = x.lookupUnlinked c breakpoints := by
  have hfind := h.withoutLast.find_fst last c.pc
  have hstore := ({ x with lastExit := none } : FragmentCache).store_find last c.pc
  unfold FragmentCache.lookup lookupUnlinked remembering isRecording
  dsimp only
  split
  · rfl
  rw [hfind, show ({ x with lastExit := none } : FragmentCache).compiled? c.pc = x.compiled? c.pc from rfl]
  cases x.compiled? c.pc with
  | none => rfl
  | some id =>
    -- finding it may have linked a fragment to it, which does not decide whether it may be entered
    have hrelinked : x.store.Relinked (({ x with lastExit := none } : FragmentCache).find last c.pc).2.store := by
      rcases hstore with heq | ⟨previous, exit, next, heq⟩ <;> rw [heq]
      · exact .refl _
      · exact .link _ _ _ _
    rw [Option.bind_some, Option.filter_some]
    cases hs : x.store.get? id with
    | none => rw [hrelinked.get?_of_none hs]; rfl
    | some f =>
      obtain ⟨successors, ht⟩ := hrelinked.get?_of_some hs
      rw [ht]
      rfl

namespace Relinked

variable {x y : FragmentCache} {limit : Nat}

theorem refl (x : FragmentCache) : x.Relinked x := ⟨x.store, x.lastExit, rfl, .refl _⟩

theorem symm (h : x.Relinked y) : y.Relinked x := by
  obtain ⟨store, last, rfl, hstore⟩ := h
  exact ⟨x.store, x.lastExit, rfl, hstore.symm⟩

theorem trans {z : FragmentCache} (h : x.Relinked y) (h' : y.Relinked z) : x.Relinked z := by
  obtain ⟨store, last, rfl, hstore⟩ := h
  obtain ⟨store', last', rfl, hstore'⟩ := h'
  exact ⟨store', last', rfl, hstore.trans hstore'⟩

/-- Links are no part of a consistent cache. -/
theorem consistent (h : x.Relinked y) (hx : x.Consistent limit) : (y.remembering none).Consistent limit := by
  obtain ⟨store, last, rfl, hstore⟩ := h
  refine ⟨hx.limit_eq, hx.limit_pos, hx.recording, hx.trace, ?_, hx.indexed, hx.tidy, ?_, ?_, ?_⟩
  · intro k id hk
    obtain ⟨f, hf, hformed, hlines⟩ := hx.compiled k id hk
    obtain ⟨successors, hg⟩ := hstore.get?_of_some hf
    exact ⟨_, hg, ⟨hformed.entry_eq, hformed.first, hformed.short, hformed.length_eq, hformed.lines_eq⟩,
      hlines⟩
  · intro id g hg
    obtain ⟨successors, hf⟩ := hstore.symm.get?_of_some hg
    have hid := hx.stored id _ hf
    exact hid
  · intro id g hg
    obtain ⟨successors, hf⟩ := hstore.symm.get?_of_some hg
    show id < store.fresh
    rw [hstore.fresh]
    exact hx.fresh id _ hf
  · intro id exit hlast
    cases hlast

theorem lookupUnlinked (h : x.Relinked y) (c : Cpu) (breakpoints : List UInt64) :
    y.lookupUnlinked c breakpoints = x.lookupUnlinked c breakpoints := by
  obtain ⟨store, last, rfl, hstore⟩ := h
  unfold FragmentCache.lookupUnlinked
  dsimp only
  have henter (id : FragmentId) :
      (store.get? id).any (isEnterable · c breakpoints) = (x.store.get? id).any (isEnterable · c breakpoints) := by
    cases hs : x.store.get? id with
    | none => rw [hstore.get?_of_none hs]
    | some f =>
      obtain ⟨successors, ht⟩ := hstore.get?_of_some hs
      rw [ht]
      rfl
  simp only [henter]
  rfl

/-- **Lookups** in caches that differ in their links give the same answer. -/
theorem fst_lookup (h : x.Relinked y) (hx : x.Consistent limit) (c : Cpu) (breakpoints : List UInt64) :
    (y.lookup c breakpoints).1 = (x.lookup c breakpoints).1 := by
  have hy := (h.consistent hx).fst_lookup y.lastExit c breakpoints
  have hself := hx.fst_lookup x.lastExit c breakpoints
  exact hy.trans ((h.lookupUnlinked c breakpoints).trans hself.symm)

/-- All that finding a fragment changes are links. -/
theorem of_find (x : FragmentCache) (last : Option (FragmentId × Nat)) (pc : UInt64) :
    x.Relinked (x.find last pc).2 := by
  unfold find
  split
  · exact .refl x
  · split
    · exact .refl x
    · exact .refl x
    · exact ⟨_, x.lastExit, rfl, .link _ _ _ _⟩

/-- All that a lookup changes are links. -/
theorem of_lookup (x : FragmentCache) (c : Cpu) (breakpoints : List UInt64) :
    x.Relinked (x.lookup c breakpoints).2 := by
  have hforgotten : x.Relinked { x with lastExit := none } := ⟨x.store, none, rfl, .refl _⟩
  unfold FragmentCache.lookup
  dsimp only
  split
  · exact hforgotten
  · exact hforgotten.trans (of_find _ x.lastExit c.pc)

theorem lookup (h : x.Relinked y) (c : Cpu) (breakpoints : List UInt64) :
    (x.lookup c breakpoints).2.Relinked (y.lookup c breakpoints).2 :=
  (of_lookup x c breakpoints).symm.trans (h.trans (of_lookup y c breakpoints))

/-! ### Dropping -/

theorem clear (h : x.Relinked y) : x.clear.Relinked y.clear := by
  obtain ⟨store, last, rfl, hstore⟩ := h
  exact ⟨store.clear, none, rfl, hstore.clear⟩

theorem setEnabled (h : x.Relinked y) (enabled : Bool) : (x.setEnabled enabled).Relinked (y.setEnabled enabled) := by
  have hswitched : ({ x with enabled := enabled } : FragmentCache).Relinked { y with enabled := enabled } := by
    obtain ⟨store, last, rfl, hstore⟩ := h
    exact ⟨store, last, rfl, hstore⟩
  unfold FragmentCache.setEnabled
  dsimp only
  split
  · exact hswitched
  · exact hswitched.clear

theorem forget (h : x.Relinked y) (entry : UInt64) : (x.forget entry).Relinked (y.forget entry) := by
  obtain ⟨store, last, rfl, hstore⟩ := h
  unfold FragmentCache.forget
  dsimp only
  rw [show ({ x with store := store, lastExit := last } : FragmentCache).compiled? entry = x.compiled? entry
    from rfl]
  cases x.compiled? entry with
  | none => exact ⟨store, last, rfl, hstore⟩
  | some id =>
    unfold dropCompiled
    dsimp only
    cases hs : x.store.get? id with
    | none =>
      rw [hstore.get?_of_none hs]
      exact ⟨store, last, rfl, hstore⟩
    | some f =>
      obtain ⟨successors, ht⟩ := hstore.get?_of_some hs
      rw [ht]
      exact ⟨store.drop id, _, rfl, hstore.drop id⟩

theorem forgetAll (entries : List UInt64) :
    ∀ {x y : FragmentCache}, x.Relinked y →
      (y.forgetAll entries).1 = (x.forgetAll entries).1 ∧ (x.forgetAll entries).2.Relinked (y.forgetAll entries).2 := by
  induction entries with
  | nil => intro x y h; exact ⟨rfl, h⟩
  | cons entry rest ih => intro x y h; exact ⟨rfl, (ih (h.forget entry)).2⟩

theorem invalidate (h : x.Relinked y) (address len : UInt64) :
    (y.invalidate address len).1 = (x.invalidate address len).1 ∧
      (x.invalidate address len).2.Relinked (y.invalidate address len).2 := by
  have hfound : ∃ entries, x.invalidate address len = x.forgetAll entries ∧
      y.invalidate address len = y.forgetAll entries := by
    obtain ⟨store, last, rfl, -⟩ := h
    exact ⟨_, rfl, rfl⟩
  obtain ⟨entries, hx, hy⟩ := hfound
  rw [hx, hy]
  exact forgetAll entries h

theorem invalidateMapped (h : x.Relinked y) :
    y.invalidateMapped.1 = x.invalidateMapped.1 ∧ x.invalidateMapped.2.Relinked y.invalidateMapped.2 := by
  have hfound : ∃ entries, x.invalidateMapped = x.forgetAll entries ∧
      y.invalidateMapped = y.forgetAll entries := by
    obtain ⟨store, last, rfl, -⟩ := h
    exact ⟨_, rfl, rfl⟩
  obtain ⟨entries, hx, hy⟩ := hfound
  rw [hx, hy]
  exact forgetAll entries h

/-! ### Recording and running -/

theorem countHit (h : x.Relinked y) (pc : UInt64) : (x.countHit pc).Relinked (y.countHit pc) := by
  obtain ⟨store, last, rfl, hstore⟩ := h
  unfold FragmentCache.countHit
  dsimp only
  split
  · exact ⟨store, last, rfl, hstore⟩
  · split
    · exact ⟨store, last, rfl, hstore⟩
    · exact ⟨store, last, rfl, hstore⟩

theorem close (h : x.Relinked y) (r : Recorder) :
    (y.close r).1 = (x.close r).1 ∧ (x.close r).2.Relinked (y.close r).2 := by
  obtain ⟨store, last, rfl, hstore⟩ := h
  unfold FragmentCache.close
  dsimp only
  split
  · exact ⟨rfl, store, last, rfl, hstore⟩
  · split
    · exact ⟨rfl, store, last, rfl, hstore⟩
    · refine ⟨rfl, (store.add _).2, last, ?_, hstore.add _⟩
      -- both give the same number
      show FragmentCache.mk _ _ _ _ (x.entries.insert r.entry (.compiled store.fresh)) _ _ _ _ = _
      rw [hstore.fresh]
      rfl

theorem enabled (h : x.Relinked y) : y.enabled = x.enabled := by
  obtain ⟨store, last, rfl, -⟩ := h
  rfl

theorem recorder (h : x.Relinked y) : y.recorder = x.recorder := by
  obtain ⟨store, last, rfl, -⟩ := h
  rfl

theorem endsAfter (h : x.Relinked y) (r : Recorder) (c : Cpu) : y.endsAfter r c = x.endsAfter r c := by
  obtain ⟨store, last, rfl, -⟩ := h
  rfl

theorem recording (h : x.Relinked y) (r : Recorder) :
    ({ x with recorder := some r } : FragmentCache).Relinked { y with recorder := some r } := by
  obtain ⟨store, last, rfl, hstore⟩ := h
  exact ⟨store, last, rfl, hstore⟩

theorem observe (h : x.Relinked y) (c : Cpu) (retired : Retired) :
    (y.observe c retired).1 = (x.observe c retired).1 ∧
      (x.observe c retired).2.Relinked (y.observe c retired).2 := by
  have hrecording := h.recording
  unfold FragmentCache.observe
  rw [h.recorder]
  rw [h.enabled] at hrecording ⊢
  split
  · exact ⟨rfl, h⟩
  cases x.recorder with
  | none =>
    dsimp only
    split
    · exact ⟨rfl, h.countHit c.pc⟩
    · exact ⟨rfl, h⟩
  | some r =>
    dsimp only
    rw [h.endsAfter]
    split
    · exact h.close r
    · split
      · exact h.close _
      · exact ⟨rfl, hrecording _⟩

theorem enter (h : x.Relinked y) (id : FragmentId) (t : Tandem) :
    (y.enter id t).1 = (x.enter id t).1 ∧ (y.enter id t).2.2 = (x.enter id t).2.2 ∧
      (x.enter id t).2.1.Relinked (y.enter id t).2.1 := by
  have hcount : ({ x with store := x.store.countRun id } : FragmentCache).Relinked
      { y with store := y.store.countRun id } := by
    obtain ⟨store, last, rfl, hstore⟩ := h
    exact ⟨store.countRun id, last, rfl, hstore.countRun id⟩
  have hleft (last : Option (FragmentId × Nat)) :
      ({ x with store := x.store.countRun id, lastExit := last } : FragmentCache).Relinked
        { y with store := y.store.countRun id, lastExit := last } := by
    obtain ⟨store, old, rfl, hstore⟩ := h
    exact ⟨store.countRun id, last, rfl, hstore.countRun id⟩
  have hstore : x.store.Relinked y.store := by
    obtain ⟨store, last, rfl, hstore⟩ := h
    exact hstore
  unfold FragmentCache.enter
  cases hs : x.store.get? id with
  | none =>
    rw [hstore.get?_of_none hs]
    exact ⟨rfl, rfl, h⟩
  | some f =>
    obtain ⟨successors, ht⟩ := hstore.get?_of_some hs
    rw [ht]
    dsimp only
    -- a fragment is run without a look at its links
    rw [show ({ f with successors := successors } : Fragment).run t = f.run t from rfl]
    rcases f.run t with ⟨r, t'⟩
    cases r with
    | error e => exact ⟨rfl, rfl, hcount⟩
    | ok exit =>
      dsimp only
      split
      · exact ⟨rfl, rfl, hleft _⟩
      · exact ⟨rfl, rfl, (hleft _).countHit t'.cpu.pc⟩

end Relinked

/-! ### What becomes of the store of a cache -/

section

variable (x : FragmentCache)

theorem succeeds_forget (entry : UInt64) : x.store.Succeeds (x.forget entry).store := by
  refine ⟨Nat.le_of_eq (x.forget_parts entry).2.1.symm, ?_⟩
  intro id f _ hf
  exact ⟨f, get?_forget hf, rfl⟩

theorem succeeds_setEnabled (enabled : Bool) : x.store.Succeeds (x.setEnabled enabled).store := by
  unfold setEnabled
  dsimp only
  split
  · exact .refl _
  · exact .clear _

theorem store_countHit (pc : UInt64) : (x.countHit pc).store = x.store := by
  unfold countHit
  dsimp only
  split
  · rfl
  · split <;> rfl

theorem succeeds_close (r : Recorder) : x.store.Succeeds (x.close r).2.store := by
  unfold close
  dsimp only
  split
  · exact .refl _
  · split
    · exact .refl _
    · exact .add _ _

theorem succeeds_observe (c : Cpu) (retired : Retired) : x.store.Succeeds (x.observe c retired).2.store := by
  unfold observe
  split
  · exact .refl _
  cases x.recorder with
  | none =>
    dsimp only
    split
    · rw [store_countHit]
      exact .refl _
    · exact .refl _
  | some r =>
    dsimp only
    split
    · exact x.succeeds_close r
    · split
      · exact x.succeeds_close _
      · exact .refl _

theorem succeeds_lookup (c : Cpu) (breakpoints : List UInt64) :
    x.store.Succeeds (x.lookup c breakpoints).2.store := by
  obtain ⟨store, last, heq, hstore⟩ := Relinked.of_lookup x c breakpoints
  rw [heq]
  exact .of_relinked hstore

theorem succeeds_left (id : FragmentId) (exit : FragmentExit) (t : Tandem) :
    x.store.Succeeds (x.left id exit t).store := by
  unfold left
  dsimp only
  split
  · exact .countRun _ _
  · rw [store_countHit]
    exact .countRun _ _

end

end FragmentCache

/-! ## Machines -/

namespace Machine

/-- The second machine is the first one with other links between its fragments. -/
def Relinked (m k : Machine) : Prop := ∃ cache, k = { m with cache := cache } ∧ m.cache.Relinked cache

namespace Relinked

variable {m k : Machine} {limit : Nat}

theorem onCpu (h : m.Relinked k) (f : Cpu → Cpu) : (m.onCpu f).Relinked (k.onCpu f) := by
  obtain ⟨y, rfl, hy⟩ := h
  exact ⟨y, rfl, hy⟩

theorem invalidateCode (h : m.Relinked k) (address len : UInt64) :
    (m.invalidateCode address len).Relinked (k.invalidateCode address len) := by
  obtain ⟨y, rfl, hy⟩ := h
  obtain ⟨hcount, hcache⟩ := hy.invalidate address len
  unfold Machine.invalidateCode
  dsimp only
  rw [hcount]
  exact ⟨_, rfl, hcache⟩

theorem invalidateMapped (h : m.Relinked k) : m.invalidateMapped.Relinked k.invalidateMapped := by
  obtain ⟨y, rfl, hy⟩ := h
  obtain ⟨hcount, hcache⟩ := hy.invalidateMapped
  unfold Machine.invalidateMapped
  dsimp only
  rw [hcount]
  exact ⟨_, rfl, hcache⟩

theorem foldl_invalidateCode (ranges : List (UInt64 × UInt64)) :
    ∀ {m k : Machine}, m.Relinked k →
      (ranges.foldl (fun m range => m.invalidateCode range.1 range.2) m).Relinked
        (ranges.foldl (fun m range => m.invalidateCode range.1 range.2) k) := by
  induction ranges with
  | nil => intro m k h; exact h
  | cons range rest ih => intro m k h; exact ih (h.invalidateCode range.1 range.2)

theorem drain (h : m.Relinked k) : m.drain.Relinked k.drain := by
  have hranges := foldl_invalidateCode m.cpu.codeInvalidations
    (h.onCpu fun c => { c with codeInvalidations := [], tlbDirty := false })
  have hsame : k.cpu = m.cpu := by
    obtain ⟨y, rfl, -⟩ := h
    rfl
  unfold Machine.drain
  rw [hsame]
  dsimp only
  split
  · exact h
  · split
    · exact hranges.invalidateMapped
    · exact hranges

theorem interpret (h : m.Relinked k) : k.interpret.1 = m.interpret.1 ∧ m.interpret.2.Relinked k.interpret.2 := by
  obtain ⟨y, rfl, hy⟩ := h
  unfold Machine.interpret
  dsimp only
  split
  · exact ⟨rfl, y, rfl, hy⟩
  · exact ⟨rfl, y, rfl, hy⟩

theorem observe (h : m.Relinked k) (retired : Retired) : (m.observe retired).Relinked (k.observe retired) := by
  obtain ⟨y, rfl, hy⟩ := h
  obtain ⟨hmade, hcache⟩ := hy.observe m.tandem.cpu retired
  unfold Machine.observe
  dsimp only
  rw [hmade]
  exact ⟨_, rfl, hcache⟩

theorem enter (h : m.Relinked k) (id : FragmentId) :
    (k.enter id).1 = (m.enter id).1 ∧ (m.enter id).2.Relinked (k.enter id).2 := by
  obtain ⟨y, rfl, hy⟩ := h
  obtain ⟨hresult, htandem, hcache⟩ := hy.enter id m.tandem
  unfold Machine.enter
  dsimp only
  rw [hresult, htandem]
  exact ⟨rfl, _, rfl, hcache⟩

theorem lookup (h : m.Relinked k) (hm : m.cache.Consistent limit) :
    k.lookup.1 = m.lookup.1 ∧ m.lookup.2.Relinked k.lookup.2 := by
  obtain ⟨y, rfl, hy⟩ := h
  exact ⟨hy.fst_lookup hm m.cpu m.breakpoints, _, rfl, hy.lookup m.cpu m.breakpoints⟩

theorem interpretObserved (h : m.Relinked k) :
    k.interpretObserved.1 = m.interpretObserved.1 ∧ m.interpretObserved.2.Relinked k.interpretObserved.2 := by
  obtain ⟨hresult, hnext⟩ := h.interpret
  unfold Machine.interpretObserved
  rcases hm : m.interpret with ⟨r, m'⟩
  rcases hk : k.interpret with ⟨r', k'⟩
  rw [hm, hk] at hresult hnext
  obtain rfl : r' = r := hresult
  cases r' with
  | error x => exact ⟨rfl, hnext⟩
  | ok retired => exact ⟨rfl, hnext.observe retired⟩

theorem proceed (h : m.Relinked k) (hm : m.cache.Consistent limit) :
    k.proceed.1 = m.proceed.1 ∧ m.proceed.2.Relinked k.proceed.2 := by
  obtain ⟨hfound, hlooked⟩ := h.lookup hm
  unfold Machine.proceed
  rcases hml : m.lookup with ⟨found, m'⟩
  rcases hkl : k.lookup with ⟨found', k'⟩
  rw [hml, hkl] at hfound hlooked
  obtain rfl : found' = found := hfound
  cases found' with
  | some id =>
    obtain ⟨hresult, hnext⟩ := Relinked.enter hlooked id
    rcases hme : m'.enter id with ⟨r, a⟩
    rcases hke : k'.enter id with ⟨r', b⟩
    rw [hme, hke] at hresult hnext
    obtain rfl : r' = r := hresult
    dsimp only
    rw [hme, hke]
    cases r' with
    | error x => exact ⟨rfl, hnext⟩
    | ok _ => exact ⟨rfl, Relinked.drain hnext⟩
  | none =>
    obtain ⟨hresult, hnext⟩ := Relinked.interpretObserved hlooked
    rcases hmi : m'.interpretObserved with ⟨r, a⟩
    rcases hki : k'.interpretObserved with ⟨r', b⟩
    rw [hmi, hki] at hresult hnext
    obtain rfl : r' = r := hresult
    dsimp only
    rw [hmi, hki]
    cases r' with
    | error x => exact ⟨rfl, hnext⟩
    | ok _ => exact ⟨rfl, Relinked.drain hnext⟩

theorem takeInterrupt (h : m.Relinked k) : m.takeInterrupt.Relinked k.takeInterrupt := h.onCpu Cpu.takePending

/-- **A turn** of machines that differ in their links alone does the same in both. -/
theorem turn (h : m.Relinked k) (hm : m.cache.Consistent limit) (resumeAt : Option UInt64) :
    (k.turn resumeAt).1 = (m.turn resumeAt).1 ∧ (m.turn resumeAt).2.Relinked (k.turn resumeAt).2 := by
  have hproceed := h.takeInterrupt.proceed (show m.takeInterrupt.cache.Consistent limit from hm)
  have hat : k.takeInterrupt.atBreakpoint resumeAt = m.takeInterrupt.atBreakpoint resumeAt := by
    obtain ⟨y, rfl, -⟩ := h
    rfl
  have hbreakout : k.cpu.breakout = m.cpu.breakout := by
    obtain ⟨y, rfl, -⟩ := h
    rfl
  cases hb : m.cpu.breakout with
  | some exit =>
    rw [(turn_stop hb resumeAt).2, (turn_stop (hbreakout.trans hb) resumeAt).2]
    exact ⟨rfl, h.onCpu fun c => { c with breakout := none }⟩
  | none =>
    cases hbp : m.takeInterrupt.atBreakpoint resumeAt with
    | true =>
      rw [(turn_breakpoint hb hbp).2, (turn_breakpoint (hbreakout.trans hb) (hat.trans hbp)).2]
      obtain ⟨y, rfl, hy⟩ := h
      exact ⟨rfl, y, rfl, hy⟩
    | false =>
      have hturn := turn_proceed hb hbp
      have hturn' := turn_proceed (hbreakout.trans hb) (hat.trans hbp)
      rcases hmp : m.takeInterrupt.proceed with ⟨r, m'⟩
      rcases hkp : k.takeInterrupt.proceed with ⟨r', k'⟩
      rw [hmp, hkp] at hproceed
      obtain ⟨hresult, hnext⟩ := hproceed
      obtain rfl : r' = r := hresult
      cases r' with
      | error x =>
        rw [hturn.1 x m' hmp, hturn'.1 x k' hkp]
        exact ⟨rfl, hnext⟩
      | ok _ =>
        rw [hturn.2 m' hmp, hturn'.2 k' hkp]
        exact ⟨rfl, hnext⟩

theorem loop (n : Nat) :
    ∀ {m k : Machine} (resumeAt : Option UInt64), m.Relinked k → m.cache.Consistent limit →
      (Machine.loop n resumeAt k).1 = (Machine.loop n resumeAt m).1 ∧
        (Machine.loop n resumeAt m).2.Relinked (Machine.loop n resumeAt k).2 := by
  induction n with
  | zero => intro m k resumeAt h _; exact ⟨rfl, h⟩
  | succ n ih =>
    intro m k resumeAt h hm
    have hconsistent := (turn_spec m resumeAt).consistent hm
    obtain ⟨hresult, hnext⟩ := h.turn hm resumeAt
    rcases hmt : m.turn resumeAt with ⟨r, m'⟩
    rcases hkt : k.turn resumeAt with ⟨r', k'⟩
    rw [hmt] at hconsistent
    rw [hmt, hkt] at hresult hnext
    obtain rfl : r' = r := hresult
    cases r' with
    | some x =>
      rw [loop_of_some hmt, loop_of_some hkt]
      exact ⟨rfl, hnext⟩
    | none =>
      rw [loop_of_none hmt, loop_of_none hkt]
      exact ih none hnext hconsistent

theorem prepare (h : m.Relinked k) (budget : UInt64) : (m.prepare budget).Relinked (k.prepare budget) := by
  obtain ⟨y, rfl, hy⟩ := h
  exact ⟨y, rfl, hy⟩

/-- **A run** of machines that differ in their links alone gives the same result. -/
theorem run (h : m.Relinked k) (hm : m.cache.Consistent limit) (budget : UInt64) :
    (k.run budget).1 = (m.run budget).1 ∧ (m.run budget).2.Relinked (k.run budget).2 := by
  rcases eq_or_ne budget 0 with rfl | h0
  · rw [run_zero, run_zero]
    exact ⟨rfl, h⟩
  · have hsame : (k.prepare budget).turnsToEnd = (m.prepare budget).turnsToEnd ∧ k.resumeAt = m.resumeAt := by
      obtain ⟨y, rfl, -⟩ := h
      exact ⟨rfl, rfl⟩
    obtain ⟨hresult, hnext⟩ := loop (m.prepare budget).turnsToEnd m.resumeAt (h.prepare budget)
      (show (m.prepare budget).cache.Consistent limit from hm)
    rw [run_eq m h0, run_eq k h0, hsame.1, hsame.2]
    exact ⟨hresult, hnext.onCpu _⟩

theorem step (h : m.Relinked k) : k.step.1 = m.step.1 ∧ m.step.2.Relinked k.step.2 := by
  obtain ⟨hresult, hnext⟩ := h.takeInterrupt.interpret
  unfold Machine.step
  rcases hm : m.takeInterrupt.interpret with ⟨r, m'⟩
  rcases hk : k.takeInterrupt.interpret with ⟨r', k'⟩
  rw [hm, hk] at hresult hnext
  obtain rfl : r' = r := hresult
  cases r' with
  | error x => exact ⟨rfl, hnext⟩
  | ok retired => exact ⟨rfl, hnext.drain⟩

/-- **Every operation** leaves machines that differ in their links alone. -/
theorem perform (h : m.Relinked k) (hm : m.cache.Consistent limit) (o : Operation) :
    (o.perform m).Relinked (o.perform k) := by
  cases o with
  | run budget => exact (h.run hm budget).2
  | step => exact h.step.2
  | requestHalt => exact h.onCpu fun c => { c with breakout := some .halted }
  | reset =>
    obtain ⟨y, rfl, hy⟩ := h
    exact ⟨y.clear, rfl, hy.clear⟩
  | loadProgram physical program =>
    exact Relinked.invalidateCode
      (h.onCpu fun c => { c with ram := c.ram.load physical (Bytes.ofWords program) }) _ _
  | invalidateCode address len => exact h.invalidateCode address len
  | drain => exact h.drain
  | setRecompiler enabled =>
    obtain ⟨y, rfl, hy⟩ := h
    exact ⟨y.setEnabled enabled, rfl, hy.setEnabled enabled⟩
  | clearFragments =>
    obtain ⟨y, rfl, hy⟩ := h
    exact ⟨y.clear, rfl, hy.clear⟩
  | setBreakpoints breakpoints =>
    obtain ⟨y, rfl, hy⟩ := h
    exact ⟨y, rfl, hy⟩
  | changeProcessor change => exact h.onCpu change

end Relinked

/-! ### What becomes of the fragments -/

section

variable {m : Machine} {s : FragmentStore}

theorem succeeds_drain (h : s.Succeeds m.cache.store) : s.Succeeds m.drain.cache.store := by
  obtain ⟨n, cache, heq, hcache⟩ :=
    drain_eq (P := fun x => s.Succeeds x.store) (fun x entry hx => hx.trans (x.succeeds_forget entry)) h
  rw [heq]
  exact hcache

theorem succeeds_invalidateCode (h : s.Succeeds m.cache.store) (address len : UInt64) :
    s.Succeeds (m.invalidateCode address len).cache.store :=
  FragmentCache.forgetAll_preserves (P := fun x => s.Succeeds x.store)
    (fun x entry hx => hx.trans (x.succeeds_forget entry)) h _

/-- **A turn** gives no number again. -/
theorem Turn.succeeds {resumeAt : Option UInt64} {es : List Execution}
    {out : Option (Except FatalError Exit) × Machine} (ht : Turn m resumeAt es out) :
    m.cache.store.Succeeds out.2.cache.store := by
  have hlookup : m.cache.store.Succeeds m.takeInterrupt.lookup.2.cache.store :=
    m.cache.succeeds_lookup m.takeInterrupt.cpu m.breakpoints
  cases ht with
  | stop _ => exact .refl _
  | breakpoint _ _ => exact .refl _
  | fatal _ _ _ _ => exact hlookup
  | @interpret _ _ _ retired cpu _ =>
    let k := m.takeInterrupt.lookup.2.withTandem (interpreted cpu m.tandem.vector)
    exact succeeds_drain (m := k.observe retired)
      (hlookup.trans (k.cache.succeeds_observe k.tandem.cpu retired))
  | @fragmentFatal _ _ id _ f _ _ _ _ => exact hlookup.trans (.countRun _ id)
  | @fragment _ _ id _ f _ exit t _ =>
    exact succeeds_drain (hlookup.trans (m.takeInterrupt.lookup.2.cache.succeeds_left id exit t))

theorem succeeds_turn (h : s.Succeeds m.cache.store) (resumeAt : Option UInt64) :
    s.Succeeds (m.turn resumeAt).2.cache.store :=
  h.trans (turn_spec m resumeAt).succeeds

theorem succeeds_run (h : s.Succeeds m.cache.store) (budget : UInt64) :
    s.Succeeds (m.run budget).2.cache.store := by
  rcases eq_or_ne budget 0 with rfl | h0
  · rw [run_zero]
    exact h
  · rw [run_eq m h0]
    exact loop_preserves (P := fun m => s.Succeeds m.cache.store) (fun r _ hm => succeeds_turn hm r) _ m.resumeAt
      (m := m.prepare budget) h

/-- **No operation** gives a number again. -/
theorem succeeds_perform (h : s.Succeeds m.cache.store) (o : Operation) :
    s.Succeeds (o.perform m).cache.store := by
  cases o with
  | run budget => exact succeeds_run h budget
  | step =>
    exact cache_step (P := fun x => s.Succeeds x.store) (fun x entry hx => hx.trans (x.succeeds_forget entry)) h
  | requestHalt => exact h
  | reset => exact h.trans (.clear _)
  | loadProgram physical program =>
    exact succeeds_invalidateCode
      (m := m.onCpu fun c => { c with ram := c.ram.load physical (Bytes.ofWords program) }) h _ _
  | invalidateCode address len => exact succeeds_invalidateCode h address len
  | drain => exact succeeds_drain h
  | setRecompiler enabled => exact h.trans (m.cache.succeeds_setEnabled enabled)
  | clearFragments => exact h.trans (.clear _)
  | setBreakpoints breakpoints => exact h
  | changeProcessor change => exact h

end

end Machine

/-! ## Every state of a machine -/

/-- What brings a machine from one state to the next one, also in the middle of a run. -/
inductive Moment where
  /-- Something is done to it. -/
  | operation (o : Operation)
  /-- A run begins. -/
  | prepare (budget : UInt64)
  /-- A run takes a turn. -/
  | turn (resumeAt : Option UInt64)

namespace Machine

/-- The machine behind a moment. -/
def pass (m : Machine) : Moment → Machine
  | .operation o => o.perform m
  | .prepare budget => m.prepare budget
  | .turn resumeAt => (m.turn resumeAt).2

/-- The machine behind moments in order. -/
def passAll (m : Machine) (moments : List Moment) : Machine := moments.foldl pass m

/-- The turns of a run are moments. -/
theorem exists_passAll_loop (n : Nat) :
    ∀ (resumeAt : Option UInt64) (m : Machine), ∃ moments, (loop n resumeAt m).2 = m.passAll moments := by
  induction n with
  | zero => intro resumeAt m; exact ⟨[], rfl⟩
  | succ n ih =>
    intro resumeAt m
    rcases hturn : m.turn resumeAt with ⟨r, k⟩
    have hk : m.pass (.turn resumeAt) = k := congrArg Prod.snd hturn
    cases r with
    | some x =>
      rw [loop_of_some hturn]
      exact ⟨[.turn resumeAt], hk.symm⟩
    | none =>
      rw [loop_of_none hturn]
      obtain ⟨moments, heq⟩ := ih none k
      refine ⟨.turn resumeAt :: moments, ?_⟩
      rw [heq, ← hk]
      rfl

section

variable {m k : Machine} {limit : Nat}

theorem consistent_pass (h : m.cache.Consistent limit) (moment : Moment) :
    (m.pass moment).cache.Consistent limit := by
  cases moment with
  | operation o => exact o.consistent h
  | prepare budget => exact h
  | turn resumeAt => exact (turn_spec m resumeAt).consistent h

theorem consistent_passAll (moments : List Moment) :
    ∀ {m : Machine}, m.cache.Consistent limit → (m.passAll moments).cache.Consistent limit := by
  induction moments with
  | nil => intro m h; exact h
  | cons moment rest ih => intro m h; exact ih (consistent_pass h moment)

theorem succeeds_passAll {s : FragmentStore} (moments : List Moment) :
    ∀ {m : Machine}, s.Succeeds m.cache.store → s.Succeeds (m.passAll moments).cache.store := by
  induction moments with
  | nil => intro m h; exact h
  | cons moment rest ih =>
    intro m h
    refine ih ?_
    cases moment with
    | operation o => exact succeeds_perform h o
    | prepare budget => exact h
    | turn resumeAt => exact succeeds_turn h resumeAt

/-- **Links go unnoticed**, whatever happens. -/
theorem Relinked.passAll (moments : List Moment) :
    ∀ {m k : Machine}, m.Relinked k → m.cache.Consistent limit → (m.passAll moments).Relinked (k.passAll moments) := by
  induction moments with
  | nil => intro m k h _; exact h
  | cons moment rest ih =>
    intro m k h hm
    refine ih ?_ (consistent_pass hm moment)
    cases moment with
    | operation o => exact h.perform hm o
    | prepare budget => exact h.prepare budget
    | turn resumeAt => exact (h.turn hm resumeAt).2

end

end Machine

namespace FragmentCache.Consistent

variable {x y : FragmentCache} {limit : Nat} {entry : UInt64} {id : FragmentId}

/-- **A fragment that is no longer compiled for its address** is gone. -/
theorem get?_eq_none (hx : x.Consistent limit) (hy : y.Consistent limit) (h : x.store.Succeeds y.store)
    (hc : x.compiled? entry = some id) (hgone : y.compiled? entry ≠ some id) : y.store.get? id = none := by
  obtain ⟨f, hf, hformed, -⟩ := hx.compiled entry id (compiled?_eq_some_iff.mp hc)
  by_contra hsome
  obtain ⟨g, hg⟩ := Option.ne_none_iff_exists'.mp hsome
  obtain ⟨b, hb, hentry⟩ := h.old id g (hx.fresh id f hf) hg
  obtain rfl := Option.some.inj (hf.symm.trans hb)
  have hstored := hy.stored id g hg
  rw [← hentry, hformed.entry_eq] at hstored
  exact hgone (compiled?_eq_some_iff.mpr hstored)

/-- What a lookup finds is in the store. -/
theorem get?_ne_none (hx : x.Consistent limit) {c : Cpu} {breakpoints : List UInt64}
    (h : x.lookupUnlinked c breakpoints = some id) : x.store.get? id ≠ none := by
  unfold FragmentCache.lookupUnlinked at h
  split at h
  · cases h
  · obtain ⟨hc, -⟩ := Option.filter_eq_some_iff.mp h
    obtain ⟨f, hf, -⟩ := hx.compiled c.pc id (compiled?_eq_some_iff.mp hc)
    rw [hf]
    exact Option.some_ne_none f

end FragmentCache.Consistent

/-- **Links between fragments go unnoticed.** In every state of a machine, whatever was done to it and also in
the middle of a run, and whatever is remembered of the last exit:
* a link that leads to a fragment for an address leads to the one that is compiled for it;
* a lookup answers what it would answer without links;
* a fragment that was compiled for an address, and in a later state is not any more, is never found again;
* with other links instead, all runs and steps to come have the same results, and leave the same machine up to
  links. -/
theorem links_unnoticed (config : Configuration) (bus : Bus) (vector : VectorUnit) (past : List Moment) :
    let m := (Machine.create config bus vector).passAll past
    (∀ last pc id, m.cache.linked? last pc = some id → m.cache.compiled? pc = some id) ∧
    (∀ last c breakpoints,
      ((m.cache.remembering last).lookup c breakpoints).1 = m.cache.lookupUnlinked c breakpoints) ∧
    (∀ entry id between, m.cache.compiled? entry = some id →
      (m.passAll between).cache.compiled? entry ≠ some id → ∀ later last c breakpoints,
        ((((m.passAll between).passAll later).cache.remembering last).lookup c breakpoints).1 ≠ some id) ∧
    ∀ k, m.Relinked k → ∀ later,
      (m.passAll later).Relinked (k.passAll later) ∧
      (∀ budget, ((k.passAll later).run budget).1 = ((m.passAll later).run budget).1) ∧
      (k.passAll later).step.1 = (m.passAll later).step.1 := by
  intro m
  have hm : m.cache.Consistent (max 1 config.recompiler.maxFragmentOps.toNat) :=
    Machine.consistent_passAll past (FragmentCache.Consistent.create config.recompiler)
  refine ⟨?_, ?_, ?_, ?_⟩
  · intro last pc id hl
    exact hm.compiled?_of_linked? hl
  · intro last c breakpoints
    exact hm.fst_lookup last c breakpoints
  · intro entry id between hc hgone later last c breakpoints hfound
    have hbetween := Machine.consistent_passAll between hm
    have hlater := Machine.consistent_passAll later hbetween
    have hnone := hm.get?_eq_none hbetween (Machine.succeeds_passAll between (.refl _)) hc hgone
    rw [hlater.fst_lookup] at hfound
    obtain ⟨g, hg⟩ := Option.ne_none_iff_exists'.mp (hlater.get?_ne_none hfound)
    -- its number is an old one, so it was in the store before
    have hold : id < (m.passAll between).cache.store.fresh := by
      obtain ⟨f, hf, -⟩ := hm.compiled entry id (FragmentCache.compiled?_eq_some_iff.mp hc)
      exact Nat.lt_of_lt_of_le (hm.fresh id f hf) (Machine.succeeds_passAll between (.refl _)).fresh
    obtain ⟨f, hf, -⟩ := (Machine.succeeds_passAll later (.refl _)).old id g hold hg
    rw [hnone] at hf
    cases hf
  · intro k hk later
    have hlater := Machine.consistent_passAll later hm
    have hrelinked := Machine.Relinked.passAll later hk hm
    exact ⟨hrelinked, fun budget => (hrelinked.run hlater budget).1, hrelinked.step.1⟩

/-- A loop that counts in a register runs as a fragment that is linked to itself. When the program is loaded
again the loop is recorded again, and the first fragment is not found any more. -/
theorem links_unnoticed_recompiled :
    let config : Configuration :=
      { general := { startPc := 0xFFFFFFFF80000000 }, memory := { ramSize := 16 }, recompiler := { hotThreshold := 0 } }
    let loaded : List Moment := [.operation (.loadProgram 0 [0x24210001, 0x1000FFFE, 0]), .operation (.run 30)]
    let m := (Machine.create config {} {}).passAll loaded
    m.cache.linked? (some (0, 3)) 0xFFFFFFFF80000000 = some 0 ∧
      m.cache.compiled? 0xFFFFFFFF80000000 = some 0 ∧
      (m.passAll loaded).cache.compiled? 0xFFFFFFFF80000000 = some 1 ∧
      ∀ later last c breakpoints,
        ((((m.passAll loaded).passAll later).cache.remembering last).lookup c breakpoints).1 ≠ some 0 := by
  intro config loaded m
  have hlinked : m.cache.linked? (some (0, 3)) 0xFFFFFFFF80000000 = some 0 := by decide +kernel
  have hagain : (m.passAll loaded).cache.compiled? 0xFFFFFFFF80000000 = some 1 := by decide +kernel
  obtain ⟨hlink, -, hgone, -⟩ := links_unnoticed config {} {} loaded
  have hcompiled := hlink _ _ _ hlinked
  refine ⟨hlinked, hcompiled, hagain, ?_⟩
  exact hgone _ 0 loaded hcompiled (by rw [hagain]; decide)

end Vr4300
