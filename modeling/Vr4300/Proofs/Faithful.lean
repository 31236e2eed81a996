import Vr4300.Proofs.Addresses
import Vr4300.Proofs.Visible

/-!
# `Proofs.Faithful` — a fragment is the code that it was recorded from

A fragment is run in place of the instructions at its addresses, so it had better hold what lies there. It
does as long as the code does not change: `FragmentCache.Faithful` says so with respect to the instructions
that are still to be executed, each of which finds the recorded words where they were recorded. The list of
these gets shorter as the run goes on, and that makes the invariant weaker, never stronger.

The invariant also holds what entering a fragment relies on: the first operation is at the entry and in no
delay slot, every operation lies in the ranges that are compared with the breakpoints, and every operation
that needs the floating-point unit is announced.

## Contents

* `RecordedOp.Current`, `Fragment.Faithful`, `Recorder.Faithful`;
* `faithful_compile`: a trace becomes a faithful fragment;
* `FragmentCache.Faithful` along lookups, runs, landings, recording and dropping;
* `FragmentCache.Poised`: a recording starts outside delay slots.
-/

namespace Vr4300

/-- The instruction is what lies at its address, in a segment that is not translated, whenever one of the
executions happens. -/
structure RecordedOp.Current (op : RecordedOp) (fs : List Execution) : Prop where
  /-- The address is not translated. -/
  unmapped : (Address.segment op.address).isMapped = false
  /-- The word is there. -/
  word : ∀ e ∈ fs, e.before.peek? op.address = some op.word

/-- The fragment holds the code at its addresses. -/
structure Fragment.Faithful (f : Fragment) (fs : List Execution) : Prop where
  /-- Each operation is what lies at its address. -/
  current : ∀ op ∈ f.ops, op.toRecordedOp.Current fs
  /-- The first one is at the entry, in no delay slot. -/
  first : ∃ op rest, f.ops = op :: rest ∧ op.address = f.entry ∧ op.inDelaySlot = false
  /-- Use of the floating-point unit is announced. -/
  float : ∀ op ∈ f.ops, op.instruction.needsFloat = true → f.usesFloat = true
  /-- The ranges have all operations. -/
  covered : ∀ op ∈ f.ops, ∃ range ∈ f.ranges, range.1 ≤ op.address ∧ op.address < range.2

/-- The trace holds the code at its addresses. -/
structure Recorder.Faithful (r : Recorder) (fs : List Execution) : Prop where
  /-- Each instruction is what lies at its address. -/
  current : ∀ op ∈ r.reversed, op.Current fs
  /-- The first one is at the entry, in no delay slot. -/
  first : ∀ op, r.reversed.getLast? = some op → op.address = r.entry ∧ op.inDelaySlot = false

variable {fs gs : List Execution}

/-! ## Fewer executions -/

theorem RecordedOp.Current.mono {op : RecordedOp} (h : op.Current fs) (hs : gs ⊆ fs) : op.Current gs :=
  ⟨h.unmapped, fun e he => h.word e (hs he)⟩

theorem Fragment.Faithful.mono {f : Fragment} (h : f.Faithful fs) (hs : gs ⊆ fs) : f.Faithful gs :=
  { h with current := fun op hop => (h.current op hop).mono hs }

theorem Recorder.Faithful.mono {r : Recorder} (h : r.Faithful fs) (hs : gs ⊆ fs) : r.Faithful gs :=
  { h with current := fun op hop => (h.current op hop).mono hs }

/-! ## The fragment of a trace -/

/-- **A faithful trace becomes a faithful fragment.** -/
theorem faithful_compile {r : Recorder} (h : r.Faithful fs) (hne : r.reversed ≠ []) :
    (Fragment.compile r.entry r.reversed.reverse).Faithful fs := by
  have hops {op : FragmentOp} (hop : op ∈ (Fragment.compile r.entry r.reversed.reverse).ops) :
      ∃ recorded ∈ r.reversed, op = .ofRecorded recorded := by
    obtain ⟨recorded, hmem, rfl⟩ := List.mem_map.mp hop
    exact ⟨recorded, List.mem_reverse.mp hmem, rfl⟩
  constructor
  · intro op hop
    obtain ⟨recorded, hmem, rfl⟩ := hops hop
    exact h.current recorded hmem
  · obtain ⟨last, hlast⟩ := Option.isSome_iff_exists.mp (List.getLast?_isSome.mpr hne)
    obtain ⟨rest, hrest⟩ := List.head?_eq_some_iff.mp (List.head?_reverse.trans hlast)
    refine ⟨.ofRecorded last, rest.map .ofRecorded, ?_, h.first last hlast⟩
    show r.reversed.reverse.map FragmentOp.ofRecorded = _
    rw [hrest]
    rfl
  · intro op hop hneeds
    exact List.any_eq_true.mpr ⟨op, hop, hneeds⟩
  · intro op hop
    obtain ⟨recorded, hmem, rfl⟩ := hops hop
    refine covered_addressRuns ?_ (List.mem_map.mpr ⟨recorded, List.mem_reverse.mpr hmem, rfl⟩)
    intro a ha
    obtain ⟨other, hother, rfl⟩ := List.mem_map.mp ha
    exact toNat_add_of_unmapped (h.current other (List.mem_reverse.mp hother)).unmapped

/-- No breakpoint lies where the ranges that are compared with the breakpoints cover. -/
theorem not_mem_of_covered {breakpoints : List UInt64} {ranges : List (UInt64 × UInt64)} {a : UInt64}
    (hblocked : FragmentCache.blocked breakpoints ranges = false) (h : Covered ranges a) : a ∉ breakpoints := by
  obtain ⟨range, hrange, hstart, hstop⟩ := h
  intro hmem
  have hhit : FragmentCache.blocked breakpoints ranges = true := by
    refine List.any_eq_true.mpr ⟨range, hrange, List.any_eq_true.mpr ⟨a, hmem, ?_⟩⟩
    simp [hstart, hstop]
  rw [hblocked] at hhit
  cases hhit

/-- No breakpoint lies at an operation of a fragment that may be entered. -/
theorem Fragment.Faithful.unbroken {f : Fragment} (hf : f.Faithful fs) {breakpoints : List UInt64}
    (hblocked : FragmentCache.blocked breakpoints f.ranges = false) {op : FragmentOp} (hop : op ∈ f.ops) :
    breakpoints.contains op.address = false := by
  simpa using not_mem_of_covered hblocked (hf.covered op hop)

/-! ## The cache -/

namespace FragmentCache

/-- **The cache holds the code.** -/
structure Faithful (x : FragmentCache) (fs : List Execution) : Prop where
  /-- The fragments do. -/
  code : ∀ id f, x.store.get? id = some f → f.Faithful fs
  /-- An address has the fragment that is entered there, under a number that was given to it. -/
  entry : ∀ k id, x.compiled? k = some id →
    id < x.store.fresh ∧ ∀ f, x.store.get? id = some f → f.entry = k
  /-- The trace in progress does. -/
  trace : ∀ r, x.recorder = some r → r.Faithful fs

/-- A recording that has not begun begins in no delay slot. -/
def Poised (x : FragmentCache) (c : Cpu) : Prop :=
  x.enabled = true → ∀ r, x.recorder = some r → r.reversed = [] → c.inDelaySlot = false

theorem get?_create (s : RecompilerSettings) (id : FragmentId) : (create s).store.get? id = none :=
  Std.TreeMap.getElem?_emptyc

theorem faithful_create (s : RecompilerSettings) (fs : List Execution) : (create s).Faithful fs := by
  constructor
  · intro id f h
    rw [get?_create] at h
    cases h
  · intro k id h
    have hempty : (create s).compiled? k = none := by
      unfold compiled?
      rw [show (create s).entries[k]? = none from Std.TreeMap.getElem?_emptyc]
    rw [hempty] at h
    cases h
  · intro r h
    cases h

theorem poised_create (s : RecompilerSettings) (c : Cpu) : (create s).Poised c := by
  intro _ r h
  cases h

/-- Only what the cache has for the address counts. -/
theorem compiled?_eq_some_iff {x : FragmentCache} {k : UInt64} {id : FragmentId} :
    x.compiled? k = some id ↔ x.entries[k]? = some (.compiled id) := by
  unfold compiled?
  cases h : x.entries[k]? with
  | none => simp
  | some s => cases s <;> simp

/-- What forgetting an address leaves. -/
theorem forget_parts (x : FragmentCache) (entry : UInt64) :
    (x.forget entry).entries = x.entries.erase entry ∧ (x.forget entry).store.fresh = x.store.fresh ∧
      (x.forget entry).recorder = x.recorder.filter (·.entry != entry) := by
  unfold forget dropCompiled
  dsimp only
  split
  · split
    · exact ⟨rfl, rfl, rfl⟩
    · exact ⟨rfl, rfl, rfl⟩
  · exact ⟨rfl, rfl, rfl⟩

/-- Forgetting an address starts no recording. -/
theorem recorder_forget {x : FragmentCache} {entry : UInt64} {r : Recorder}
    (h : (x.forget entry).recorder = some r) : x.recorder = some r := by
  rw [(x.forget_parts entry).2.2] at h
  exact (Option.filter_eq_some_iff.mp h).1

/-- A store with one more fragment holds that one, and what it held. -/
theorem get?_add {s : FragmentStore} {f g : Fragment} {id : FragmentId} (h : (s.add f).2.get? id = some g) :
    (id = s.fresh ∧ g = f) ∨ (id ≠ s.fresh ∧ s.get? id = some g) := by
  unfold FragmentStore.get? FragmentStore.add at h
  dsimp only at h
  rw [Std.TreeMap.getElem?_insert] at h
  split at h
  · rename_i hid
    exact .inl ⟨(by simpa using hid : s.fresh = id).symm, (Option.some.inj h).symm⟩
  · rename_i hid
    exact .inr ⟨fun he => hid (by simp [he]), h⟩

namespace Faithful

variable {x : FragmentCache}

theorem mono (h : x.Faithful fs) (hs : gs ⊆ fs) : x.Faithful gs where
  code id f hf := (h.code id f hf).mono hs
  entry := h.entry
  trace r hr := (h.trace r hr).mono hs

/-- Fragments may be counted and linked. -/
theorem modify (h : x.Faithful fs) (id : FragmentId) (change : Fragment → Fragment)
    (hchange : ∀ f, ∃ successors runs, change f = { f with successors := successors, runs := runs })
    (last : Option (FragmentId × Nat)) :
    ({ x with
        store := ⟨x.store.fragments.modify id change, x.store.fresh⟩
        lastExit := last } : FragmentCache).Faithful fs := by
  constructor
  · intro i g hg
    obtain ⟨f, successors, runs, hf, rfl⟩ := get?_modify_links hchange hg
    have hfaithful := h.code i f hf
    exact ⟨hfaithful.current, hfaithful.first, hfaithful.float, hfaithful.covered⟩
  · intro k i hk
    refine ⟨(h.entry k i hk).1, ?_⟩
    intro g hg
    obtain ⟨f, successors, runs, hf, rfl⟩ := get?_modify_links hchange hg
    exact (h.entry k i hk).2 f hf
  · exact h.trace

theorem countRun (h : x.Faithful fs) (id : FragmentId) (last : Option (FragmentId × Nat)) :
    ({ x with store := x.store.countRun id, lastExit := last } : FragmentCache).Faithful fs :=
  h.modify id _ (fun f => ⟨f.successors, f.runs + 1, rfl⟩) last

theorem link (h : x.Faithful fs) (id : FragmentId) (exit : Nat) (next : FragmentId)
    (last : Option (FragmentId × Nat)) :
    ({ x with store := x.store.link id exit next, lastExit := last } : FragmentCache).Faithful fs :=
  h.modify id _ (fun f => ⟨f.successors.setIfInBounds exit (some next), f.runs, rfl⟩) last

/-- **The fragment that is found** is entered at the address that was looked for. -/
theorem find (h : x.Faithful fs) (last : Option (FragmentId × Nat)) (pc : UInt64) :
    (x.find last pc).2.Faithful fs ∧
      ∀ id f, (x.find last pc).1 = some id → (x.find last pc).2.store.get? id = some f → f.entry = pc := by
  unfold FragmentCache.find
  cases hlinked : x.linked? last pc with
  | some next =>
    refine ⟨h, ?_⟩
    intro id f hid hf
    obtain rfl := Option.some.inj hid
    unfold linked? at hlinked
    simp only [Option.bind_eq_bind, Option.bind_eq_some_iff] at hlinked
    obtain ⟨p, -, next', -, f', hf', hentry⟩ := hlinked
    split at hentry
    · rename_i hpc
      obtain rfl := Option.some.inj hentry
      obtain rfl := Option.some.inj (hf'.symm.trans hf)
      exact hpc
    · cases hentry
  | none =>
    cases hcompiled : x.compiled? pc with
    | none => exact ⟨h, fun _ _ hid => by cases hid⟩
    | some i =>
      cases last with
      | none =>
        refine ⟨h, ?_⟩
        intro id f hid hf
        obtain rfl := Option.some.inj hid
        exact (h.entry pc i hcompiled).2 f hf
      | some p =>
        have hlink := h.link p.1 p.2 i x.lastExit
        refine ⟨hlink, ?_⟩
        intro id f hid hf
        obtain rfl := Option.some.inj hid
        exact (hlink.entry pc i hcompiled).2 f hf

/-- **Looking up** links fragments at most. -/
theorem lookup (h : x.Faithful fs) (c : Cpu) (breakpoints : List UInt64) :
    (x.lookup c breakpoints).2.Faithful fs ∧
      ∀ id f, (x.lookup c breakpoints).1 = some id → (x.lookup c breakpoints).2.store.get? id = some f →
        f.entry = c.pc := by
  have hforgotten : ({ x with lastExit := none } : FragmentCache).Faithful fs := ⟨h.code, h.entry, h.trace⟩
  unfold FragmentCache.lookup
  dsimp only
  split
  · exact ⟨hforgotten, fun _ _ hid => by cases hid⟩
  · obtain ⟨hfind, hentry⟩ := hforgotten.find x.lastExit c.pc
    refine ⟨hfind, ?_⟩
    intro id f hid hf
    simp only [Option.ite_none_right_eq_some] at hid
    exact hentry id f hid.2 hf

/-- **A landing** may start a recording. -/
theorem countHit (h : x.Faithful fs) (pc : UInt64) : (x.countHit pc).Faithful fs := by
  unfold FragmentCache.countHit
  split
  · exact h
  · dsimp only
    split
    · exact ⟨h.code, h.entry, h.trace⟩
    · refine ⟨h.code, ?_, ?_⟩
      · intro k id hk
        rw [compiled?_eq_some_iff, Std.TreeMap.getElem?_insert] at hk
        split at hk
        · cases hk
        · exact h.entry k id (compiled?_eq_some_iff.mpr hk)
      · intro r hr
        obtain rfl := Option.some.inj hr
        exact ⟨fun op hop => absurd hop List.not_mem_nil, fun op hop => by cases hop⟩

/-- **Forgetting an address** loses fragments, and invents none. -/
theorem forget (h : x.Faithful fs) (entry : UInt64) : (x.forget entry).Faithful fs := by
  constructor
  · intro id f hf
    exact h.code id f (get?_forget hf)
  · intro k id hk
    obtain ⟨hentries, hfresh, -⟩ := x.forget_parts entry
    rw [compiled?_eq_some_iff, hentries, Std.TreeMap.getElem?_erase] at hk
    split at hk
    · cases hk
    · obtain ⟨hlt, hentry⟩ := h.entry k id (compiled?_eq_some_iff.mpr hk)
      exact ⟨hfresh ▸ hlt, fun f hf => hentry f (get?_forget hf)⟩
  · intro r hr
    exact h.trace r (recorder_forget hr)

/-- **The end of a recording**: the trace becomes a fragment. -/
theorem close (h : x.Faithful fs) {r : Recorder} (hr : r.Faithful fs) : (x.close r).2.Faithful fs := by
  unfold FragmentCache.close
  dsimp only
  split
  · exact ⟨h.code, h.entry, fun _ hr => by cases hr⟩
  · split
    · refine ⟨h.code, ?_, fun _ hr => by cases hr⟩
      intro k id hk
      rw [compiled?_eq_some_iff, Std.TreeMap.getElem?_erase] at hk
      split at hk
      · cases hk
      · exact h.entry k id (compiled?_eq_some_iff.mpr hk)
    · rename_i hne
      refine ⟨?_, ?_, fun _ hr => by cases hr⟩
      · intro id f hf
        rcases get?_add hf with ⟨-, rfl⟩ | ⟨-, hf⟩
        · exact faithful_compile hr (by simpa using hne)
        · exact h.code id f hf
      · intro k id hk
        rw [compiled?_eq_some_iff, Std.TreeMap.getElem?_insert] at hk
        split at hk
        -- the address of the trace has the new fragment
        · rename_i hentry
          obtain rfl : r.entry = k := by simpa using hentry
          obtain rfl : x.store.fresh = id := FragmentState.compiled.inj (Option.some.inj hk)
          refine ⟨Nat.lt_succ_self _, ?_⟩
          intro f hf
          rcases get?_add hf with ⟨-, rfl⟩ | ⟨hid, -⟩
          · rfl
          · exact absurd rfl hid
        -- and the others have what they had, because its number was not given before
        · obtain ⟨hlt, hentry⟩ := h.entry k id (compiled?_eq_some_iff.mpr hk)
          refine ⟨Nat.lt_succ_of_lt hlt, ?_⟩
          intro f hf
          rcases get?_add hf with ⟨rfl, -⟩ | ⟨-, hf⟩
          · exact absurd hlt (Nat.lt_irrefl _)
          · exact hentry f hf

/-- **Looking at an instruction** records what lies at its address. -/
theorem observe (h : x.Faithful fs) (c : Cpu) {retired : Retired}
    (hop : retired.trapped = false →
      RecordedOp.Current ⟨retired.address, retired.word, retired.inDelaySlot⟩ fs)
    (hfirst : x.enabled = true → ∀ r, x.recorder = some r → r.reversed = [] → retired.inDelaySlot = false) :
    (x.observe c retired).2.Faithful fs := by
  unfold FragmentCache.observe
  split
  · exact h
  · rename_i hon
    cases hrecorder : x.recorder with
    | none =>
      dsimp only
      split
      · exact h.countHit c.pc
      · exact h
    | some r =>
      dsimp only
      have hr := h.trace r hrecorder
      split
      -- the trace ends before the instruction
      · exact h.close hr
      · rename_i hends
        have hkept : (r.reversed = [] → retired.address = r.entry) ∧ retired.trapped = false := by
          unfold endsBefore at hends
          simpa [Classical.or_iff_not_imp_left] using hends
        have hlonger : Recorder.Faithful
            { r with reversed := ⟨retired.address, retired.word, retired.inDelaySlot⟩ :: r.reversed } fs := by
          constructor
          · intro op hmem
            rcases List.mem_cons.mp hmem with rfl | hmem
            · exact hop hkept.2
            · exact hr.current op hmem
          -- a trace has one first operation, the one it began with
          · intro op hlast
            cases hempty : r.reversed with
            | nil =>
              rw [hempty] at hlast
              obtain rfl := Option.some.inj hlast
              exact ⟨hkept.1 hempty, hfirst (by simpa using hon) r hrecorder hempty⟩
            | cons other rest =>
              rw [hempty, List.getLast?_cons_cons, ← hempty] at hlast
              exact hr.first op hlast
        split
        · exact h.close hlonger
        · refine ⟨h.code, h.entry, ?_⟩
          intro r' hr'
          obtain rfl := Option.some.inj hr'
          exact hlonger

end Faithful

/-! ## Where recordings begin -/

section

variable {x y : FragmentCache} {c c' : Cpu}

theorem Poised.of_recorder (h : x.Poised c) (henabled : y.enabled = x.enabled)
    (hrecorder : ∀ r, y.recorder = some r → x.recorder = some r)
    (hslot : c.inDelaySlot = false → c'.inDelaySlot = false) : y.Poised c' := by
  intro hon r hr hempty
  exact hslot (h (henabled ▸ hon) r (hrecorder r hr) hempty)

theorem poised_of_idle (h : x.recorder = none) : x.Poised c := by
  intro _ r hr
  rw [h] at hr
  cases hr

theorem recorder_find (x : FragmentCache) (last : Option (FragmentId × Nat)) (pc : UInt64) :
    (x.find last pc).2.recorder = x.recorder ∧ (x.find last pc).2.enabled = x.enabled := by
  unfold find
  cases x.linked? last pc with
  | some id => exact ⟨rfl, rfl⟩
  | none => cases x.compiled? pc <;> cases last <;> exact ⟨rfl, rfl⟩

theorem recorder_lookup (x : FragmentCache) (c : Cpu) (breakpoints : List UInt64) :
    (x.lookup c breakpoints).2.recorder = x.recorder ∧
      (x.lookup c breakpoints).2.enabled = x.enabled := by
  unfold lookup
  dsimp only
  split
  · exact ⟨rfl, rfl⟩
  · exact recorder_find { x with lastExit := none } x.lastExit c.pc

/-- A fragment is found while nothing is being recorded. -/
theorem recorder_lookup_of_some {breakpoints : List UInt64} {id : FragmentId}
    (h : (x.lookup c breakpoints).1 = some id) : (x.lookup c breakpoints).2.recorder = none :=
  (x.recorder_lookup c breakpoints).1.trans (lookup_some h).1

theorem get?_lookup_of_empty (h : ∀ id, x.store.get? id = none) (c : Cpu) (breakpoints : List UInt64)
    (id : FragmentId) : (x.lookup c breakpoints).2.store.get? id = none := by
  cases hg : (x.lookup c breakpoints).2.store.get? id with
  | none => rfl
  | some g =>
    obtain ⟨f, -, hf, -⟩ := get?_lookup hg
    rw [h id] at hf
    cases hf

theorem Poised.lookup (h : x.Poised c) (breakpoints : List UInt64) :
    (x.lookup c breakpoints).2.Poised c :=
  h.of_recorder (x.recorder_lookup c breakpoints).2
    (fun _ hr => (x.recorder_lookup c breakpoints).1 ▸ hr) id

theorem Poised.forget (h : x.Poised c) (entry : UInt64) : (x.forget entry).Poised c :=
  h.of_recorder (Machine.enabled_forget x entry) (fun _ => recorder_forget) id

/-- **Behind an instruction** a recording has begun, or it waits outside delay slots. -/
theorem poised_observe (x : FragmentCache) (c : Cpu) (retired : Retired) :
    (x.observe c retired).2.Poised c := by
  have hclose (r : Recorder) : (x.close r).2.Poised c := by
    apply poised_of_idle
    unfold close
    dsimp only
    split
    · rfl
    · split <;> rfl
  unfold observe
  split
  · rename_i hoff
    intro hon
    rw [show x.enabled = true from hon] at hoff
    cases hoff
  · cases hrecorder : x.recorder with
    | none =>
      dsimp only
      split
      · rename_i hland
        intro _ _ _ _
        simp only [Bool.and_eq_true, Bool.not_eq_true'] at hland
        exact hland.2
      · exact poised_of_idle hrecorder
    | some r =>
      dsimp only
      split
      · exact hclose r
      · split
        · exact hclose _
        · intro _ r' hr' hempty
          obtain rfl := Option.some.inj hr'
          cases hempty

/-- **Behind a fragment**, likewise. -/
theorem poised_left (h : x.recorder = none) (id : FragmentId) (exit : FragmentExit) (t : Tandem) :
    (x.left id exit t).Poised t.cpu := by
  unfold left
  dsimp only
  split
  · exact poised_of_idle h
  · rename_i hslot
    intro _ _ _ _
    exact Bool.not_eq_true _ ▸ hslot

theorem Faithful.left (h : x.Faithful fs) (id : FragmentId) (exit : FragmentExit) (t : Tandem) :
    (x.left id exit t).Faithful fs := by
  have hcount := h.countRun id (some (id, exit.index))
  unfold FragmentCache.left
  dsimp only
  split
  · exact hcount
  · exact hcount.countHit t.cpu.pc

end

end FragmentCache

end Vr4300
