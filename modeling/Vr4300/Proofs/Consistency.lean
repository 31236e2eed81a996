import Vr4300.Proofs.CodeIndex
import Vr4300.Proofs.Faithful

/-!
# `Proofs.Consistency` — the parts of a fragment cache agree

A fragment cache has five parts: what it has for each address, the fragments themselves, the trace in
progress, the index of lines, and the exit through which the last fragment was left. Recording, closing,
three ways of dropping, and switching off each change several of them, and one that is forgotten leaves a
fragment that is run after its code is gone, or one that nothing can drop any more.

`FragmentCache.Consistent` says how the parts determine each other. No operation of the cache needs to know
anything about the processor to preserve it, so it holds of every machine, whatever its program, its devices
and its host do to the processor (`Operation.consistent`).

## Contents

* `Fragment.Formed`: a fragment as it is stored;
* `FragmentCache.Consistent`, with one lemma for each operation of the cache;
* `Machine.Turn.consistent`, `consistent_run`, `consistent_step`: along the run of a machine;
* `Operation`, `Machine.operate`, `cache_consistent`.
-/

namespace Vr4300

/-! ## Fragments as they are stored -/

/-- The fragment is one for the address, with at most `limit` operations. -/
structure Fragment.Formed (f : Fragment) (entry : UInt64) (limit : Nat) : Prop where
  /-- It is entered there. -/
  entry_eq : f.entry = entry
  /-- Its first operation is there; in particular, it has one. -/
  first : ∃ op rest, f.ops = op :: rest ∧ op.address = entry
  /-- It is not too long. -/
  short : f.ops.length ≤ limit
  /-- Its length is the number of its operations. -/
  length_eq : f.length = f.ops.length
  /-- Its lines are those of its operations. -/
  lines_eq : f.lines = codeLines (f.ops.map (·.address))

/-- The trace is one for its entry, with at most `limit` instructions. -/
structure Recorder.Formed (r : Recorder) (limit : Nat) : Prop where
  /-- It is not too long. -/
  short : r.reversed.length ≤ limit
  /-- It begins at its entry. -/
  first : ∀ op, r.reversed.getLast? = some op → op.address = r.entry

/-- **A trace becomes a fragment** of the same form. -/
theorem formed_compile {r : Recorder} {limit : Nat} (h : r.Formed limit) (hne : r.reversed ≠ []) :
    (Fragment.compile r.entry r.reversed.reverse).Formed r.entry limit := by
  obtain ⟨last, hlast⟩ := Option.isSome_iff_exists.mp (List.getLast?_isSome.mpr hne)
  obtain ⟨rest, hrest⟩ := List.head?_eq_some_iff.mp (List.head?_reverse.trans hlast)
  constructor
  · rfl
  · refine ⟨.ofRecorded last, rest.map .ofRecorded, ?_, h.first last hlast⟩
    show r.reversed.reverse.map FragmentOp.ofRecorded = _
    rw [hrest]
    rfl
  · show (r.reversed.reverse.map FragmentOp.ofRecorded).length ≤ limit
    rw [List.length_map, List.length_reverse]
    exact h.short
  · rfl
  · show codeLines (r.reversed.reverse.map (·.address)) = codeLines (List.map _ (List.map _ _))
    rw [List.map_map]
    rfl

namespace FragmentCache

/-! ## Consistency -/

/-- **The parts of a cache agree**, where recordings end after `limit` operations. A fragment is valid as
long as it is in the store. -/
structure Consistent (x : FragmentCache) (limit : Nat) : Prop where
  /-- Recordings end after `limit` operations. -/
  limit_eq : x.maxOps = limit
  /-- There is room for one. -/
  limit_pos : 1 ≤ limit
  /-- What is being recorded is the trace in progress, and nothing else. -/
  recording : ∀ k, x.entries[k]? = some .recording ↔ ∃ r, x.recorder = some r ∧ r.entry = k
  /-- The trace in progress goes on. -/
  trace : ∀ r, x.recorder = some r → r.Formed limit ∧ r.reversed.length < limit
  /-- What is compiled for an address is a valid fragment for it, and indexed under exactly its lines. -/
  compiled : ∀ k id, x.entries[k]? = some (.compiled id) →
    ∃ f, x.store.get? id = some f ∧ f.Formed k limit ∧ ∀ line, k ∈ x.index.entriesOf line ↔ line ∈ f.lines
  /-- Nothing else is indexed. -/
  indexed : ∀ line k, k ∈ x.index.entriesOf line → ∃ id, x.entries[k]? = some (.compiled id)
  /-- No line is kept without an entry. -/
  tidy : x.index.Tidy
  /-- A valid fragment is what is compiled for its entry. -/
  stored : ∀ id f, x.store.get? id = some f → x.entries[f.entry]? = some (.compiled id)
  /-- Numbers of fragments were given. -/
  fresh : ∀ id f, x.store.get? id = some f → id < x.store.fresh
  /-- The last exit is one of a valid fragment. -/
  last : ∀ id exit, x.lastExit = some (id, exit) → ∃ f, x.store.get? id = some f ∧ exit ≤ f.length

section

variable {entries : Std.TreeMap UInt64 FragmentState} {entry k : UInt64} {state : FragmentState}

theorem getElem?_insert_entries :
    (entries.insert entry state)[k]? = if k = entry then some state else entries[k]? := by
  rw [Std.TreeMap.getElem?_insert]
  by_cases h : k = entry
  · rw [if_pos h, if_pos (Std.compare_eq_iff_eq.mpr h.symm)]
  · rw [if_neg h, if_neg (by rw [Std.compare_eq_iff_eq]; exact Ne.symm h)]

theorem getElem?_erase_entries : (entries.erase entry)[k]? = if k = entry then none else entries[k]? := by
  rw [Std.TreeMap.getElem?_erase]
  by_cases h : k = entry
  · rw [if_pos h, if_pos (Std.compare_eq_iff_eq.mpr h.symm)]
  · rw [if_neg h, if_neg (by rw [Std.compare_eq_iff_eq]; exact Ne.symm h)]

/-- What is left without an address is what the other addresses have. -/
theorem getElem?_erase_eq_some_iff :
    (entries.erase entry)[k]? = some state ↔ k ≠ entry ∧ entries[k]? = some state := by
  rw [getElem?_erase_entries]
  by_cases h : k = entry
  · simp [h]
  · simp [h]

/-- A store with one fragment changed. -/
theorem get?_modify_eq (s : FragmentStore) (id i : FragmentId) (change : Fragment → Fragment) :
    (⟨s.fragments.modify id change, s.fresh⟩ : FragmentStore).get? i =
      if i = id then (s.get? i).map change else s.get? i := by
  unfold FragmentStore.get?
  dsimp only
  rw [Std.TreeMap.getElem?_modify]
  by_cases h : i = id
  · rw [if_pos h, if_pos (Std.compare_eq_iff_eq.mpr h.symm), h]
  · rw [if_neg h, if_neg (by rw [Std.compare_eq_iff_eq]; exact Ne.symm h)]

/-- A store with one fragment less. -/
theorem get?_drop_iff {s : FragmentStore} {id i : FragmentId} {f : Fragment} :
    (s.drop id).get? i = some f ↔ i ≠ id ∧ s.get? i = some f := by
  unfold FragmentStore.get? FragmentStore.drop
  dsimp only
  rw [Std.TreeMap.getElem?_erase]
  by_cases h : i = id
  · rw [if_pos (Std.compare_eq_iff_eq.mpr h.symm)]
    simp [h]
  · rw [if_neg (by rw [Std.compare_eq_iff_eq]; exact Ne.symm h)]
    simp [h]

/-- A store with one fragment more. -/
theorem get?_add_eq (s : FragmentStore) (f : Fragment) (id : FragmentId) :
    (s.add f).2.get? id = if id = s.fresh then some f else s.get? id := by
  unfold FragmentStore.get? FragmentStore.add
  dsimp only
  rw [Std.TreeMap.getElem?_insert]
  by_cases h : id = s.fresh
  · rw [if_pos h, if_pos (Std.compare_eq_iff_eq.mpr h.symm)]
  · rw [if_neg h, if_neg (by rw [Std.compare_eq_iff_eq]; exact Ne.symm h)]

end

namespace Consistent

variable {x : FragmentCache} {limit : Nat}

/-- What is stored is formed. -/
theorem formed (h : x.Consistent limit) {id : FragmentId} {f : Fragment} (hf : x.store.get? id = some f) :
    f.Formed f.entry limit := by
  obtain ⟨g, hg, hformed, -⟩ := h.compiled f.entry id (h.stored id f hf)
  obtain rfl := Option.some.inj (hf.symm.trans hg)
  exact hformed

/-- A link leads to what is compiled for an address, or nowhere. -/
theorem successor (h : x.Consistent limit) {id next : FragmentId} {exit : Nat}
    (hs : x.store.successor? id exit = some next) :
    ∃ f, x.store.get? next = some f ∧ x.entries[f.entry]? = some (.compiled next) := by
  unfold FragmentStore.successor? at hs
  simp only [Option.bind_eq_bind, Option.bind_eq_some_iff] at hs
  obtain ⟨-, -, n, -, hn⟩ := hs
  split at hn
  · rename_i hin
    obtain rfl := Option.some.inj hn
    obtain ⟨f, hf⟩ := Option.isSome_iff_exists.mp (Std.TreeMap.isSome_getElem?_eq_contains.trans hin)
    exact ⟨f, hf, h.stored _ f hf⟩
  · cases hn

/-- A cache that has nothing is consistent. -/
theorem of_empty (hlimit : x.maxOps = limit) (hpos : 1 ≤ limit) (hentries : ∀ k : UInt64, x.entries[k]? = none)
    (hstore : ∀ id, x.store.get? id = none) (hindex : x.index = {}) (hrecorder : x.recorder = none)
    (hlast : x.lastExit = none) : x.Consistent limit := by
  constructor
  · exact hlimit
  · exact hpos
  · intro k
    simp [hentries, hrecorder]
  · intro r hr
    simp [hrecorder] at hr
  · intro k id hk
    simp [hentries] at hk
  · intro line k hk
    rw [hindex] at hk
    exact absurd hk CodeIndex.not_mem_empty
  · rw [hindex]
    exact CodeIndex.tidy_empty
  · intro id f hf
    simp [hstore] at hf
  · intro id f hf
    simp [hstore] at hf
  · intro id exit h
    simp [hlast] at h

theorem create (s : RecompilerSettings) :
    (FragmentCache.create s).Consistent (max 1 s.maxFragmentOps.toNat) :=
  of_empty rfl (Nat.le_max_left 1 _) (fun _ => Std.TreeMap.getElem?_emptyc) (get?_create s) rfl rfl rfl

/-- **Dropping everything** leaves nothing. -/
theorem clear (h : x.Consistent limit) : x.clear.Consistent limit :=
  of_empty h.limit_eq h.limit_pos (fun _ => Std.TreeMap.getElem?_emptyc)
    (fun _ => Std.TreeMap.getElem?_emptyc) rfl rfl rfl

theorem setEnabled (h : x.Consistent limit) (enabled : Bool) :
    (x.setEnabled enabled).Consistent limit := by
  have hswitched : ({ x with enabled := enabled } : FragmentCache).Consistent limit :=
    ⟨h.limit_eq, h.limit_pos, h.recording, h.trace, h.compiled, h.indexed, h.tidy, h.stored, h.fresh, h.last⟩
  unfold FragmentCache.setEnabled
  dsimp only
  split
  · exact hswitched
  · exact hswitched.clear

/-! ### Dropping -/

/-- Only a recording of the address ends. -/
theorem recording_forget (h : x.Consistent limit) (entry k : UInt64) :
    (x.entries.erase entry)[k]? = some .recording ↔
      ∃ r, x.recorder.filter (·.entry != entry) = some r ∧ r.entry = k := by
  rw [getElem?_erase_eq_some_iff, h.recording]
  constructor
  · rintro ⟨hne, r, hr, rfl⟩
    exact ⟨r, Option.filter_eq_some_iff.mpr ⟨hr, by simpa using hne⟩, rfl⟩
  · rintro ⟨r, hr, rfl⟩
    obtain ⟨hr, hne⟩ := Option.filter_eq_some_iff.mp hr
    exact ⟨by simpa using hne, r, hr, rfl⟩

/-- **Forgetting an address** for which nothing is compiled. -/
theorem forget_of_none (h : x.Consistent limit) {entry : UInt64} (hc : x.compiled? entry = none) :
    (x.forget entry).Consistent limit := by
  have hother {k : UInt64} {id : FragmentId} (hk : x.entries[k]? = some (.compiled id)) : k ≠ entry := by
    rintro rfl
    rw [compiled?_eq_some_iff.mpr hk] at hc
    cases hc
  have hforget : x.forget entry =
      { x with
        recorder := x.recorder.filter (·.entry != entry)
        entries := x.entries.erase entry
        hits := x.hits.erase entry } := by
    unfold FragmentCache.forget
    rw [hc]
  rw [hforget]
  constructor
  · exact h.limit_eq
  · exact h.limit_pos
  · exact h.recording_forget entry
  · intro r hr
    exact h.trace r (Option.filter_eq_some_iff.mp hr).1
  · intro k id hk
    exact h.compiled k id (getElem?_erase_eq_some_iff.mp hk).2
  · intro line k hk
    obtain ⟨id, hid⟩ := h.indexed line k hk
    exact ⟨id, getElem?_erase_eq_some_iff.mpr ⟨hother hid, hid⟩⟩
  · exact h.tidy
  · intro id f hf
    have hid := h.stored id f hf
    exact getElem?_erase_eq_some_iff.mpr ⟨hother hid, hid⟩
  · exact h.fresh
  · exact h.last

/-- **Forgetting an address** with its fragment, which leaves the index and the last exit, too. -/
theorem forget_of_some (h : x.Consistent limit) {entry : UInt64} {id : FragmentId}
    (hc : x.compiled? entry = some id) : (x.forget entry).Consistent limit := by
  have hentry := compiled?_eq_some_iff.mp hc
  obtain ⟨f, hf, hformed, hlines⟩ := h.compiled entry id hentry
  have hforget : x.forget entry =
      { x with
        store := x.store.drop id
        index := x.index.remove entry f.lines
        lastExit := x.lastExit.filter (·.1 != id)
        recorder := x.recorder.filter (·.entry != entry)
        entries := x.entries.erase entry
        hits := x.hits.erase entry } := by
    unfold FragmentCache.forget
    rw [hc]
    dsimp only
    unfold dropCompiled
    rw [hf]
  -- the number belongs to this address alone
  have hother {k : UInt64} {i : FragmentId} (hk : x.entries[k]? = some (.compiled i)) :
      k ≠ entry ↔ i ≠ id := by
    rw [not_iff_not]
    constructor
    · rintro rfl
      exact FragmentState.compiled.inj (Option.some.inj (hk.symm.trans hentry))
    · rintro rfl
      obtain ⟨g, hg, hgformed, -⟩ := h.compiled k i hk
      obtain rfl := Option.some.inj (hf.symm.trans hg)
      exact hgformed.entry_eq.symm.trans hformed.entry_eq
  rw [hforget]
  constructor
  · exact h.limit_eq
  · exact h.limit_pos
  · exact h.recording_forget entry
  · intro r hr
    exact h.trace r (Option.filter_eq_some_iff.mp hr).1
  · intro k i hk
    obtain ⟨hne, hk⟩ := getElem?_erase_eq_some_iff.mp hk
    obtain ⟨g, hg, hgformed, hglines⟩ := h.compiled k i hk
    refine ⟨g, get?_drop_iff.mpr ⟨(hother hk).mp hne, hg⟩, hgformed, ?_⟩
    intro line
    rw [CodeIndex.mem_remove, hglines]
    simp [hne]
  · intro line k hk
    obtain ⟨hin, hout⟩ := CodeIndex.mem_remove.mp hk
    have hne : k ≠ entry := by
      rintro rfl
      exact hout ⟨rfl, (hlines line).mp hin⟩
    obtain ⟨i, hi⟩ := h.indexed line k hin
    exact ⟨i, getElem?_erase_eq_some_iff.mpr ⟨hne, hi⟩⟩
  · exact h.tidy.remove entry f.lines
  · intro i g hg
    obtain ⟨hne, hg⟩ := get?_drop_iff.mp hg
    have hi := h.stored i g hg
    exact getElem?_erase_eq_some_iff.mpr ⟨(hother hi).mpr hne, hi⟩
  · intro i g hg
    exact h.fresh i g (get?_drop_iff.mp hg).2
  · intro i exit hlast
    obtain ⟨hlast, hne⟩ := Option.filter_eq_some_iff.mp hlast
    obtain ⟨g, hg, hexit⟩ := h.last i exit hlast
    exact ⟨g, get?_drop_iff.mpr ⟨by simpa using hne, hg⟩, hexit⟩

/-- **Forgetting an address.** -/
theorem forget (h : x.Consistent limit) (entry : UInt64) : (x.forget entry).Consistent limit := by
  cases hc : x.compiled? entry with
  | none => exact h.forget_of_none hc
  | some id => exact h.forget_of_some hc

/-! ### Running -/

/-- Fragments may be counted and linked, and the last exit set. -/
theorem modify (h : x.Consistent limit) (id : FragmentId) (change : Fragment → Fragment)
    (hchange : ∀ f, ∃ successors runs, change f = { f with successors := successors, runs := runs })
    (last : Option (FragmentId × Nat))
    (hlast : ∀ i exit, last = some (i, exit) → ∃ f, x.store.get? i = some f ∧ exit ≤ f.length) :
    ({ x with
        store := ⟨x.store.fragments.modify id change, x.store.fresh⟩
        lastExit := last } : FragmentCache).Consistent limit := by
  have hkept {i : FragmentId} {f : Fragment} (hf : x.store.get? i = some f) :
      ∃ successors runs, (⟨x.store.fragments.modify id change, x.store.fresh⟩ : FragmentStore).get? i =
        some { f with successors := successors, runs := runs } := by
    rw [get?_modify_eq]
    split
    · obtain ⟨successors, runs, heq⟩ := hchange f
      exact ⟨successors, runs, by rw [hf, ← heq]; rfl⟩
    · exact ⟨f.successors, f.runs, hf⟩
  constructor
  · exact h.limit_eq
  · exact h.limit_pos
  · exact h.recording
  · exact h.trace
  · intro k i hk
    obtain ⟨f, hf, hformed, hlines⟩ := h.compiled k i hk
    obtain ⟨successors, runs, hg⟩ := hkept hf
    exact ⟨_, hg, ⟨hformed.entry_eq, hformed.first, hformed.short, hformed.length_eq, hformed.lines_eq⟩,
      hlines⟩
  · exact h.indexed
  · exact h.tidy
  · intro i g hg
    obtain ⟨f, successors, runs, hf, rfl⟩ := get?_modify_links hchange hg
    exact h.stored i f hf
  · intro i g hg
    obtain ⟨f, successors, runs, hf, -⟩ := get?_modify_links hchange hg
    exact h.fresh i f hf
  · intro i exit heq
    obtain ⟨f, hf, hexit⟩ := hlast i exit heq
    obtain ⟨successors, runs, hg⟩ := hkept hf
    exact ⟨_, hg, hexit⟩

theorem withoutLast (h : x.Consistent limit) :
    ({ x with lastExit := none } : FragmentCache).Consistent limit :=
  ⟨h.limit_eq, h.limit_pos, h.recording, h.trace, h.compiled, h.indexed, h.tidy, h.stored, h.fresh,
    fun _ _ hlast => by cases hlast⟩

/-- **Looking up** a fragment takes the last exit, and links fragments at most. -/
theorem lookup (h : x.Consistent limit) (c : Cpu) (breakpoints : List UInt64) :
    (x.lookup c breakpoints).2.Consistent limit := by
  have hnone := h.withoutLast
  unfold FragmentCache.lookup
  dsimp only
  split
  · exact hnone
  · show (FragmentCache.find _ _ _).2.Consistent limit
    unfold FragmentCache.find
    split
    · exact hnone
    · split
      · exact hnone
      · exact hnone
      · exact hnone.modify _ _ (fun f => ⟨_, f.runs, rfl⟩) none (fun _ _ hlast => by cases hlast)

/-- **What is found** for an address is what is compiled for it, whatever is remembered of the last exit. -/
theorem find_fst (h : x.Consistent limit) (last : Option (FragmentId × Nat)) (pc : UInt64) :
    (x.find last pc).1 = x.compiled? pc := by
  unfold FragmentCache.find
  cases hlinked : x.linked? last pc with
  | none => cases x.compiled? pc <;> cases last <;> rfl
  | some next =>
    unfold linked? at hlinked
    simp only [Option.bind_eq_bind, Option.bind_eq_some_iff] at hlinked
    obtain ⟨p, -, next', -, f, hf, hentry⟩ := hlinked
    split at hentry
    · rename_i hpc
      obtain rfl := Option.some.inj hentry
      rw [← hpc]
      exact (compiled?_eq_some_iff.mpr (h.stored _ f hf)).symm
    · cases hentry

/-- A link does not decide whether a fragment may be entered. -/
theorem enterable_find_iff (x : FragmentCache) (last : Option (FragmentId × Nat)) (pc : UInt64) (c : Cpu)
    (breakpoints : List UInt64) (id : FragmentId) :
    (∃ f, (x.find last pc).2.store.get? id = some f ∧ isEnterable f c breakpoints = true) ↔
      ∃ f, x.store.get? id = some f ∧ isEnterable f c breakpoints = true := by
  rcases x.store_find last pc with hs | ⟨previous, exit, next, hs⟩
  · rw [hs]
  rw [hs]
  unfold FragmentStore.link
  rw [get?_modify_eq]
  split
  · cases x.store.get? id with
    | none => simp
    | some f => simp [isEnterable]
  · rfl

/-- **A fragment is found** where it is compiled for the address, may be entered, and nothing is being
recorded. -/
theorem lookup_eq_some_iff (h : x.Consistent limit) {c : Cpu} {breakpoints : List UInt64} {id : FragmentId} :
    (x.lookup c breakpoints).1 = some id ↔
      x.enabled = true ∧ x.recorder = none ∧ c.inDelaySlot = false ∧
        x.entries[c.pc]? = some (.compiled id) ∧
        ∃ f, x.store.get? id = some f ∧ isEnterable f c breakpoints = true := by
  have hfind := h.withoutLast.find_fst x.lastExit c.pc
  have henter := enterable_find_iff { x with lastExit := none } x.lastExit c.pc c breakpoints id
  rw [show ({ x with lastExit := none } : FragmentCache).compiled? c.pc = x.compiled? c.pc from rfl] at hfind
  rw [← compiled?_eq_some_iff]
  unfold FragmentCache.lookup isRecording
  dsimp only at henter ⊢
  split
  · rename_i hclosed
    simp only [Bool.or_eq_true, Bool.not_eq_true'] at hclosed
    simp only [reduceCtorEq, false_iff, not_and]
    intro hon hidle hslot
    simp [hon, hidle, hslot] at hclosed
  · rename_i hopen
    simp only [Bool.or_eq_true, Bool.not_eq_true', not_or, Bool.not_eq_true, Bool.not_eq_false] at hopen
    obtain ⟨⟨hon, hidle⟩, hslot⟩ := hopen
    rw [← henter, hfind]
    simp only [hon, hslot, Option.isSome_eq_false_iff, Option.isNone_iff_eq_none] at hidle ⊢
    cases hcompiled : x.compiled? c.pc with
    | none => simp
    | some i =>
      rw [Option.bind_some]
      by_cases hi : i = id
      · subst hi
        cases FragmentStore.get? _ i <;> simp [hidle]
      · simp [hi]

/-- **A landing** may start a recording, unless there is one. -/
theorem countHit (h : x.Consistent limit) (hidle : x.recorder = none) (pc : UInt64) :
    (x.countHit pc).Consistent limit := by
  unfold FragmentCache.countHit
  split
  · exact h
  rename_i hfree
  have hempty : x.entries[pc]? = none := by
    rw [← Option.not_isSome_iff_eq_none, Std.TreeMap.isSome_getElem?_eq_contains]
    exact hfree
  dsimp only
  split
  · exact ⟨h.limit_eq, h.limit_pos, h.recording, h.trace, h.compiled, h.indexed, h.tidy, h.stored, h.fresh,
      h.last⟩
  have hkept {k : UInt64} {id : FragmentId} (hk : x.entries[k]? = some (.compiled id)) :
      (x.entries.insert pc .recording)[k]? = some (.compiled id) := by
    have hne : k ≠ pc := by
      rintro rfl
      rw [hempty] at hk
      cases hk
    rw [getElem?_insert_entries, if_neg hne]
    exact hk
  constructor
  · exact h.limit_eq
  · exact h.limit_pos
  · intro k
    show (x.entries.insert pc .recording)[k]? = _ ↔ ∃ r, some ({ entry := pc } : Recorder) = some r ∧ _
    rw [getElem?_insert_entries]
    by_cases hk : k = pc
    · simp [hk]
    · rw [if_neg hk, h.recording]
      simp [hidle, Ne.symm hk]
  · intro r hr
    obtain rfl := Option.some.inj hr
    exact ⟨⟨Nat.zero_le _, fun op hop => by cases hop⟩, h.limit_pos⟩
  · intro k id hk
    change (x.entries.insert pc .recording)[k]? = some (.compiled id) at hk
    rw [getElem?_insert_entries] at hk
    split at hk
    · cases hk
    · exact h.compiled k id hk
  · intro line k hk
    obtain ⟨id, hid⟩ := h.indexed line k hk
    exact ⟨id, hkept hid⟩
  · exact h.tidy
  · intro id f hf
    exact hkept (h.stored id f hf)
  · exact h.fresh
  · exact h.last

/-- **Behind a run of a fragment**, the exit is remembered, and the landing counts. -/
theorem left (h : x.Consistent limit) (hidle : x.recorder = none) {id : FragmentId} {f : Fragment}
    (hf : x.store.get? id = some f) {exit : FragmentExit} (hexit : exit.index ≤ f.length) (t : Tandem) :
    (x.left id exit t).Consistent limit := by
  have hcount := h.modify id (fun f => { f with runs := f.runs + 1 }) (fun f => ⟨f.successors, _, rfl⟩)
    (some (id, exit.index)) (by
      intro i e heq
      obtain ⟨rfl, rfl⟩ := Prod.mk.inj (Option.some.inj heq)
      exact ⟨f, hf, hexit⟩)
  unfold FragmentCache.left
  dsimp only
  split
  · exact hcount
  · exact hcount.countHit hidle t.cpu.pc

/-! ### Recording -/

/-- **A recording that is given up** leaves nothing. -/
theorem abandoned (h : x.Consistent limit) {r : Recorder} (hr : x.recorder = some r) :
    ({ x with recorder := none, entries := x.entries.erase r.entry } : FragmentCache).Consistent limit := by
  have hother {k : UInt64} {id : FragmentId} (hk : x.entries[k]? = some (.compiled id)) : k ≠ r.entry := by
    rintro rfl
    rw [(h.recording r.entry).mpr ⟨r, hr, rfl⟩] at hk
    cases hk
  constructor
  · exact h.limit_eq
  · exact h.limit_pos
  · intro k
    show (x.entries.erase r.entry)[k]? = _ ↔ ∃ s, none = some s ∧ _
    rw [getElem?_erase_eq_some_iff, h.recording]
    simp [hr, eq_comm]
  · intro s hs
    cases hs
  · intro k id hk
    exact h.compiled k id (getElem?_erase_eq_some_iff.mp hk).2
  · intro line k hk
    obtain ⟨id, hid⟩ := h.indexed line k hk
    exact ⟨id, getElem?_erase_eq_some_iff.mpr ⟨hother hid, hid⟩⟩
  · exact h.tidy
  · intro id f hf
    have hid := h.stored id f hf
    exact getElem?_erase_eq_some_iff.mpr ⟨hother hid, hid⟩
  · exact h.fresh
  · exact h.last

/-- **A recording that is completed** leaves its fragment, under a new number. -/
theorem completed (h : x.Consistent limit) {r : Recorder} (hr : x.recorder = some r) {f : Fragment}
    (hf : f.Formed r.entry limit) :
    ({ x with
        recorder := none
        store := (x.store.add f).2
        index := x.index.insert r.entry f.lines
        entries := x.entries.insert r.entry (.compiled x.store.fresh) } : FragmentCache).Consistent limit := by
  have hrecording := (h.recording r.entry).mpr ⟨r, hr, rfl⟩
  have hother {k : UInt64} {id : FragmentId} (hk : x.entries[k]? = some (.compiled id)) : k ≠ r.entry := by
    rintro rfl
    rw [hrecording] at hk
    cases hk
  have hold {id : FragmentId} {g : Fragment} (hg : x.store.get? id = some g) :
      (x.store.add f).2.get? id = some g := by
    rw [get?_add_eq, if_neg (Nat.ne_of_lt (h.fresh id g hg))]
    exact hg
  have hunlisted (line : UInt64) : r.entry ∉ x.index.entriesOf line := by
    intro hin
    obtain ⟨id, hid⟩ := h.indexed line r.entry hin
    exact hother hid rfl
  constructor
  · exact h.limit_eq
  · exact h.limit_pos
  · intro k
    show (x.entries.insert r.entry _)[k]? = _ ↔ ∃ s, none = some s ∧ _
    rw [getElem?_insert_entries]
    by_cases hk : k = r.entry
    · simp [hk]
    · rw [if_neg hk, h.recording]
      simp [hr, Ne.symm hk]
  · intro s hs
    cases hs
  · intro k id hk
    change (x.entries.insert r.entry _)[k]? = some (.compiled id) at hk
    rw [getElem?_insert_entries] at hk
    split at hk
    · rename_i heq
      subst heq
      obtain rfl := FragmentState.compiled.inj (Option.some.inj hk)
      refine ⟨f, by rw [get?_add_eq, if_pos rfl], hf, ?_⟩
      intro line
      rw [CodeIndex.mem_insert]
      simp [hunlisted line]
    · rename_i hne
      obtain ⟨g, hg, hgformed, hglines⟩ := h.compiled k id hk
      refine ⟨g, hold hg, hgformed, ?_⟩
      intro line
      rw [CodeIndex.mem_insert, hglines]
      simp [hne]
  · intro line k hk
    show ∃ id, (x.entries.insert r.entry _)[k]? = some (.compiled id)
    rw [getElem?_insert_entries]
    rcases CodeIndex.mem_insert.mp hk with hk | ⟨rfl, -⟩
    · obtain ⟨id, hid⟩ := h.indexed line k hk
      exact ⟨id, by rw [if_neg (hother hid)]; exact hid⟩
    · exact ⟨_, if_pos rfl⟩
  · exact h.tidy.insert r.entry f.lines
  · intro id g hg
    show (x.entries.insert r.entry _)[g.entry]? = some (.compiled id)
    rw [getElem?_insert_entries]
    rcases get?_add hg with ⟨rfl, rfl⟩ | ⟨-, hg⟩
    · exact if_pos hf.entry_eq
    · have hid := h.stored id g hg
      rw [if_neg (hother hid)]
      exact hid
  · intro id g hg
    show id < x.store.fresh + 1
    rcases get?_add hg with ⟨rfl, -⟩ | ⟨-, hg⟩
    · exact Nat.lt_succ_self _
    · exact Nat.lt_succ_of_lt (h.fresh id g hg)
  · intro id exit hlast
    obtain ⟨g, hg, hexit⟩ := h.last id exit hlast
    exact ⟨g, hold hg, hexit⟩

/-- A trace that goes on is the trace in progress. -/
theorem extended (h : x.Consistent limit) {r r' : Recorder} (hr : x.recorder = some r)
    (hentry : r'.entry = r.entry) (hformed : r'.Formed limit) (hlt : r'.reversed.length < limit) :
    ({ x with recorder := some r' } : FragmentCache).Consistent limit := by
  refine ⟨h.limit_eq, h.limit_pos, ?_, ?_, h.compiled, h.indexed, h.tidy, h.stored, h.fresh, h.last⟩
  · intro k
    rw [h.recording k]
    simp [hr, hentry]
  · intro s hs
    obtain rfl := Option.some.inj hs
    exact ⟨hformed, hlt⟩

/-- **The end of a recording**: a trace that is not empty becomes a fragment. -/
theorem close (h : x.Consistent limit) {r r' : Recorder} (hr : x.recorder = some r)
    (hentry : r'.entry = r.entry) (hformed : r'.Formed limit) : (x.close r').2.Consistent limit := by
  have hrecording : x.entries[r'.entry]? = some .recording := (h.recording r'.entry).mpr ⟨r, hr, hentry.symm⟩
  unfold FragmentCache.close
  dsimp only
  rw [if_neg (by rw [hrecording]; simp), hentry]
  split
  · exact h.abandoned hr
  · rename_i hne
    have hcompiled := formed_compile hformed (by simpa using hne)
    rw [hentry] at hcompiled
    exact h.completed hr hcompiled

/-- **Looking at an instruction** records it, ends the trace in progress, or counts a landing. -/
theorem observe (h : x.Consistent limit) (c : Cpu) (retired : Retired) :
    (x.observe c retired).2.Consistent limit := by
  unfold FragmentCache.observe
  split
  · exact h
  cases hrecorder : x.recorder with
  | none =>
    dsimp only
    split
    · exact h.countHit hrecorder c.pc
    · exact h
  | some r =>
    dsimp only
    obtain ⟨hr, hlt⟩ := h.trace r hrecorder
    split
    -- the trace ends before the instruction
    · exact h.close hrecorder rfl hr
    rename_i hends
    have hbegins : r.reversed = [] → retired.address = r.entry := by
      intro hempty
      unfold endsBefore at hends
      simp only [hempty, List.isEmpty_nil, Bool.true_and, Bool.or_eq_true, bne_iff_ne, not_or,
        not_not] at hends
      exact hends.1
    have hlonger : Recorder.Formed
        { r with reversed := ⟨retired.address, retired.word, retired.inDelaySlot⟩ :: r.reversed } limit := by
      constructor
      · exact hlt
      · intro op hlast
        cases hempty : r.reversed with
        | nil =>
          rw [hempty] at hlast
          obtain rfl := Option.some.inj hlast
          exact hbegins hempty
        | cons other rest =>
          rw [hempty, List.getLast?_cons_cons, ← hempty] at hlast
          exact hr.first op hlast
    split
    · exact h.close hrecorder rfl hlonger
    · rename_i hafter
      refine h.extended hrecorder rfl hlonger ?_
      have hmax : ¬ x.maxOps ≤ r.reversed.length + 1 := by
        intro hle
        refine hafter ?_
        unfold endsAfter
        simp [hle]
      rw [h.limit_eq] at hmax
      show r.reversed.length + 1 < limit
      omega

end Consistent

end FragmentCache

/-- A fragment is left through one of its exits. -/
theorem Fragment.index_le_of_runOps (usesFloat : Bool) (ops : List FragmentOp) :
    ∀ (index : Nat) (d : Deferred) (t t' : Tandem) (exit : FragmentExit),
      runOps usesFloat ops index d t = (.ok exit, t') → exit.index ≤ index + ops.length := by
  induction ops with
  | nil =>
    intro index d t t' exit h
    obtain ⟨hexit, -⟩ := Prod.mk.inj h
    obtain rfl := Except.ok.inj hexit
    exact Nat.le_refl _
  | cons op rest ih =>
    intro index d t t' exit h
    have hleave {n : Nat} {u : Tandem} (hn : n ≤ index + 1) (h : leave n u = (.ok exit, t')) :
        exit.index ≤ index + (op :: rest).length := by
      obtain ⟨hexit, -⟩ := Prod.mk.inj h
      obtain rfl := Except.ok.inj hexit
      show n ≤ index + (rest.length + 1)
      omega
    have hnext {d : Deferred} {u : Tandem} (h : runOps usesFloat rest (index + 1) d u = (.ok exit, t')) :
        exit.index ≤ index + (op :: rest).length := by
      have hle := ih (index + 1) d u t' exit h
      rw [List.length_cons]
      omega
    unfold runOps at h
    split at h
    -- a deferred operation
    · dsimp only at h
      split at h
      · exact hleave (Nat.le_refl _) h
      · exact hnext h
    · dsimp only at h
      split at h
      · exact hleave (Nat.le_succ _) h
      · split at h
        · cases h
        · split at h
          · exact hleave (Nat.le_refl _) h
          · split at h
            · exact hleave (Nat.le_refl _) h
            · exact hnext h

/-! ## Along the run of a machine -/

namespace Machine

variable {m : Machine} {limit : Nat}

theorem consistent_drain (h : m.cache.Consistent limit) : m.drain.cache.Consistent limit := by
  obtain ⟨n, cache, heq, hcache⟩ :=
    drain_eq (P := (·.Consistent limit)) (fun _ entry hx => hx.forget entry) h
  rw [heq]
  exact hcache

theorem consistent_invalidateCode (h : m.cache.Consistent limit) (address len : UInt64) :
    (m.invalidateCode address len).cache.Consistent limit :=
  FragmentCache.forgetAll_preserves (P := (·.Consistent limit)) (fun _ entry hx => hx.forget entry) h _

theorem consistent_observe (h : m.cache.Consistent limit) (retired : Retired) :
    (m.observe retired).cache.Consistent limit :=
  h.observe m.tandem.cpu retired

theorem consistent_lookup (h : m.cache.Consistent limit) : m.lookup.2.cache.Consistent limit :=
  h.lookup m.cpu m.breakpoints

/-- Behind a run of a fragment that was found, the cache is consistent. -/
theorem consistent_left (h : m.lookup.2.cache.Consistent limit) {id : FragmentId} (hl : m.lookup.1 = some id)
    {f : Fragment} (hf : m.lookup.2.cache.store.get? id = some f) {d : Deferred} {t₀ t : Tandem}
    {exit : FragmentExit} (he : Fragment.runOps f.usesFloat f.ops 0 d t₀ = (.ok exit, t)) :
    (m.lookup.2.cache.left id exit t).Consistent limit := by
  have hidle : m.lookup.2.cache.recorder = none :=
    FragmentCache.recorder_lookup_of_some ((lookup_fst _).symm.trans hl)
  have hexit : exit.index ≤ f.length := by
    have hle := Fragment.index_le_of_runOps _ _ _ _ _ _ _ he
    rw [(h.formed hf).length_eq]
    omega
  exact h.left hidle hf hexit t

/-- **A turn** leaves a consistent cache. -/
theorem Turn.consistent {resumeAt : Option UInt64} {es : List Execution}
    {out : Option (Except FatalError Exit) × Machine} (ht : Turn m resumeAt es out)
    (h : m.cache.Consistent limit) : out.2.cache.Consistent limit := by
  have hlookup : m.takeInterrupt.lookup.2.cache.Consistent limit :=
    consistent_lookup (m := m.takeInterrupt) h
  cases ht with
  | stop _ => exact h
  | breakpoint _ _ => exact h
  | fatal _ _ _ _ => exact hlookup
  | @interpret _ _ _ retired cpu _ =>
    exact consistent_drain (consistent_observe
      (m := m.takeInterrupt.lookup.2.withTandem (interpreted cpu m.tandem.vector)) hlookup retired)
  | @fragmentFatal _ _ id _ f hf _ _ _ =>
    exact hlookup.modify id (fun f => { f with runs := f.runs + 1 }) (fun f => ⟨f.successors, _, rfl⟩)
      m.takeInterrupt.lookup.2.cache.lastExit hlookup.last
  | fragment _ _ hl hf he => exact consistent_drain (consistent_left (m := m.takeInterrupt) hlookup hl hf he)

/-- **Turns** leave a consistent cache. -/
theorem consistent_loop (n : Nat) (resumeAt : Option UInt64) (h : m.cache.Consistent limit) :
    (loop n resumeAt m).2.cache.Consistent limit :=
  loop_preserves (P := fun m => m.cache.Consistent limit) (fun r m hm => (turn_spec m r).consistent hm) n
    resumeAt h

theorem consistent_run (h : m.cache.Consistent limit) (budget : UInt64) :
    (m.run budget).2.cache.Consistent limit := by
  rcases eq_or_ne budget 0 with rfl | h0
  · rw [run_zero]
    exact h
  · rw [run_eq m h0]
    exact consistent_loop (m := m.prepare budget) _ m.resumeAt h

/-- **A single step** is not shown to the cache. It looks at invalidations, unless it stops the machine. -/
theorem step_snd (m : Machine) :
    ∃ t, m.step.2 = m.takeInterrupt.withTandem t ∨ m.step.2 = (m.takeInterrupt.withTandem t).drain := by
  have hinterpret : ∃ t, m.takeInterrupt.interpret.2 = m.takeInterrupt.withTandem t := by
    unfold interpret
    dsimp only
    split
    · exact ⟨_, rfl⟩
    · exact ⟨_, rfl⟩
  obtain ⟨t, ht⟩ := hinterpret
  refine ⟨t, ?_⟩
  unfold step
  rw [← ht]
  rcases m.takeInterrupt.interpret with ⟨r, k⟩
  cases r with
  | error x => exact .inl rfl
  | ok retired => exact .inr rfl

/-- What forgetting an address preserves, a single step preserves. -/
theorem cache_step {P : FragmentCache → Prop} (hforget : ∀ x entry, P x → P (x.forget entry)) (hm : P m.cache) :
    P m.step.2.cache := by
  obtain ⟨t, hstep | hstep⟩ := m.step_snd
  · rw [hstep]
    exact hm
  · obtain ⟨n, cache, heq, hcache⟩ := drain_eq hforget (m := m.takeInterrupt.withTandem t) hm
    rw [hstep, heq]
    exact hcache

theorem consistent_step (h : m.cache.Consistent limit) : m.step.2.cache.Consistent limit :=
  cache_step (P := (·.Consistent limit)) (fun _ entry hx => hx.forget entry) h

end Machine

/-! ## Everything that is done to a machine -/

/-- What is done to a machine. -/
inductive Operation where
  /-- It is run. -/
  | run (budget : UInt64)
  /-- It executes one instruction. -/
  | step
  /-- It is asked to halt. -/
  | requestHalt
  /-- It is reset. -/
  | reset
  /-- A program is loaded. -/
  | loadProgram (physical : Nat) (program : List UInt32)
  /-- The fragments of a range are dropped. -/
  | invalidateCode (address len : UInt64)
  /-- It looks at overwritten code and replaced mappings. -/
  | drain
  /-- The recompiler is switched on or off. -/
  | setRecompiler (enabled : Bool)
  /-- All fragments are dropped. -/
  | clearFragments
  /-- The breakpoints are replaced. -/
  | setBreakpoints (breakpoints : List UInt64)
  /-- The processor is changed, in any way. -/
  | changeProcessor (change : Cpu → Cpu)

namespace Operation

/-- The machine behind an operation. -/
def perform (m : Machine) : Operation → Machine
  | run budget => (m.run budget).2
  | step => m.step.2
  | requestHalt => m.requestHalt
  | reset => m.reset
  | loadProgram physical program => m.loadProgram physical program
  | invalidateCode address len => m.invalidateCode address len
  | drain => m.drain
  | setRecompiler enabled => { m with cache := m.cache.setEnabled enabled }
  | clearFragments => { m with cache := m.cache.clear }
  | setBreakpoints breakpoints => { m with breakpoints := breakpoints }
  | changeProcessor change => m.onCpu change

/-- **Every operation** leaves a consistent cache. -/
theorem consistent {m : Machine} {limit : Nat} (h : m.cache.Consistent limit) (o : Operation) :
    (o.perform m).cache.Consistent limit := by
  cases o with
  | run budget => exact Machine.consistent_run h budget
  | step => exact Machine.consistent_step h
  | requestHalt => exact h
  | reset => exact h.clear
  | loadProgram physical program =>
    exact Machine.consistent_invalidateCode
      (m := m.onCpu fun c => { c with ram := c.ram.load physical (Bytes.ofWords program) }) h _ _
  | invalidateCode address len => exact Machine.consistent_invalidateCode h address len
  | drain => exact Machine.consistent_drain h
  | setRecompiler enabled => exact h.setEnabled enabled
  | clearFragments => exact h.clear
  | setBreakpoints breakpoints => exact h
  | changeProcessor change => exact h

end Operation

namespace Machine

/-- The machine behind operations in order. -/
def operate (m : Machine) (operations : List Operation) : Machine := operations.foldl Operation.perform m

theorem consistent_operate (operations : List Operation) :
    ∀ {m : Machine} {limit : Nat}, m.cache.Consistent limit → (m.operate operations).cache.Consistent limit := by
  induction operations with
  | nil => intro m limit h; exact h
  | cons o rest ih => intro m limit h; exact ih (o.consistent h)

end Machine

/-- **The parts of a fragment cache agree**, whatever was done to the machine since it was built: what is
recorded and compiled, the fragments, the index and the last exit. A link between fragments leads to what is
compiled for an address, or nowhere. -/
theorem cache_consistent (config : Configuration) (bus : Bus) (vector : VectorUnit)
    (operations : List Operation) :
    let x := ((Machine.create config bus vector).operate operations).cache
    x.Consistent (max 1 config.recompiler.maxFragmentOps.toNat) ∧
      ∀ id exit next, x.store.successor? id exit = some next →
        ∃ f, x.store.get? next = some f ∧ x.entries[f.entry]? = some (.compiled next) := by
  have h : ((Machine.create config bus vector).operate operations).cache.Consistent
      (max 1 config.recompiler.maxFragmentOps.toNat) :=
    Machine.consistent_operate operations (FragmentCache.Consistent.create config.recompiler)
  exact ⟨h, fun _ _ _ hs => h.successor hs⟩

end Vr4300
