import Mathlib.Data.List.Dedup
import Mathlib.Data.List.Induction
import Mathlib.Data.List.Sort
import Vr4300.Fragment.Cache
import Vr4300.Proofs.Addresses
import Vr4300.Proofs.CodeIndex
import Vr4300.Proofs.Overwriting

/-!
# `Proofs.PairList` — the index answers like a list of pairs

The index of compiled code is kept as a map from lines to sets of entries, and is asked for ranges of addresses,
line by line and through both unmapped windows. The reference is a plain list of pairs of a line and an entry: an
insertion adds pairs, a removal and a clearing filter them, and every question is answered by going through the
list with `CodeIndex.covers`.

An index that represents a list goes on to represent it (`Represents.serve`), and gives the answers that the list
gives (`Represents.size_eq`, `Represents.toList_overlapping`). The trace in progress is not in the index, and is
compared with a range by `covers` alone; it is dropped exactly when it would be found, were its lines in the
index (`invalidate_eq_entriesIn`).

## Contents

* `IndexRequest`, with its effect on an index and on a list of pairs;
* `Inserted`: a pair that was inserted and not removed since;
* `CodeIndex.Represents`, preserved by every request, and the answers of an index;
* `Recorder.lines`, `FragmentCache.invalidate_eq_entriesIn`: the trace in progress;
* `index_answers_like_pairs`.
-/

namespace Vr4300

/-! ## Requests -/

/-- What is done to an index. -/
inductive IndexRequest where
  /-- An entry is added to lines. -/
  | insert (entry : UInt64) (lines : List UInt64)
  /-- An entry is removed from lines. -/
  | remove (entry : UInt64) (lines : List UInt64)
  /-- Every line is dropped. -/
  | clear

/-- The pairs of an entry with lines. -/
def pairsWith (entry : UInt64) (lines : List UInt64) : List (UInt64 × UInt64) := lines.map (·, entry)

theorem mem_pairsWith {line k entry : UInt64} {lines : List UInt64} :
    (line, k) ∈ pairsWith entry lines ↔ k = entry ∧ line ∈ lines := by
  unfold pairsWith
  simp [eq_comm, and_comm]

namespace IndexRequest

/-- The index behind a request. -/
def onIndex (x : CodeIndex) : IndexRequest → CodeIndex
  | insert entry lines => x.insert entry lines
  | remove entry lines => x.remove entry lines
  | clear => {}

/-- The list of pairs behind a request. -/
def onPairs (pairs : List (UInt64 × UInt64)) : IndexRequest → List (UInt64 × UInt64)
  | insert entry lines => pairs ++ pairsWith entry lines
  | remove entry lines => pairs.filter fun p => !(p.2 == entry && lines.contains p.1)
  | clear => []

/-- The request adds the pair. -/
def Adds (line entry : UInt64) : IndexRequest → Prop
  | insert k lines => entry = k ∧ line ∈ lines
  | _ => False

/-- The request takes the pair away. -/
def Drops (line entry : UInt64) : IndexRequest → Prop
  | insert _ _ => False
  | remove k lines => entry = k ∧ line ∈ lines
  | clear => True

/-- A pair is in the list behind a request if it was added now, or was there and is not taken away. -/
theorem mem_onPairs (pairs : List (UInt64 × UInt64)) (r : IndexRequest) (line entry : UInt64) :
    (line, entry) ∈ r.onPairs pairs ↔ r.Adds line entry ∨ ((line, entry) ∈ pairs ∧ ¬ r.Drops line entry) := by
  cases r with
  | insert k lines =>
    show _ ∈ pairs ++ _ ↔ (_ ∧ _) ∨ (_ ∧ ¬ False)
    rw [List.mem_append, mem_pairsWith, or_comm]
    simp
  | remove k lines =>
    show _ ∈ pairs.filter _ ↔ False ∨ (_ ∧ ¬ (_ ∧ _))
    rw [List.mem_filter]
    simp [imp_iff_not_or]
  | clear =>
    show _ ∈ [] ↔ False ∨ (_ ∧ ¬ True)
    simp

end IndexRequest

/-- The pairs behind requests in order. -/
def pairsAfter (requests : List IndexRequest) : List (UInt64 × UInt64) :=
  requests.foldl IndexRequest.onPairs []

/-- The index behind requests in order. -/
def indexAfter (requests : List IndexRequest) : CodeIndex := requests.foldl IndexRequest.onIndex {}

theorem pairsAfter_concat (requests : List IndexRequest) (r : IndexRequest) :
    pairsAfter (requests ++ [r]) = r.onPairs (pairsAfter requests) := List.foldl_concat ..

theorem indexAfter_concat (requests : List IndexRequest) (r : IndexRequest) :
    indexAfter (requests ++ [r]) = r.onIndex (indexAfter requests) := List.foldl_concat ..

/-- **The pair was inserted and not removed since.** -/
def Inserted (requests : List IndexRequest) (line entry : UInt64) : Prop :=
  ∃ before r after, requests = before ++ r :: after ∧ r.Adds line entry ∧ ∀ s ∈ after, ¬ s.Drops line entry

theorem inserted_concat (requests : List IndexRequest) (r : IndexRequest) (line entry : UInt64) :
    Inserted (requests ++ [r]) line entry ↔
      r.Adds line entry ∨ (Inserted requests line entry ∧ ¬ r.Drops line entry) := by
  constructor
  · rintro ⟨before, s, after, heq, hadds, hkept⟩
    rcases after.eq_nil_or_concat with rfl | ⟨rest, last, rfl⟩
    · -- it was the last request that inserted the pair
      obtain ⟨-, hlast⟩ := List.append_inj' heq rfl
      obtain rfl := List.head_eq_of_cons_eq hlast
      exact .inl hadds
    · rw [List.concat_eq_append, ← List.cons_append, ← List.append_assoc] at heq
      obtain ⟨rfl, hlast⟩ := List.append_inj' heq rfl
      obtain rfl := List.head_eq_of_cons_eq hlast
      refine .inr ⟨⟨before, s, rest, rfl, hadds, ?_⟩, ?_⟩
      · intro q hq
        exact hkept q (by simp [hq])
      · exact hkept r (by simp)
  · rintro (hadds | ⟨⟨before, s, after, rfl, hadds, hkept⟩, hkeeps⟩)
    · exact ⟨requests, r, [], rfl, hadds, fun s hs => by cases hs⟩
    · refine ⟨before, s, after ++ [r], by simp, hadds, ?_⟩
      intro q hq
      rcases List.mem_append.mp hq with hq | hq
      · exact hkept q hq
      · obtain rfl := List.mem_singleton.mp hq
        exact hkeeps

/-- **The list holds the pairs that were inserted and not removed since.** -/
theorem mem_pairsAfter (requests : List IndexRequest) (line entry : UInt64) :
    (line, entry) ∈ pairsAfter requests ↔ Inserted requests line entry := by
  induction requests using List.reverseRecOn with
  | nil =>
    constructor
    · intro h
      cases h
    · rintro ⟨before, r, after, heq, -⟩
      simp at heq
  | append_singleton requests r ih =>
    rw [pairsAfter_concat, IndexRequest.mem_onPairs, inserted_concat, ih]

/-- The entries of the pairs whose line lies in a range of addresses, in ascending order. -/
def entriesIn (pairs : List (UInt64 × UInt64)) (address len : UInt64) : List UInt64 :=
  ascending ((pairs.filter fun p => CodeIndex.covers p.1 address len).map Prod.snd)

theorem mem_entriesIn {pairs : List (UInt64 × UInt64)} {address len entry : UInt64} :
    entry ∈ entriesIn pairs address len ↔
      ∃ line, CodeIndex.covers line address len = true ∧ (line, entry) ∈ pairs := by
  unfold entriesIn
  simp only [mem_ascending, List.mem_map, List.mem_filter]
  constructor
  · rintro ⟨⟨line, k⟩, ⟨hpair, hcovers⟩, rfl⟩
    exact ⟨line, hcovers, hpair⟩
  · rintro ⟨line, hcovers, hpair⟩
    exact ⟨(line, entry), ⟨hpair, hcovers⟩, rfl⟩

/-! ## The index -/

/-- A set is listed in ascending order. -/
theorem toList_eq_ascending {s : Std.TreeSet UInt64} {xs : List UInt64} (h : ∀ k, k ∈ s ↔ k ∈ xs) :
    s.toList = ascending xs := by
  have hsorted : s.toList.Pairwise (· < ·) := Std.TreeSet.ordered_toList.imp fun {a b} hab => Std.compare_eq_lt.mp hab
  refine List.Pairwise.eq_of_mem_iff hsorted (pairwise_ascending xs) ?_
  intro k
  rw [Std.TreeSet.mem_toList, h, mem_ascending]

namespace CodeIndex

/-- **The index represents the list of pairs.** -/
structure Represents (x : CodeIndex) (pairs : List (UInt64 × UInt64)) : Prop where
  /-- No line is kept without an entry. -/
  tidy : x.Tidy
  /-- A line has the entries of its pairs. -/
  mem : ∀ line entry, entry ∈ x.entriesOf line ↔ (line, entry) ∈ pairs

theorem represents_empty : ({} : CodeIndex).Represents [] := by
  refine ⟨tidy_empty, ?_⟩
  intro line entry
  simp

namespace Represents

variable {x : CodeIndex} {pairs : List (UInt64 × UInt64)}

theorem insert (h : x.Represents pairs) (entry : UInt64) (lines : List UInt64) :
    (x.insert entry lines).Represents (pairs ++ pairsWith entry lines) := by
  refine ⟨h.tidy.insert entry lines, ?_⟩
  intro line k
  rw [mem_insert, h.mem, List.mem_append, mem_pairsWith]

theorem remove (h : x.Represents pairs) (entry : UInt64) (lines : List UInt64) :
    (x.remove entry lines).Represents (pairs.filter fun p => !(p.2 == entry && lines.contains p.1)) := by
  refine ⟨h.tidy.remove entry lines, ?_⟩
  intro line k
  rw [mem_remove, h.mem, List.mem_filter]
  simp [imp_iff_not_or]

/-- **Every request** is represented. -/
theorem serve (h : x.Represents pairs) (r : IndexRequest) : (r.onIndex x).Represents (r.onPairs pairs) := by
  cases r with
  | insert entry lines => exact h.insert entry lines
  | remove entry lines => exact h.remove entry lines
  | clear => exact represents_empty

/-! ### Answers -/

/-- A line is kept while it has a pair. -/
theorem mem_keys (h : x.Represents pairs) (line : UInt64) : line ∈ x.lines.keys ↔ line ∈ pairs.map Prod.fst := by
  rw [Std.TreeMap.mem_keys, ← Std.TreeMap.isSome_getElem?_iff_mem, Option.isSome_iff_exists]
  have hentries {entries : Std.TreeSet UInt64} (hl : x.lines[line]? = some entries) :
      x.entriesOf line = entries := by
    unfold entriesOf
    rw [hl]
    rfl
  constructor
  · rintro ⟨entries, hl⟩
    obtain ⟨entry, hentry⟩ := Std.TreeSet.isEmpty_eq_false_iff_exists_mem.mp (h.tidy line entries hl)
    exact List.mem_map.mpr ⟨(line, entry), (h.mem line entry).mp (hentries hl ▸ hentry), rfl⟩
  · intro hline
    obtain ⟨⟨l, entry⟩, hpair, rfl⟩ := List.mem_map.mp hline
    have hmem := (h.mem l entry).mpr hpair
    by_contra hnone
    have hempty : x.lines[l]? = none := Option.eq_none_iff_forall_ne_some.mpr fun e he => hnone ⟨e, he⟩
    unfold entriesOf at hmem
    rw [hempty] at hmem
    exact Std.TreeSet.not_mem_emptyc hmem

/-- **The number of lines** is that of the different lines in the pairs. -/
theorem size_eq (h : x.Represents pairs) : x.size = (pairs.map Prod.fst).dedup.length := by
  have hdistinct : x.lines.keys.Nodup :=
    Std.TreeMap.distinct_keys.imp fun {a b} hab heq => hab (Std.compare_eq_iff_eq.mpr heq)
  have hperm : x.lines.keys.Perm (pairs.map Prod.fst).dedup := by
    rw [List.perm_ext_iff_of_nodup hdistinct (List.nodup_dedup _)]
    intro line
    rw [h.mem_keys, List.mem_dedup]
  unfold size
  rw [← Std.TreeMap.length_keys, hperm.length_eq]

theorem isEmpty_eq (h : x.Represents pairs) : x.isEmpty = pairs.isEmpty := by
  have hsize : (x.lines.size == 0) = ((pairs.map Prod.fst).dedup.length == 0) :=
    congrArg (· == 0) h.size_eq
  unfold isEmpty
  rw [Std.TreeMap.isEmpty_eq_size_eq_zero, hsize, Bool.eq_iff_iff]
  simp [List.dedup_eq_nil]

/-- **The entries that overlap a range** are those of the pairs whose line is covered, in ascending order. -/
theorem toList_overlapping (h : x.Represents pairs) (address len : UInt64) :
    (x.overlapping address len).toList = entriesIn pairs address len := by
  refine toList_eq_ascending ?_
  intro entry
  rw [← mem_ascending, mem_overlapping]
  show _ ↔ entry ∈ entriesIn pairs address len
  simp only [mem_entriesIn, h.mem]

end Represents

/-- **Requests in order** leave an index that represents the list of pairs. -/
theorem represents_indexAfter (requests : List IndexRequest) :
    (indexAfter requests).Represents (pairsAfter requests) := by
  induction requests using List.reverseRecOn with
  | nil => exact represents_empty
  | append_singleton requests r ih =>
    rw [indexAfter_concat, pairsAfter_concat]
    exact ih.serve r

end CodeIndex

/-! ## The trace in progress -/

namespace Recorder

/-- The lines of a trace. -/
def lines (r : Recorder) : List UInt64 := (r.entry :: r.reversed.map (·.address)).map codeLine

/-- **A trace and its fragment** have the same lines, if the trace begins at its entry. -/
theorem mem_lines_compile {r : Recorder} (hfirst : ∃ op ∈ r.reversed, op.address = r.entry) (line : UInt64) :
    line ∈ (Fragment.compile r.entry r.reversed.reverse).lines ↔ line ∈ r.lines := by
  show line ∈ codeLines _ ↔ _
  unfold codeLines lines
  rw [mem_ascending, List.map_cons, List.mem_cons]
  simp only [List.mem_map, List.mem_reverse, exists_exists_and_eq_and]
  constructor
  · intro h
    exact .inr h
  · rintro (rfl | h)
    · obtain ⟨op, hop, hentry⟩ := hfirst
      exact ⟨op, hop, congrArg codeLine hentry⟩
    · exact h

end Recorder

namespace FragmentCache

variable {x : FragmentCache}

/-- The pairs of the trace in progress, if there is one. -/
def tracePairs (x : FragmentCache) : List (UInt64 × UInt64) :=
  (x.recorder.map fun r => pairsWith r.entry r.lines).getD []

/-- **The trace in progress is touched** by a range if the range covers a line of the trace. -/
theorem mem_recorderTouches (x : FragmentCache) (address len entry : UInt64) :
    x.recorderTouches address len = some entry ↔ entry ∈ entriesIn x.tracePairs address len := by
  rw [recorderTouches_eq_some_iff, mem_entriesIn]
  unfold tracePairs Recorder.lines
  cases x.recorder with
  | none => simp
  | some r =>
    dsimp only [Option.map_some, Option.getD_some]
    simp only [Option.some.injEq, exists_eq_left', mem_pairsWith, List.mem_map]
    constructor
    · rintro ⟨rfl, a, ha, hcovers⟩
      exact ⟨codeLine a, hcovers, rfl, a, ha, rfl⟩
    · rintro ⟨-, hcovers, rfl, a, ha, rfl⟩
      exact ⟨rfl, a, ha, hcovers⟩

/-- **A range of addresses** drops the entries that have a covered line in the index or in the trace in
progress. -/
theorem invalidate_eq_entriesIn {pairs : List (UInt64 × UInt64)} (h : x.index.Represents pairs)
    (address len : UInt64) :
    x.invalidate address len = x.forgetAll (entriesIn (pairs ++ x.tracePairs) address len) := by
  have hindex (k : UInt64) : k ∈ x.index.overlapping address len ↔ k ∈ entriesIn pairs address len := by
    rw [← h.toList_overlapping, Std.TreeSet.mem_toList]
  have hboth (k : UInt64) : k ∈ entriesIn (pairs ++ x.tracePairs) address len ↔
      k ∈ entriesIn pairs address len ∨ k ∈ entriesIn x.tracePairs address len := by
    simp only [mem_entriesIn, List.mem_append, and_or_left, exists_or]
  rw [invalidate_eq]
  refine congrArg x.forgetAll (toList_eq_ascending ?_)
  intro k
  rw [← mem_ascending, ← Std.TreeSet.mem_toList, mem_overwritten]
  show _ ↔ k ∈ entriesIn (pairs ++ x.tracePairs) address len
  rw [hboth, hindex, mem_recorderTouches]

end FragmentCache

/-! ## Together -/

/-- The entry of lines is found in a range that covers one of them. -/
theorem mem_overlapping_insert {entry address len : UInt64} {lines : List UInt64} :
    entry ∈ (indexAfter [.insert entry lines]).overlapping address len ↔
      ∃ line ∈ lines, CodeIndex.covers line address len = true := by
  rw [CodeIndex.mem_overlapping]
  simp only [(CodeIndex.represents_indexAfter [.insert entry lines]).mem]
  show (∃ line, _ ∧ (line, entry) ∈ pairsWith entry lines) ↔ _
  simp [mem_pairsWith, and_comm]

/-- **The index answers like a list of pairs**, behind every sequence of insertions, removals and clearings:
* it holds the pairs of a line and an entry that were inserted and not removed since;
* its size is the number of lines with a pair;
* for every range, also one that is empty or wraps around, it finds the entries with a line that is covered, in
  ascending order.

The trace in progress is touched by a range if its entry would be found there, were its lines indexed, or those
of the fragment that it becomes. What a range drops are the entries that the list would give with the pairs of
the trace. -/
theorem index_answers_like_pairs (requests : List IndexRequest) :
    let x := indexAfter requests
    let pairs := pairsAfter requests
    (∀ line entry, (line, entry) ∈ pairs ↔ Inserted requests line entry) ∧
    (∀ line entry, entry ∈ x.entriesOf line ↔ Inserted requests line entry) ∧
    x.size = (pairs.map Prod.fst).dedup.length ∧ x.isEmpty = pairs.isEmpty ∧
    (∀ address len, (x.overlapping address len).toList = entriesIn pairs address len) ∧
    (∀ address len entry, entry ∈ x.overlapping address len ↔
      ∃ line, CodeIndex.covers line address len = true ∧ Inserted requests line entry) ∧
    ∀ (y : FragmentCache) (r : Recorder) (address len : UInt64),
      let z := { y with index := x, recorder := some r }
      (z.recorderTouches address len = some r.entry ↔
        r.entry ∈ (indexAfter [.insert r.entry r.lines]).overlapping address len) ∧
      ((∃ op ∈ r.reversed, op.address = r.entry) →
        (z.recorderTouches address len = some r.entry ↔
          r.entry ∈ (indexAfter [.insert r.entry (Fragment.compile r.entry r.reversed.reverse).lines]).overlapping
            address len)) ∧
      z.invalidate address len = z.forgetAll (entriesIn (pairs ++ pairsWith r.entry r.lines) address len) := by
  intro x pairs
  have hx : x.Represents pairs := CodeIndex.represents_indexAfter requests
  have hpairs (line entry : UInt64) : (line, entry) ∈ pairs ↔ Inserted requests line entry :=
    mem_pairsAfter requests line entry
  have hlines (line entry : UInt64) : entry ∈ x.entriesOf line ↔ Inserted requests line entry :=
    (hx.mem line entry).trans (hpairs line entry)
  refine ⟨hpairs, hlines, hx.size_eq, hx.isEmpty_eq, hx.toList_overlapping, ?_, ?_⟩
  · intro address len entry
    rw [CodeIndex.mem_overlapping]
    simp only [hlines]
  · intro y r address len z
    have htouches : z.recorderTouches address len = some r.entry ↔
        ∃ line ∈ r.lines, CodeIndex.covers line address len = true := by
      rw [FragmentCache.mem_recorderTouches, mem_entriesIn]
      show (∃ line, _ ∧ (line, r.entry) ∈ pairsWith r.entry r.lines) ↔ _
      simp [mem_pairsWith, and_comm]
    refine ⟨?_, ?_, ?_⟩
    · rw [htouches, mem_overlapping_insert]
    · intro hfirst
      rw [htouches, mem_overlapping_insert]
      simp only [Recorder.mem_lines_compile hfirst]
    · exact FragmentCache.invalidate_eq_entriesIn (x := z) hx address len

/-- An entry is removed from one of its lines, and from one that it never had. An empty range finds an entry, also
through the other window, and a range that wraps around finds none. -/
example :
    let x := indexAfter [.insert 0x80 [4, 4, 0x3FFFFFF], .remove 0x80 [0x3FFFFFF, 7], .insert 0x90 [0x5000000]]
    x.size = 2 ∧ (x.overlapping 0x80 0).toList = [0x80] ∧ (x.overlapping 0xFFFFFFFFFFFFFFFF 0x100).toList = [] ∧
      (x.overlapping 0x80000000 0).toList = [0x90] := by
  decide +kernel

end Vr4300
