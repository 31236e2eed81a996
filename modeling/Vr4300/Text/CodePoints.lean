/-!
# Sets of code points

A set of code points is a list of ranges, in ascending order. A look-up ends at the first range that
lies behind the code point, so a small code point is decided by the first few ranges.

## Contents

* `CodePoints`, `CodePoints.contains`, `CodePoints.Ascending`.
* `CodePoints.contains_iff`: a look-up finds exactly what some range covers.
-/

namespace Vr4300.Text

/-- Ranges of code points, each with its first and its last. -/
abbrev CodePoints := List (Nat × Nat)

namespace CodePoints

/-- Some range covers the code point. -/
def contains (n : Nat) : CodePoints → Bool
  | [] => false
  | (first, last) :: rest => first ≤ n && (n ≤ last || contains n rest)

/-- The ranges are not empty and follow each other with a gap between them, from `bound` on. -/
def AscendingFrom : Nat → CodePoints → Prop
  | _, [] => True
  | bound, (first, last) :: rest => bound ≤ first ∧ first ≤ last ∧ AscendingFrom (last + 2) rest

/-- The ranges are not empty and follow each other with a gap between them. -/
def Ascending (s : CodePoints) : Prop :=
  AscendingFrom 0 s

instance decidableAscendingFrom : (bound : Nat) → (s : CodePoints) → Decidable (AscendingFrom bound s)
  | _, [] => isTrue trivial
  | bound, (first, last) :: rest =>
    have := decidableAscendingFrom (last + 2) rest
    inferInstanceAs (Decidable (bound ≤ first ∧ first ≤ last ∧ AscendingFrom (last + 2) rest))

instance decidableAscending (s : CodePoints) : Decidable (Ascending s) :=
  decidableAscendingFrom 0 s

theorem AscendingFrom.bound_le {bound : Nat} {s : CodePoints} (h : AscendingFrom bound s) :
    ∀ r ∈ s, bound ≤ r.1 := by
  induction s generalizing bound with
  | nil => simp
  | cons r rest ih =>
    obtain ⟨h₁, h₂, h₃⟩ := h
    intro q hq
    rcases List.mem_cons.mp hq with rfl | hq
    · exact h₁
    · exact Nat.le_trans (by omega) (ih h₃ q hq)

theorem AscendingFrom.contains_iff {bound n : Nat} {s : CodePoints} (h : AscendingFrom bound s) :
    contains n s ↔ ∃ r ∈ s, r.1 ≤ n ∧ n ≤ r.2 := by
  induction s generalizing bound with
  | nil => simp [contains]
  | cons r rest ih =>
    obtain ⟨first, last⟩ := r
    obtain ⟨-, h₂, h₃⟩ := h
    simp only [contains, Bool.and_eq_true, Bool.or_eq_true, decide_eq_true_eq, ih h₃,
      List.mem_cons, exists_eq_or_imp]
    constructor
    · rintro ⟨h, h' | h'⟩
      · exact .inl ⟨h, h'⟩
      · exact .inr h'
    · rintro (⟨h, h'⟩ | ⟨r, hr, h, h'⟩)
      · exact ⟨h, .inl h'⟩
      · exact ⟨by have := h₃.bound_le r hr; omega, .inr ⟨r, hr, h, h'⟩⟩

/-- A look-up finds exactly the code points that some range covers. -/
theorem contains_iff {s : CodePoints} (h : s.Ascending) (n : Nat) :
    s.contains n ↔ ∃ r ∈ s, r.1 ≤ n ∧ n ≤ r.2 :=
  AscendingFrom.contains_iff h

end CodePoints

end Vr4300.Text
