/-
Classes of characters given by ascending ranges of code points.

A look-up in ascending ranges stops at the first one that begins behind the code point and still
answers for all of them (`has_eq_any`).
-/

namespace Whiteboard.Text

namespace Ranges

/-- No range is empty, the first begins at or after `n`, and each begins after the one before it
ends. -/
def ascend : Nat → List (Nat × Nat) → Bool
  | _, [] => true
  | n, (lo, hi) :: rest => n ≤ lo && lo ≤ hi && ascend (hi + 1) rest

/-- Whether a code point lies in one of the ranges, looked up from the front. -/
def lookup : List (Nat × Nat) → Nat → Bool
  | [], _ => false
  | (lo, hi) :: rest, n => if n < lo then false else if n ≤ hi then true else lookup rest n

/-- Ascending ranges lie behind the bound they ascend from. -/
theorem le_of_mem_ascend {rs : List (Nat × Nat)} {n : Nat} (h : ascend n rs) {r : Nat × Nat}
    (hr : r ∈ rs) : n ≤ r.1 := by
  induction rs generalizing n with
  | nil => simp at hr
  | cons s rest ih =>
    simp only [ascend, Bool.and_eq_true, decide_eq_true_eq] at h
    rcases List.mem_cons.1 hr with rfl | hr
    · exact h.1.1
    · have := ih h.2 hr
      omega

/-- Stopping early loses nothing where ranges ascend. -/
theorem lookup_eq_any {rs : List (Nat × Nat)} {m : Nat} (h : ascend m rs) (n : Nat) :
    lookup rs n = rs.any fun r => r.1 ≤ n && n ≤ r.2 := by
  induction rs generalizing m with
  | nil => rfl
  | cons r rest ih =>
    obtain ⟨lo, hi⟩ := r
    simp only [ascend, Bool.and_eq_true, decide_eq_true_eq] at h
    simp only [lookup, List.any_cons]
    split
    · rename_i hn
      have hnone : (rest.any fun r => r.1 ≤ n && n ≤ r.2) = false := by
        rw [List.any_eq_false]
        intro s hs
        have h₁ := le_of_mem_ascend h.2 hs
        have h₂ : ¬ s.1 ≤ n := by omega
        simp [h₂]
      have h₃ : ¬ lo ≤ n := by omega
      simp [hnone, h₃]
    · rename_i hn
      have h₄ : lo ≤ n := by omega
      split
      · rename_i hhi
        simp [h₄, hhi]
      · rename_i hhi
        simp [hhi, ih h.2]

end Ranges

/-- Ascending ranges of code points, both ends included. -/
structure Ranges where
  list : List (Nat × Nat)
  ascends : Ranges.ascend 0 list

namespace Ranges

def has (rs : Ranges) (n : Nat) : Bool :=
  lookup rs.list n

/-- The look-up finds exactly what lies in a range. -/
theorem has_eq_any (rs : Ranges) (n : Nat) :
    rs.has n = rs.list.any fun r => r.1 ≤ n && n ≤ r.2 :=
  lookup_eq_any rs.ascends n

end Ranges

end Whiteboard.Text
