import Mathlib.Algebra.BigOperators.Group.List.Basic
import Mathlib.Algebra.Order.BigOperators.Group.List
import Mathlib.Algebra.Order.Field.Rat
import Mathlib.Tactic.Linarith
import Whiteboard.Scalar

/-!
Lengths as rational numbers.

Read with rational numbers, the operations on scalars obey the laws of arithmetic: the greatest of
some lengths bounds them all, and an offset is a sum.
-/

namespace Whiteboard.Scalar

theorem max_eq (a b : Rat) : Scalar.max a b = a ⊔ b := by
  unfold Scalar.max
  by_cases h : b < a
  · rw [if_pos h, max_eq_left h.le]
  · rw [if_neg h, if_pos (le_refl b), max_eq_right (not_lt.mp h)]

theorem min_eq (a b : Rat) : Scalar.min a b = a ⊓ b := by
  unfold Scalar.min
  by_cases h : a < b
  · rw [if_pos h, min_eq_left h.le]
  · rw [if_neg h, if_pos (le_refl b), min_eq_right (not_lt.mp h)]

theorem abs_eq (a : Rat) : Scalar.abs a = |a| := by
  unfold Scalar.abs
  by_cases h : a < 0
  · rw [if_pos h, abs_of_neg h]
  · rw [if_neg h, abs_of_nonneg (not_lt.mp h)]

/-- The greatest of some numbers is at least each of them. -/
theorem foldl_max_spec (xs : List Rat) (a : Rat) :
    a ≤ xs.foldl Scalar.max a ∧ ∀ x ∈ xs, x ≤ xs.foldl Scalar.max a := by
  induction xs generalizing a with
  | nil => exact ⟨le_refl a, fun x h => absurd h List.not_mem_nil⟩
  | cons y ys ih =>
      obtain ⟨hle, hmem⟩ := ih (Scalar.max a y)
      rw [max_eq] at hle
      constructor
      · exact le_trans le_sup_left (by rwa [List.foldl_cons, max_eq])
      · intro x hx
        rcases List.mem_cons.mp hx with rfl | hx
        · exact le_trans le_sup_right (by rwa [List.foldl_cons, max_eq])
        · exact hmem x hx

theorem greatest_nonneg (xs : List Rat) : 0 ≤ greatest xs :=
  (foldl_max_spec xs 0).1

theorem le_greatest {xs : List Rat} {x : Rat} (h : x ∈ xs) : x ≤ greatest xs :=
  (foldl_max_spec xs 0).2 x h

/-- The greatest of some lengths is one of them if none is negative. -/
theorem greatest_mem {xs : List Rat} (hne : xs ≠ []) (h : ∀ x ∈ xs, 0 ≤ x) : greatest xs ∈ xs := by
  have hfold : ∀ a, xs.foldl Scalar.max a = a ∨ xs.foldl Scalar.max a ∈ xs := by
    clear hne h
    induction xs with
    | nil => exact fun a => .inl rfl
    | cons x xs ih =>
        intro a
        rw [List.foldl_cons, max_eq]
        rcases ih (a ⊔ x) with heq | hmem
        · rw [heq]
          rcases max_choice a x with hmax | hmax <;> rw [hmax]
          · exact .inl rfl
          · exact .inr List.mem_cons_self
        · exact .inr (List.mem_cons_of_mem _ hmem)
  rcases hfold 0 with heq | hmem
  · obtain ⟨x, hx⟩ := List.exists_mem_of_ne_nil xs hne
    have hx₀ : x = 0 := le_antisymm (heq ▸ le_greatest hx) (h x hx)
    rw [greatest, heq]
    exact hx₀ ▸ hx
  · exact hmem

/-- Beginning with the first number makes no difference to an exact sum. -/
theorem sum_eq (xs : List Rat) : Scalar.sum xs = xs.sum := by
  cases xs with
  | nil => rfl
  | cons x xs =>
      rw [List.sum_eq_foldl, List.foldl_cons, zero_add]
      rfl

/-- Each piece moves what comes behind it by its length and the gap. -/
theorem offset_eq (gap start : Rat) (pieces : List Rat) :
    offset gap start pieces = start + (pieces.map (· + gap)).sum := by
  unfold offset
  induction pieces generalizing start with
  | nil => simp
  | cons piece pieces ih =>
      rw [List.foldl_cons, ih, List.map_cons, List.sum_cons]
      exact add_assoc start (piece + gap) _

/-- What comes behind some pieces begins no earlier than they do. -/
theorem le_offset {gap start : Rat} (hgap : 0 ≤ gap) {pieces : List Rat}
    (hpieces : ∀ x ∈ pieces, 0 ≤ x) : start ≤ offset gap start pieces := by
  rw [offset_eq]
  refine le_add_of_nonneg_right (List.sum_nonneg fun x hx => ?_)
  obtain ⟨piece, hpiece, rfl⟩ := List.mem_map.mp hx
  exact add_nonneg (hpieces piece hpiece) hgap

/-- Pieces laid one after the other can be laid in two parts. -/
theorem offset_append (gap start : Rat) (xs ys : List Rat) :
    offset gap start (xs ++ ys) = offset gap (offset gap start xs) ys :=
  List.foldl_append

/-- A piece ends one gap before anything that comes behind it begins. -/
theorem offset_add_le {gap start piece : Rat} (hgap : 0 ≤ gap) {before pieces : List Rat}
    (hbehind : before ++ [piece] <+: pieces) (hpieces : ∀ x ∈ pieces, 0 ≤ x) :
    offset gap start before + piece + gap ≤ offset gap start pieces := by
  obtain ⟨between, rfl⟩ := hbehind
  calc
    offset gap start before + piece + gap
        = offset gap start (before ++ [piece]) := by
          rw [offset_append, add_assoc]
          rfl
    _ ≤ offset gap (offset gap start (before ++ [piece])) between :=
          le_offset hgap fun x hx => hpieces x (List.mem_append_right _ hx)
    _ = offset gap start (before ++ [piece] ++ between) := (offset_append ..).symm

/-- A list filtered by a test, one element at a time. -/
theorem sum_filter_cons {β : Type} (f : β → Rat) (p : β → Bool) (x : β) (xs : List β) :
    (((x :: xs).filter p).map f).sum =
      (if p x then f x else 0) + ((xs.filter p).map f).sum := by
  cases h : p x with
  | false => rw [List.filter_cons_of_neg (by simp [h]), if_neg Bool.false_ne_true, zero_add]
  | true => rw [List.filter_cons_of_pos h, List.map_cons, List.sum_cons, if_pos rfl]

/-- Of lengths that are not negative, more of them reach at least as far. -/
theorem sum_filter_le {β : Type} {f : β → Rat} {p q : β → Bool} {xs : List β}
    (hf : ∀ x, 0 ≤ f x) (hpq : ∀ x, p x = true → q x = true) :
    ((xs.filter p).map f).sum ≤ ((xs.filter q).map f).sum := by
  induction xs with
  | nil => exact le_refl _
  | cons x xs ih =>
      rw [sum_filter_cons, sum_filter_cons]
      have hx := hf x
      by_cases hp : p x = true
      · rw [if_pos hp, if_pos (hpq x hp)]
        linarith
      · rw [if_neg hp]
        split <;> linarith

/-- A sum over more is greater by at least what one element adds that was not there before. -/
theorem sum_filter_add_le {β : Type} {f : β → Rat} {p q : β → Bool} {xs : List β}
    (hf : ∀ x, 0 ≤ f x) (hpq : ∀ x, p x = true → q x = true) {x : β} (hx : x ∈ xs)
    (hp : ¬ p x = true) (hq : q x = true) :
    ((xs.filter p).map f).sum + f x ≤ ((xs.filter q).map f).sum := by
  induction xs with
  | nil => cases hx
  | cons y ys ih =>
      rw [sum_filter_cons, sum_filter_cons]
      rcases List.mem_cons.mp hx with rfl | hx
      · rw [if_neg hp, if_pos hq]
        have hle : ((ys.filter p).map f).sum ≤ ((ys.filter q).map f).sum := sum_filter_le hf hpq
        linarith
      · have hle := ih hx
        have hy := hf y
        by_cases hpy : p y = true
        · rw [if_pos hpy, if_pos (hpq y hpy)]
          linarith
        · rw [if_neg hpy]
          split <;> linarith

end Whiteboard.Scalar
