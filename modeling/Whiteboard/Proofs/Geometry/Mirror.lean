import Whiteboard.Proofs.Geometry.Route

/-!
Mirror images.

Turned over along an axis, a stretch from zero to `total` has at each end what was at the other. A
straight route between two boxes is turned over with them (`between_mirror`), as long as their
centres differ: a route between boxes with one centre leads downwards, however they are turned.
-/

namespace Whiteboard

/-- One of the two axes of a drawing. -/
inductive Axis where
  | x | y
deriving DecidableEq, Repr

def Point.mirror (axis : Axis) (total : Rat) (p : Point Rat) : Point Rat :=
  match axis with
  | .x => { p with x := total - p.x }
  | .y => { p with y := total - p.y }

namespace Rect

/-- A rectangle turned over: it begins as far from zero as it ended before `total`. -/
def mirror (axis : Axis) (total : Rat) (r : Rect Rat) : Rect Rat :=
  match axis with
  | .x => { r with x := total - r.right }
  | .y => { r with y := total - r.bottom }

section Sides

variable (total : Rat) (r : Rect Rat)

theorem right_mirror_x : (r.mirror .x total).right = total - r.x := by
  have hright : (r.mirror .x total).right = total - (r.x + r.width) + r.width := rfl
  linarith

theorem bottom_mirror_y : (r.mirror .y total).bottom = total - r.y := by
  have hbottom : (r.mirror .y total).bottom = total - (r.y + r.height) + r.height := rfl
  linarith

/-- The centre of a rectangle is turned over with it. -/
theorem center_mirror (axis : Axis) :
    (r.mirror axis total).center = r.center.mirror axis total := by
  cases axis with
  | x =>
      have hx : total - (r.x + r.width) + r.width / 2 = total - (r.x + r.width / 2) := by linarith
      exact congrArg (Point.mk · _) hx
  | y =>
      have hy : total - (r.y + r.height) + r.height / 2 = total - (r.y + r.height / 2) := by
        linarith
      exact congrArg (Point.mk _) hy

end Sides

end Rect

namespace Route

section Joins

variable {a b : Rect Rat} {u v : Point Rat} (total : Rat)

/-- Turned over along the x axis, a route to the right leads to the left. -/
theorem Joins.mirror_x (joins : Joins a b 0 u v) :
    Joins (a.mirror .x total) (b.mirror .x total) 0 (u.mirror .x total) (v.mirror .x total) := by
  have hx : ∀ r : Rect Rat, (r.mirror .x total).center.x = total - r.center.x := fun r => by
    rw [Rect.center_mirror]
    rfl
  have hy : ∀ r : Rect Rat, (r.mirror .x total).center.y = r.center.y := fun r => by
    rw [Rect.center_mirror]
    rfl
  have hdx : (b.mirror .x total).center.x - (a.mirror .x total).center.x =
      a.center.x - b.center.x := by
    rw [hx, hx, sub_sub_sub_cancel_left]
  have hdy : (b.mirror .x total).center.y - (a.mirror .x total).center.y =
      b.center.y - a.center.y := by
    rw [hy, hy]
  cases joins with
  | rightward h =>
      have turned : Joins _ _ 0 _ _ := .leftward (a := a.mirror .x total)
        (b := b.mirror .x total) (by rw [hdy]; linarith)
      rw [Rect.right_mirror_x, hy, hy] at turned
      exact turned
  | leftward h =>
      have turned : Joins _ _ 0 _ _ := .rightward (a := a.mirror .x total)
        (b := b.mirror .x total) (by rw [hdx, hdy]; exact h)
      rw [Rect.right_mirror_x, hy, hy] at turned
      exact turned
  | downward h =>
      have turned : Joins _ _ 0 _ _ := .downward (a := a.mirror .x total)
        (b := b.mirror .x total) (by rw [hdx, hdy, abs_sub_comm]; exact h)
      rw [hx, hx, add_zero, add_zero] at turned
      rw [add_zero, add_zero]
      exact turned
  | upward h hlt =>
      have turned : Joins _ _ 0 _ _ := .upward (a := a.mirror .x total)
        (b := b.mirror .x total) (by rw [hdx, hy, hy, abs_sub_comm]; exact h)
        (by rw [hy, hy]; exact hlt)
      rw [hx, hx, add_zero, add_zero] at turned
      rw [add_zero, add_zero]
      exact turned

/-- Turned over along the y axis, a route downwards leads upwards, if the centres of its boxes
differ. -/
theorem Joins.mirror_y (joins : Joins a b 0 u v) (hne : a.center ≠ b.center) :
    Joins (a.mirror .y total) (b.mirror .y total) 0 (u.mirror .y total) (v.mirror .y total) := by
  have hx : ∀ r : Rect Rat, (r.mirror .y total).center.x = r.center.x := fun r => by
    rw [Rect.center_mirror]
    rfl
  have hy : ∀ r : Rect Rat, (r.mirror .y total).center.y = total - r.center.y := fun r => by
    rw [Rect.center_mirror]
    rfl
  have hdx : (b.mirror .y total).center.x - (a.mirror .y total).center.x =
      b.center.x - a.center.x := by
    rw [hx, hx]
  have hdy : (b.mirror .y total).center.y - (a.mirror .y total).center.y =
      a.center.y - b.center.y := by
    rw [hy, hy, sub_sub_sub_cancel_left]
  cases joins with
  | rightward h =>
      have turned : Joins _ _ 0 _ _ := .rightward (a := a.mirror .y total)
        (b := b.mirror .y total) (by rw [hdx, hdy, abs_sub_comm]; exact h)
      rw [hy, hy, add_zero, add_zero] at turned
      rw [add_zero, add_zero]
      exact turned
  | leftward h =>
      have turned : Joins _ _ 0 _ _ := .leftward (a := a.mirror .y total)
        (b := b.mirror .y total) (by rw [hdy, hx, hx, abs_sub_comm]; exact h)
      rw [hy, hy, add_zero, add_zero] at turned
      rw [add_zero, add_zero]
      exact turned
  | downward h =>
      -- with one centre the route would still lead downwards
      have hlt := center_y_lt hne h
      have turned : Joins _ _ 0 _ _ := .upward (a := a.mirror .y total)
        (b := b.mirror .y total) (by rw [hdx]; linarith) (by linarith)
      rw [Rect.bottom_mirror_y, hx, hx] at turned
      exact turned
  | upward h hlt =>
      have turned : Joins _ _ 0 _ _ := .downward (a := a.mirror .y total)
        (b := b.mirror .y total) (by rw [hdx, hdy]; exact h)
      rw [Rect.bottom_mirror_y, hx, hx] at turned
      exact turned

end Joins

/-- A straight route is turned over with its boxes, if these have different centres. -/
theorem between_mirror {a b : Rect Rat} (hne : a.center ≠ b.center) (axis : Axis) (total : Rat) :
    between (a.mirror axis total) (b.mirror axis total) 0 =
      (between a b 0).map (Point.mirror axis total) := by
  obtain ⟨u, v, hbetween, joins⟩ := between_joins a b 0
  cases axis with
  | x => exact hbetween ▸ (joins.mirror_x total).between_eq
  | y => exact hbetween ▸ (joins.mirror_y total hne).between_eq

end Route

end Whiteboard
