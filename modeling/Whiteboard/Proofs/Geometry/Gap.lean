import Mathlib.Tactic.Ring
import Whiteboard.Proofs.Geometry.Mirror

/-!
The gap between two boxes.

A straight route runs along the axis on which the centres of its boxes are further apart
(`mainAxis`). Where the boxes face each other it crosses the gap between them, from the side of the
one that is nearest to the other to the side of the other that is nearest to the one
(`Joins.crosses`). From its other end it is the same line (`between_reversible`): the way back
chooses the same axis, also where the centres are as far apart on both, and the same two sides.
-/

namespace Whiteboard

def Point.along (axis : Axis) (p : Point Rat) : Rat :=
  match axis with
  | .x => p.x
  | .y => p.y

/-- A line is the same from both its ends. -/
theorem OnSegment.symm {u v p : Point Rat} (h : OnSegment u v p) : OnSegment v u p := by
  obtain ⟨t, h₀, h₁, rfl⟩ := h
  refine ⟨1 - t, sub_nonneg.mpr h₁, sub_le_self 1 h₀, congrArg₂ Point.mk ?_ ?_⟩ <;> ring

namespace Rect

/-- A rectangle without negative extents. -/
structure Nonneg (r : Rect Rat) : Prop where
  width : 0 ≤ r.width
  height : 0 ≤ r.height

def low (axis : Axis) (r : Rect Rat) : Rat :=
  match axis with
  | .x => r.x
  | .y => r.y

def high (axis : Axis) (r : Rect Rat) : Rat :=
  match axis with
  | .x => r.right
  | .y => r.bottom

/-- The coordinate is that of one of the two sides that bound a rectangle on an axis. -/
def IsSide (axis : Axis) (r : Rect Rat) (side : Rat) : Prop :=
  side = r.low axis ∨ side = r.high axis

/-- The side of a rectangle that is nearest to another one: no place that the other takes up on the
axis is nearer to the opposite side. -/
structure IsNearSide (axis : Axis) (r other : Rect Rat) (side : Rat) : Prop where
  isSide : r.IsSide axis side
  nearest : ∀ place, other.low axis ≤ place → place ≤ other.high axis →
    ∀ opposite, r.IsSide axis opposite → |place - side| ≤ |place - opposite|

/-- The coordinate lies between two rectangles, beyond the end of the one and before the other
begins. -/
def InGap (axis : Axis) (a b : Rect Rat) (place : Rat) : Prop :=
  a.high axis ≤ place ∧ place ≤ b.low axis ∨ b.high axis ≤ place ∧ place ≤ a.low axis

variable {a b r : Rect Rat}

/-- The centre of a rectangle lies between its sides. -/
theorem Nonneg.center_mem (nonneg : r.Nonneg) (axis : Axis) :
    r.low axis ≤ r.center.along axis ∧ r.center.along axis ≤ r.high axis := by
  cases axis with
  | x =>
      have hwidth := nonneg.width
      change r.x ≤ r.center.x ∧ r.center.x ≤ r.right
      rw [center_x, right_eq]
      constructor <;> linarith
  | y =>
      have hheight := nonneg.height
      change r.y ≤ r.center.y ∧ r.center.y ≤ r.bottom
      rw [center_y, bottom_eq]
      constructor <;> linarith

theorem Nonneg.low_le_high (nonneg : r.Nonneg) (axis : Axis) : r.low axis ≤ r.high axis :=
  (nonneg.center_mem axis).1.trans (nonneg.center_mem axis).2

/-- Of two rectangles apart on an axis, the one whose centre comes first ends before the other
begins. -/
theorem Nonneg.high_le_low (ha : a.Nonneg) (hb : b.Nonneg) (axis : Axis)
    (apart : a.high axis ≤ b.low axis ∨ b.high axis ≤ a.low axis)
    (hlt : a.center.along axis < b.center.along axis) : a.high axis ≤ b.low axis := by
  rcases apart with hle | hle
  · exact hle
  · linarith [(ha.center_mem axis).1, (hb.center_mem axis).2]

/-- The near side towards a rectangle that lies further on is the one at the end. -/
theorem Nonneg.isNearSide_high (ha : a.Nonneg) {axis : Axis} (hle : a.high axis ≤ b.low axis) :
    a.IsNearSide axis b (a.high axis) where
  isSide := .inr rfl
  nearest := by
    rintro place hplace - opposite (rfl | rfl)
    · have hlow := ha.low_le_high axis
      rw [abs_of_nonneg (by linarith), abs_of_nonneg (by linarith)]
      linarith
    · exact le_refl _

/-- The near side towards a rectangle that comes before is the one at the beginning. -/
theorem Nonneg.isNearSide_low (hb : b.Nonneg) {axis : Axis} (hle : a.high axis ≤ b.low axis) :
    b.IsNearSide axis a (b.low axis) where
  isSide := .inl rfl
  nearest := by
    rintro place - hplace opposite (rfl | rfl)
    · exact le_refl _
    · have hhigh := hb.low_le_high axis
      rw [abs_of_nonpos (by linarith), abs_of_nonpos (by linarith)]
      linarith

end Rect

namespace Route

/-- The axis on which the centres of two boxes are further apart: the vertical one if neither is. -/
def mainAxis (a b : Rect Rat) : Axis :=
  if |b.center.y - a.center.y| < |b.center.x - a.center.x| then .x else .y

/-- A line leads on an axis from the near side of one box to the near side of another, through the
gap between them. -/
structure Crosses (axis : Axis) (a b : Rect Rat) (u v : Point Rat) : Prop where
  start : a.IsNearSide axis b (u.along axis)
  finish : b.IsNearSide axis a (v.along axis)
  inGap : ∀ p, OnSegment u v p → a.InGap axis b (p.along axis)

variable {a b : Rect Rat} {u v : Point Rat}

/-- A line that crosses a gap crosses it in the other direction as well. -/
theorem Crosses.symm {axis : Axis} (crosses : Crosses axis a b u v) : Crosses axis b a v u where
  start := crosses.finish
  finish := crosses.start
  inGap p hp := (crosses.inGap p hp.symm).symm

/-- A line from where one box ends to where another begins. -/
theorem crosses_of_le (ha : a.Nonneg) (hb : b.Nonneg) {axis : Axis}
    (hle : a.high axis ≤ b.low axis) (hu : u.along axis = a.high axis)
    (hv : v.along axis = b.low axis) : Crosses axis a b u v where
  start := hu ▸ ha.isNearSide_high hle
  finish := hv ▸ hb.isNearSide_low hle
  inGap := by
    rintro p ⟨t, h₀, h₁, rfl⟩
    have halong : Point.along axis ⟨u.x + t * (v.x - u.x), u.y + t * (v.y - u.y)⟩ =
        u.along axis + t * (v.along axis - u.along axis) := by
      cases axis <;> rfl
    rw [halong]
    refine .inl ⟨le_of_segment hu.ge ?_ h₀ h₁, segment_le ?_ hv.le h₀ h₁⟩
    · exact hle.trans hv.ge
    · exact hu.le.trans hle

/-- Boxes that face each other are apart on their main axis. -/
theorem Facing.apart (facing : Facing a b) :
    a.high (mainAxis a b) ≤ b.low (mainAxis a b) ∨
      b.high (mainAxis a b) ≤ a.low (mainAxis a b) := by
  unfold Facing at facing
  unfold mainAxis
  split at facing
  · rwa [if_pos ‹_›]
  · rwa [if_neg ‹_›]

/-- Between boxes that face each other, a straight route crosses the gap. -/
theorem Joins.crosses {lateral : Rat} (joins : Joins a b lateral u v) (ha : a.Nonneg)
    (hb : b.Nonneg) (hne : a.center ≠ b.center) (facing : Facing a b) :
    Crosses (mainAxis a b) a b u v := by
  have apart := facing.apart
  -- A route to the left or upwards is one to the right or downwards, seen from its other end.
  cases joins with
  | rightward h =>
      have haxis : mainAxis a b = .x := if_pos (h.trans_le (le_abs_self _))
      have hx : a.center.x < b.center.x := sub_pos.mp ((abs_nonneg _).trans_lt h)
      rw [haxis] at apart ⊢
      exact crosses_of_le ha hb (ha.high_le_low hb .x apart hx) rfl rfl
  | leftward h =>
      have haxis : mainAxis a b = .x :=
        if_pos (h.trans_le (abs_sub_comm a.center.x _ ▸ le_abs_self _))
      have hx : b.center.x < a.center.x := sub_pos.mp ((abs_nonneg _).trans_lt h)
      rw [haxis] at apart ⊢
      exact (crosses_of_le hb ha (hb.high_le_low ha .x apart.symm hx) rfl rfl).symm
  | downward h =>
      have haxis : mainAxis a b = .y := if_neg (not_lt.mpr (h.trans (le_abs_self _)))
      rw [haxis] at apart ⊢
      exact crosses_of_le ha hb (ha.high_le_low hb .y apart (center_y_lt hne h)) rfl rfl
  | upward h hlt =>
      have haxis : mainAxis a b = .y :=
        if_neg (not_lt.mpr (h.trans (abs_sub_comm a.center.y _ ▸ le_abs_self _)))
      rw [haxis] at apart ⊢
      exact (crosses_of_le hb ha (hb.high_le_low ha .y apart.symm hlt) rfl rfl).symm

/-- A straight route between boxes with different centres is the same line from either end. If the
boxes face each other, it crosses the gap between them on the axis on which their centres are
further apart. -/
theorem between_reversible (ha : a.Nonneg) (hb : b.Nonneg) (hne : a.center ≠ b.center)
    (lateral : Rat) :
    between b a lateral = (between a b lateral).reverse ∧
      (Facing a b → ∃ u v, between a b lateral = [u, v] ∧ Crosses (mainAxis a b) a b u v) := by
  refine ⟨between_swap hne lateral, fun facing => ?_⟩
  obtain ⟨u, v, hbetween, joins⟩ := between_joins a b lateral
  exact ⟨u, v, hbetween, joins.crosses ha hb hne facing⟩

/-- To the upper left of a box, as far away on both axes, stands one without any width. The route
leads upwards, and the way back downwards. -/
theorem diagonal_reversible :
    let a : Rect Rat := ⟨80, 80, 40, 40⟩
    let b : Rect Rat := ⟨20, 0, 0, 40⟩
    a.Nonneg ∧ b.Nonneg ∧ a.center ≠ b.center ∧ Facing a b ∧
      between b a 12 = [⟨32, 40⟩, ⟨112, 80⟩] ∧ Crosses .y a b ⟨112, 80⟩ ⟨32, 40⟩ := by
  intro a b
  have ha : a.Nonneg := ⟨by decide +kernel, by decide +kernel⟩
  have hb : b.Nonneg := ⟨by decide +kernel, by decide +kernel⟩
  have hne : a.center ≠ b.center := by decide +kernel
  have hfacing : Facing a b := by
    unfold Facing
    decide +kernel
  have hbetween : between a b 12 = [⟨112, 80⟩, ⟨32, 40⟩] := by decide +kernel
  have haxis : mainAxis a b = .y := by decide +kernel
  obtain ⟨hback, hcrosses⟩ := between_reversible ha hb hne 12
  rw [hbetween] at hback hcrosses
  obtain ⟨u, v, hends, crosses⟩ := hcrosses hfacing
  cases hends
  exact ⟨ha, hb, hne, hfacing, hback, haxis ▸ crosses⟩

end Route

end Whiteboard
