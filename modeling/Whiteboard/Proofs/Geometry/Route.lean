import Mathlib.Algebra.Order.Ring.Abs
import Whiteboard.Geometry.Route
import Whiteboard.Proofs.Exact

/-!
Where routes run.

A straight route begins on the border of one box and ends on that of the other (`Joins.onBorder`).
It keeps out of both boxes exactly if they are `Facing`, that is apart along the axis on which their
centres are further apart (`Joins.clear_iff_facing`): if they overlap there, the route begins by
running into the first box. A loop leaves its box to the right (`loop_leavesRight`).
-/

namespace Whiteboard

namespace Rect

/-- The point lies in the rectangle, and not on its border. -/
def Inside (r : Rect Rat) (p : Point Rat) : Prop :=
  r.x < p.x ∧ p.x < r.right ∧ r.y < p.y ∧ p.y < r.bottom

/-- The point lies in the rectangle or on its border. -/
def Covers (r : Rect Rat) (p : Point Rat) : Prop :=
  r.x ≤ p.x ∧ p.x ≤ r.right ∧ r.y ≤ p.y ∧ p.y ≤ r.bottom

/-- The point lies on one of the four sides of the rectangle. -/
def OnBorder (r : Rect Rat) (p : Point Rat) : Prop :=
  r.Covers p ∧ ¬ r.Inside p

/-- The rectangle is wide and high enough for a route that is shifted sideways by `lateral`. -/
structure Admits (r : Rect Rat) (lateral : Rat) : Prop where
  width : 2 * |lateral| < r.width
  height : 2 * |lateral| < r.height

/-! The parts of a rectangle, with the operations of the rational numbers. -/

theorem right_eq (r : Rect Rat) : r.right = r.x + r.width := rfl

theorem bottom_eq (r : Rect Rat) : r.bottom = r.y + r.height := rfl

theorem center_x (r : Rect Rat) : r.center.x = r.x + r.width / 2 := rfl

theorem center_y (r : Rect Rat) : r.center.y = r.y + r.height / 2 := rfl

end Rect

/-- The point lies on the straight line from `u` to `v`. -/
def OnSegment (u v p : Point Rat) : Prop :=
  ∃ t : Rat, 0 ≤ t ∧ t ≤ 1 ∧ p = ⟨u.x + t * (v.x - u.x), u.y + t * (v.y - u.y)⟩

/-- No point of the line from `u` to `v` lies inside the rectangle. -/
def Rect.Clear (r : Rect Rat) (u v : Point Rat) : Prop :=
  ∀ p, OnSegment u v p → ¬ r.Inside p

/-! ### Lines and intervals -/

section Interval

variable {lo hi u v t : Rat}

/-- A coordinate that is at least a bound at both ends of a line is so all along it. -/
theorem le_of_segment (hu : hi ≤ u) (hv : hi ≤ v) (h₀ : 0 ≤ t) (h₁ : t ≤ 1) :
    hi ≤ u + t * (v - u) := by
  have hu' : 0 ≤ (1 - t) * (u - hi) := mul_nonneg (by linarith) (by linarith)
  have hv' : 0 ≤ t * (v - hi) := mul_nonneg h₀ (by linarith)
  linarith

/-- A coordinate that is at most a bound at both ends of a line is so all along it. -/
theorem segment_le (hu : u ≤ lo) (hv : v ≤ lo) (h₀ : 0 ≤ t) (h₁ : t ≤ 1) :
    u + t * (v - u) ≤ lo := by
  have hu' : 0 ≤ (1 - t) * (lo - u) := mul_nonneg (by linarith) (by linarith)
  have hv' : 0 ≤ t * (lo - v) := mul_nonneg h₀ (by linarith)
  linarith

/-- A line from `u` towards `v` begins in an interval, or at an end of it on the way in. -/
inductive Enters (lo hi u v : Rat) : Prop where
  | within (hlo : lo < u) (hhi : u < hi)
  | fromLow (hlt : lo < hi) (hu : u = lo) (hv : u < v)
  | fromHigh (hlt : lo < hi) (hu : u = hi) (hv : v < u)

/-- However far the way is, a small part of it keeps below a bound. -/
theorem exists_part (d : Rat) {bound : Rat} (hbound : 0 < bound) :
    ∃ T : Rat, 0 < T ∧ ∀ t, 0 < t → t ≤ T → |t * d| < bound := by
  have hd : 0 < |d| + 1 := by linarith [abs_nonneg d]
  refine ⟨bound / (|d| + 1), div_pos hbound hd, fun t ht htT => ?_⟩
  calc
    |t * d| = t * |d| := by rw [abs_mul, abs_of_pos ht]
    _ < t * (|d| + 1) := mul_lt_mul_of_pos_left (by linarith) ht
    _ ≤ bound := (le_div_iff₀ hd).mp htT

/-- A line that enters an interval stays inside it for a while. -/
theorem Enters.exists_inside (h : Enters lo hi u v) :
    ∃ T : Rat, 0 < T ∧ ∀ t, 0 < t → t ≤ T → lo < u + t * (v - u) ∧ u + t * (v - u) < hi := by
  cases h with
  | within hlo hhi =>
      obtain ⟨T, hT, hpart⟩ := exists_part (v - u) (lt_min (sub_pos.mpr hlo) (sub_pos.mpr hhi))
      refine ⟨T, hT, fun t ht htT => ?_⟩
      obtain ⟨hleft, hright⟩ := lt_min_iff.mp (hpart t ht htT)
      have hlower := neg_abs_le (t * (v - u))
      have hupper := le_abs_self (t * (v - u))
      constructor <;> linarith
  | fromLow hlt hu hv =>
      obtain ⟨T, hT, hpart⟩ := exists_part (v - u) (sub_pos.mpr hlt)
      refine ⟨T, hT, fun t ht htT => ?_⟩
      have hstep : 0 < t * (v - u) := mul_pos ht (sub_pos.mpr hv)
      have hupper := (le_abs_self _).trans_lt (hpart t ht htT)
      constructor <;> linarith
  | fromHigh hlt hu hv =>
      obtain ⟨T, hT, hpart⟩ := exists_part (v - u) (sub_pos.mpr hlt)
      refine ⟨T, hT, fun t ht htT => ?_⟩
      have hstep : t * (v - u) < 0 := mul_neg_of_pos_of_neg ht (sub_neg.mpr hv)
      have hlower := (neg_abs_le _).trans_lt' (neg_lt_neg (hpart t ht htT))
      constructor <;> linarith

end Interval

namespace Rect

variable {r : Rect Rat} {u v : Point Rat}

/-- A line that enters a rectangle along both axes has a point inside it. -/
theorem not_clear_of_enters (hx : Enters r.x r.right u.x v.x)
    (hy : Enters r.y r.bottom u.y v.y) : ¬ r.Clear u v := by
  obtain ⟨Tx, hTx, hinX⟩ := hx.exists_inside
  obtain ⟨Ty, hTy, hinY⟩ := hy.exists_inside
  let t := min 1 (min Tx Ty)
  have ht : 0 < t := lt_min one_pos (lt_min hTx hTy)
  have htx : t ≤ Tx := (min_le_right _ _).trans (min_le_left _ _)
  have hty : t ≤ Ty := (min_le_right _ _).trans (min_le_right _ _)
  intro clear
  refine clear _ ⟨t, ht.le, min_le_left _ _, rfl⟩ ?_
  exact ⟨(hinX t ht htx).1, (hinX t ht htx).2, (hinY t ht hty).1, (hinY t ht hty).2⟩

/-- A line on the far side of a side of the rectangle keeps out of it. -/
theorem clear_of_right (hu : r.right ≤ u.x) (hv : r.right ≤ v.x) : r.Clear u v := by
  rintro p ⟨t, h₀, h₁, rfl⟩ ⟨-, hlt, -, -⟩
  exact absurd hlt (not_lt.mpr (le_of_segment hu hv h₀ h₁))

/-- A line to the left of a rectangle stays out of it. -/
theorem clear_of_left (hu : u.x ≤ r.x) (hv : v.x ≤ r.x) : r.Clear u v := by
  rintro p ⟨t, h₀, h₁, rfl⟩ ⟨hlt, -, -, -⟩
  exact absurd hlt (not_lt.mpr (segment_le hu hv h₀ h₁))

theorem clear_of_below (hu : r.bottom ≤ u.y) (hv : r.bottom ≤ v.y) : r.Clear u v := by
  rintro p ⟨t, h₀, h₁, rfl⟩ ⟨-, -, -, hlt⟩
  exact absurd hlt (not_lt.mpr (le_of_segment hu hv h₀ h₁))

theorem clear_of_above (hu : u.y ≤ r.y) (hv : v.y ≤ r.y) : r.Clear u v := by
  rintro p ⟨t, h₀, h₁, rfl⟩ ⟨-, -, hlt, -⟩
  exact absurd hlt (not_lt.mpr (segment_le hu hv h₀ h₁))

/-! ### Sides of a rectangle that admits a route -/

variable {lateral : Rat}

/-- A shifted route stays between the left and the right side. -/
theorem Admits.within_x (admits : r.Admits lateral) :
    r.x < r.center.x + lateral ∧ r.center.x + lateral < r.right := by
  have hwidth := admits.width
  rw [center_x, right_eq]
  constructor <;> linarith [neg_abs_le lateral, le_abs_self lateral]

/-- A shifted route stays between the upper and the lower side. -/
theorem Admits.within_y (admits : r.Admits lateral) :
    r.y < r.center.y + lateral ∧ r.center.y + lateral < r.bottom := by
  have hheight := admits.height
  rw [center_y, bottom_eq]
  constructor <;> linarith [neg_abs_le lateral, le_abs_self lateral]

theorem Admits.x_lt_right (admits : r.Admits lateral) : r.x < r.right :=
  admits.within_x.1.trans admits.within_x.2

theorem Admits.y_lt_bottom (admits : r.Admits lateral) : r.y < r.bottom :=
  admits.within_y.1.trans admits.within_y.2

theorem Admits.center_x_mem (admits : r.Admits lateral) :
    r.x < r.center.x ∧ r.center.x < r.right := by
  have hlt := admits.x_lt_right
  rw [right_eq] at hlt
  rw [center_x, right_eq]
  constructor <;> linarith

theorem Admits.center_y_mem (admits : r.Admits lateral) :
    r.y < r.center.y ∧ r.center.y < r.bottom := by
  have hlt := admits.y_lt_bottom
  rw [bottom_eq] at hlt
  rw [center_y, bottom_eq]
  constructor <;> linarith

/-- The middle of a side, shifted along it, lies on the border. -/
theorem Admits.onBorder_vertical (admits : r.Admits lateral) {x : Rat}
    (hx : x = r.x ∨ x = r.right) : r.OnBorder ⟨x, r.center.y + lateral⟩ := by
  have hlt := admits.x_lt_right
  obtain ⟨htop, hbottom⟩ := admits.within_y
  rcases hx with rfl | rfl
  · exact ⟨⟨le_refl _, hlt.le, htop.le, hbottom.le⟩, fun inside => lt_irrefl _ inside.1⟩
  · exact ⟨⟨hlt.le, le_refl _, htop.le, hbottom.le⟩, fun inside => lt_irrefl _ inside.2.1⟩

/-- A shifted end at the height of a horizontal side is on it. -/
theorem Admits.onBorder_horizontal (admits : r.Admits lateral) {y : Rat}
    (hy : y = r.y ∨ y = r.bottom) : r.OnBorder ⟨r.center.x + lateral, y⟩ := by
  have hlt := admits.y_lt_bottom
  obtain ⟨hleft, hright⟩ := admits.within_x
  rcases hy with rfl | rfl
  · exact ⟨⟨hleft.le, hright.le, le_refl _, hlt.le⟩, fun inside => lt_irrefl _ inside.2.2.1⟩
  · exact ⟨⟨hleft.le, hright.le, hlt.le, le_refl _⟩, fun inside => lt_irrefl _ inside.2.2.2⟩

/-! A line from a side keeps out of the rectangle exactly if it does not turn back behind it. -/

/-- A line that leaves on the right stays out exactly if it goes to the right. -/
theorem Admits.clear_from_right (admits : r.Admits lateral) :
    r.Clear ⟨r.right, r.center.y + lateral⟩ v ↔ r.right ≤ v.x := by
  constructor
  · intro clear
    by_contra hlt
    refine not_clear_of_enters ?_ ?_ clear
    · exact .fromHigh admits.x_lt_right rfl (not_le.mp hlt)
    · exact .within admits.within_y.1 admits.within_y.2
  · exact clear_of_right (le_refl _)

/-- A line that leaves on the left stays out exactly if it goes to the left. -/
theorem Admits.clear_from_left (admits : r.Admits lateral) :
    r.Clear ⟨r.x, r.center.y + lateral⟩ v ↔ v.x ≤ r.x := by
  constructor
  · intro clear
    by_contra hlt
    refine not_clear_of_enters ?_ ?_ clear
    · exact .fromLow admits.x_lt_right rfl (not_le.mp hlt)
    · exact .within admits.within_y.1 admits.within_y.2
  · exact clear_of_left (le_refl _)

/-- A line that leaves at the bottom stays out exactly if it goes downwards. -/
theorem Admits.clear_from_bottom (admits : r.Admits lateral) :
    r.Clear ⟨r.center.x + lateral, r.bottom⟩ v ↔ r.bottom ≤ v.y := by
  constructor
  · intro clear
    by_contra hlt
    refine not_clear_of_enters ?_ ?_ clear
    · exact .within admits.within_x.1 admits.within_x.2
    · exact .fromHigh admits.y_lt_bottom rfl (not_le.mp hlt)
  · exact clear_of_below (le_refl _)

/-- A line that leaves at the top stays out exactly if it goes upwards. -/
theorem Admits.clear_from_top (admits : r.Admits lateral) :
    r.Clear ⟨r.center.x + lateral, r.y⟩ v ↔ v.y ≤ r.y := by
  constructor
  · intro clear
    by_contra hlt
    refine not_clear_of_enters ?_ ?_ clear
    · exact .within admits.within_x.1 admits.within_x.2
    · exact .fromLow admits.y_lt_bottom rfl (not_le.mp hlt)
  · exact clear_of_above (le_refl _)

end Rect

namespace Route

/-! ### Straight routes -/

/-- The ends of a straight route, by the direction in which the second box lies. -/
inductive Joins (a b : Rect Rat) (lateral : Rat) : Point Rat → Point Rat → Prop where
  | rightward (h : |b.center.y - a.center.y| < b.center.x - a.center.x) :
      Joins a b lateral ⟨a.right, a.center.y + lateral⟩ ⟨b.x, b.center.y + lateral⟩
  | leftward (h : |b.center.y - a.center.y| < a.center.x - b.center.x) :
      Joins a b lateral ⟨a.x, a.center.y + lateral⟩ ⟨b.right, b.center.y + lateral⟩
  | downward (h : |b.center.x - a.center.x| ≤ b.center.y - a.center.y) :
      Joins a b lateral ⟨a.center.x + lateral, a.bottom⟩ ⟨b.center.x + lateral, b.y⟩
  | upward (h : |b.center.x - a.center.x| ≤ a.center.y - b.center.y)
      (hlt : b.center.y < a.center.y) :
      Joins a b lateral ⟨a.center.x + lateral, a.y⟩ ⟨b.center.x + lateral, b.bottom⟩

/-- The ends of a straight route decide it. -/
theorem Joins.between_eq {a b : Rect Rat} {lateral : Rat} {u v : Point Rat}
    (joins : Joins a b lateral u v) : between a b lateral = [u, v] := by
  unfold between
  dsimp only
  rw [Scalar.abs_eq, Scalar.abs_eq]
  cases joins with
  | rightward h =>
      have hx : 0 < b.center.x - a.center.x := (abs_nonneg _).trans_lt h
      rw [abs_of_pos hx, if_pos h, if_pos hx.le]
  | leftward h =>
      have hx : b.center.x - a.center.x < 0 := by linarith [(abs_nonneg _).trans_lt h]
      rw [abs_of_neg hx, neg_sub, if_pos h, if_neg (not_le.mpr hx)]
  | downward h =>
      have hy : 0 ≤ b.center.y - a.center.y := (abs_nonneg _).trans h
      rw [abs_of_nonneg hy, if_neg (not_lt.mpr h), if_pos hy]
  | upward h hlt =>
      have hy : b.center.y - a.center.y < 0 := sub_neg.mpr hlt
      rw [abs_of_neg hy, neg_sub, if_neg (not_lt.mpr h), if_neg (not_le.mpr hy)]

/-- A straight route has two points, and where they lie is told by the direction of the second box.
-/
theorem between_joins (a b : Rect Rat) (lateral : Rat) :
    ∃ u v, between a b lateral = [u, v] ∧ Joins a b lateral u v := by
  obtain ⟨u, v, joins⟩ : ∃ u v, Joins a b lateral u v := by
    by_cases hlt : |b.center.y - a.center.y| < |b.center.x - a.center.x|
    · by_cases hx : 0 ≤ b.center.x - a.center.x
      · rw [abs_of_nonneg hx] at hlt
        exact ⟨_, _, .rightward hlt⟩
      · rw [abs_of_neg (not_le.mp hx), neg_sub] at hlt
        exact ⟨_, _, .leftward hlt⟩
    · have hle := not_lt.mp hlt
      by_cases hy : 0 ≤ b.center.y - a.center.y
      · rw [abs_of_nonneg hy] at hle
        exact ⟨_, _, .downward hle⟩
      · rw [abs_of_neg (not_le.mp hy), neg_sub] at hle
        exact ⟨_, _, .upward hle (by linarith)⟩
  exact ⟨u, v, joins.between_eq, joins⟩

/-- A route downwards leads down from one centre to another, if the centres differ: at one height
they would coincide, since they are no further apart along the other axis. -/
theorem center_y_lt {a b : Rect Rat} (hne : a.center ≠ b.center)
    (h : |b.center.x - a.center.x| ≤ b.center.y - a.center.y) : a.center.y < b.center.y := by
  refine lt_of_le_of_ne (sub_nonneg.mp ((abs_nonneg _).trans h)) fun hy => hne ?_
  rw [hy, sub_self] at h
  exact congrArg₂ Point.mk (sub_eq_zero.mp (abs_nonpos_iff.mp h)).symm hy

/-- Between boxes with different centres, the way back joins the same sides. -/
theorem Joins.swap {a b : Rect Rat} {lateral : Rat} {u v : Point Rat}
    (joins : Joins a b lateral u v) (hne : a.center ≠ b.center) : Joins b a lateral v u := by
  cases joins with
  | rightward h =>
      rw [abs_sub_comm] at h
      exact .leftward h
  | leftward h =>
      rw [abs_sub_comm] at h
      exact .rightward h
  | downward h =>
      have hlt := center_y_lt hne h
      rw [abs_sub_comm] at h
      exact .upward h hlt
  | upward h hlt =>
      rw [abs_sub_comm] at h
      exact .downward h

/-- The route back is the same line the other way round. -/
theorem between_swap {a b : Rect Rat} (hne : a.center ≠ b.center) (lateral : Rat) :
    between b a lateral = (between a b lateral).reverse := by
  obtain ⟨u, v, hbetween, joins⟩ := between_joins a b lateral
  rw [hbetween, (joins.swap hne).between_eq]
  rfl

/-- A straight route begins and ends on the borders of its boxes. -/
theorem Joins.onBorder {a b : Rect Rat} {lateral : Rat} {u v : Point Rat}
    (joins : Joins a b lateral u v) (ha : a.Admits lateral) (hb : b.Admits lateral) :
    a.OnBorder u ∧ b.OnBorder v := by
  cases joins with
  | rightward => exact ⟨ha.onBorder_vertical (.inr rfl), hb.onBorder_vertical (.inl rfl)⟩
  | leftward => exact ⟨ha.onBorder_vertical (.inl rfl), hb.onBorder_vertical (.inr rfl)⟩
  | downward => exact ⟨ha.onBorder_horizontal (.inr rfl), hb.onBorder_horizontal (.inl rfl)⟩
  | upward => exact ⟨ha.onBorder_horizontal (.inl rfl), hb.onBorder_horizontal (.inr rfl)⟩

/-- The two boxes are apart along the axis on which their centres are further apart. -/
def Facing (a b : Rect Rat) : Prop :=
  if |b.center.y - a.center.y| < |b.center.x - a.center.x| then a.right ≤ b.x ∨ b.right ≤ a.x
  else a.bottom ≤ b.y ∨ b.bottom ≤ a.y

/-- A straight route keeps out of the boxes it joins exactly if they face each other. -/
theorem Joins.clear_iff_facing {a b : Rect Rat} {lateral : Rat} {u v : Point Rat}
    (joins : Joins a b lateral u v) (ha : a.Admits lateral) (hb : b.Admits lateral) :
    a.Clear u v ∧ b.Clear u v ↔ Facing a b := by
  unfold Facing
  cases joins with
  | rightward h =>
      have hx : 0 < b.center.x - a.center.x := (abs_nonneg _).trans_lt h
      rw [abs_of_pos hx, if_pos h, ha.clear_from_right]
      constructor
      · exact fun ⟨hle, _⟩ => .inl hle
      · rintro (hle | hle)
        · exact ⟨hle, Rect.clear_of_left hle (le_refl _)⟩
        · linarith [ha.center_x_mem.1, hb.center_x_mem.2]
  | leftward h =>
      have hx : 0 < a.center.x - b.center.x := (abs_nonneg _).trans_lt h
      rw [abs_sub_comm b.center.x, abs_of_pos hx, if_pos h, ha.clear_from_left]
      constructor
      · exact fun ⟨hle, _⟩ => .inr hle
      · rintro (hle | hle)
        · linarith [ha.center_x_mem.2, hb.center_x_mem.1]
        · exact ⟨hle, Rect.clear_of_right hle (le_refl _)⟩
  | downward h =>
      have hy : 0 ≤ b.center.y - a.center.y := (abs_nonneg _).trans h
      rw [abs_of_nonneg hy, if_neg (not_lt.mpr h), ha.clear_from_bottom]
      constructor
      · exact fun ⟨hle, _⟩ => .inl hle
      · rintro (hle | hle)
        · exact ⟨hle, Rect.clear_of_above hle (le_refl _)⟩
        · linarith [ha.center_y_mem.1, hb.center_y_mem.2]
  | upward h hlt =>
      rw [abs_sub_comm b.center.y, abs_of_pos (sub_pos.mpr hlt), if_neg (not_lt.mpr h),
        ha.clear_from_top]
      constructor
      · exact fun ⟨hle, _⟩ => .inr hle
      · rintro (hle | hle)
        · linarith [ha.center_y_mem.2, hb.center_y_mem.1]
        · exact ⟨hle, Rect.clear_of_below hle (le_refl _)⟩

/-! ### Loops -/

/-- A polyline of four points that leaves a rectangle on its right side, stays out of it, and comes
back to the same side at another height. -/
def LeavesRight (r : Rect Rat) (points : List (Point Rat)) : Prop :=
  ∃ p q q' p', points = [p, q, q', p'] ∧ p.x = r.right ∧ p'.x = r.right ∧ p.y ≠ p'.y ∧
    r.OnBorder p ∧ r.OnBorder p' ∧ ¬ r.Covers q ∧ ¬ r.Covers q'

theorem loop_eq (r : Rect Rat) :
    loop r =
      [⟨r.right, r.center.y - r.height / 4⟩, ⟨r.right + 30, r.center.y - r.height / 4⟩,
        ⟨r.right + 30, r.center.y + r.height / 4⟩, ⟨r.right, r.center.y + r.height / 4⟩] := rfl

/-- A loop leaves its box on the right and comes back there. -/
theorem loop_leavesRight {r : Rect Rat} {lateral : Rat} (admits : r.Admits lateral) :
    LeavesRight r (loop r) := by
  have hheight : 0 < r.height := by linarith [admits.height, abs_nonneg lateral]
  have hx := admits.x_lt_right
  have hquarter : ∀ y, y = r.center.y - r.height / 4 ∨ y = r.center.y + r.height / 4 →
      r.OnBorder ⟨r.right, y⟩ := by
    intro y hy
    have hy' : r.y ≤ y ∧ y ≤ r.bottom := by
      rw [Rect.center_y] at hy
      rw [Rect.bottom_eq]
      rcases hy with rfl | rfl <;> constructor <;> linarith
    exact ⟨⟨hx.le, le_refl _, hy'.1, hy'.2⟩, fun inside => lt_irrefl _ inside.2.1⟩
  have hout : ∀ y, ¬ r.Covers ⟨r.right + 30, y⟩ := by
    rintro y ⟨-, hle, -, -⟩
    linarith
  refine ⟨_, _, _, _, loop_eq r, rfl, rfl, ?_, hquarter _ (.inl rfl), hquarter _ (.inr rfl),
    hout _, hout _⟩
  intro heq
  dsimp only at heq
  linarith

end Route

end Whiteboard
