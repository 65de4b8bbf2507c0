import Whiteboard.Layout.Layered
import Whiteboard.Proofs.Geometry.Route
import Whiteboard.Proofs.Settings

/-!
Rectangles around others.

The union of rectangles is the least rectangle that contains them all (`contains_cover?_iff`), and
a rectangle with padding around it is the least that `Encloses` it (`contains_padded_iff`). To
enclose a rectangle is the same as to contain it within the padding (`contains_inner_iff`).
-/

namespace Whiteboard

namespace Rect

/-- A rectangle contains another one if no side of that lies outside. -/
theorem contains_iff {r b : Rect Rat} :
    r.contains b = true ↔ r.x ≤ b.x ∧ r.y ≤ b.y ∧ b.right ≤ r.right ∧ b.bottom ≤ r.bottom := by
  unfold contains
  rw [Bool.and_eq_true, Bool.and_eq_true, Bool.and_eq_true]
  simp only [decide_eq_true_eq, and_assoc]

theorem contains_self (r : Rect Rat) : r.contains r = true :=
  contains_iff.mpr ⟨le_refl _, le_refl _, le_refl _, le_refl _⟩

theorem right_union (a b : Rect Rat) : (a.union b).right = a.right ⊔ b.right := by
  have hright : (a.union b).right =
      Scalar.min a.x b.x + (Scalar.max a.right b.right - Scalar.min a.x b.x) := rfl
  rw [hright, Scalar.max_eq]
  exact add_sub_cancel _ _

theorem bottom_union (a b : Rect Rat) : (a.union b).bottom = a.bottom ⊔ b.bottom := by
  have hbottom : (a.union b).bottom =
      Scalar.min a.y b.y + (Scalar.max a.bottom b.bottom - Scalar.min a.y b.y) := rfl
  rw [hbottom, Scalar.max_eq]
  exact add_sub_cancel _ _

/-- A rectangle contains a union if it contains both its parts. -/
theorem contains_union_iff {r a b : Rect Rat} :
    r.contains (a.union b) = true ↔ r.contains a = true ∧ r.contains b = true := by
  have hx : (a.union b).x = a.x ⊓ b.x := Scalar.min_eq _ _
  have hy : (a.union b).y = a.y ⊓ b.y := Scalar.min_eq _ _
  rw [contains_iff, contains_iff, contains_iff, right_union, bottom_union, hx, hy, le_min_iff,
    le_min_iff, max_le_iff, max_le_iff]
  tauto

/-- A rectangle leaves the padding of a frame free around a box, and room for a title above it. -/
structure Encloses (s : Settings Rat) (r b : Rect Rat) : Prop where
  left : r.x + s.framePadding ≤ b.x
  right : b.right + s.framePadding ≤ r.right
  top : r.y + (s.framePadding + s.titleHeight) ≤ b.y
  bottom : b.bottom + s.framePadding ≤ r.bottom

/-- A rectangle with the padding of a frame around it and room for a title above it. -/
def padded (s : Settings Rat) (r : Rect Rat) : Rect Rat where
  x := r.x - s.framePadding
  y := r.y - (s.framePadding + s.titleHeight)
  width := r.width + 2 * s.framePadding
  height := r.height + (s.framePadding + s.titleHeight) + s.framePadding

def inner (s : Settings Rat) (r : Rect Rat) : Rect Rat where
  x := r.x + s.framePadding
  y := r.y + (s.framePadding + s.titleHeight)
  width := r.width - 2 * s.framePadding
  height := r.height - (s.framePadding + s.titleHeight) - s.framePadding

variable {s : Settings Rat} {r b : Rect Rat}

theorem right_padded : (b.padded s).right = b.right + s.framePadding := by
  have hright : (b.padded s).right = b.x - s.framePadding + (b.width + 2 * s.framePadding) := rfl
  rw [hright, right_eq]
  linarith

theorem bottom_padded : (b.padded s).bottom = b.bottom + s.framePadding := by
  have hbottom : (b.padded s).bottom = b.y - (s.framePadding + s.titleHeight) +
      (b.height + (s.framePadding + s.titleHeight) + s.framePadding) := rfl
  rw [hbottom, bottom_eq]
  linarith

theorem right_inner : (r.inner s).right = r.right - s.framePadding := by
  have hright : (r.inner s).right = r.x + s.framePadding + (r.width - 2 * s.framePadding) := rfl
  rw [hright, right_eq]
  linarith

theorem bottom_inner : (r.inner s).bottom = r.bottom - s.framePadding := by
  have hbottom : (r.inner s).bottom = r.y + (s.framePadding + s.titleHeight) +
      (r.height - (s.framePadding + s.titleHeight) - s.framePadding) := rfl
  rw [hbottom, bottom_eq]
  linarith

/-- A rectangle contains a padded one if it leaves the padding free. -/
theorem contains_padded_iff : r.contains (b.padded s) = true ↔ r.Encloses s b := by
  rw [contains_iff, right_padded, bottom_padded]
  constructor
  · rintro ⟨hx, hy, hright, hbottom⟩
    exact ⟨le_sub_iff_add_le.mp hx, hright, le_sub_iff_add_le.mp hy, hbottom⟩
  · rintro ⟨hleft, hright, htop, hbottom⟩
    exact ⟨le_sub_iff_add_le.mpr hleft, le_sub_iff_add_le.mpr htop, hright, hbottom⟩

/-- A rectangle encloses a box if what its padding leaves contains the box. -/
theorem contains_inner_iff : (r.inner s).contains b = true ↔ r.Encloses s b := by
  rw [contains_iff, right_inner, bottom_inner]
  constructor
  · rintro ⟨hleft, htop, hright, hbottom⟩
    exact ⟨hleft, le_sub_iff_add_le.mp hright, htop, le_sub_iff_add_le.mp hbottom⟩
  · rintro ⟨hleft, hright, htop, hbottom⟩
    exact ⟨hleft, htop, le_sub_iff_add_le.mpr hright, le_sub_iff_add_le.mpr hbottom⟩

/-! ### Rectangles at the origin -/

/-- The rectangle from the origin to a corner on the right and at the bottom. -/
def upTo (right bottom : Rat) : Rect Rat :=
  ⟨0, 0, right, bottom⟩

theorem right_upTo (x y : Rat) : (upTo x y).right = x :=
  zero_add x

theorem bottom_upTo (x y : Rat) : (upTo x y).bottom = y :=
  zero_add y

/-- A rectangle lies in the plane up to a corner. -/
theorem contains_upTo_iff {x y : Rat} :
    (upTo x y).contains r = true ↔ 0 ≤ r.x ∧ 0 ≤ r.y ∧ r.right ≤ x ∧ r.bottom ≤ y := by
  rw [contains_iff, right_upTo, bottom_upTo]
  rfl

/-- A rectangle at the origin encloses a box that leaves the room for a frame, if it does so at the
other two sides. -/
theorem encloses_upTo {x y : Rat} (hx : s.framePadding ≤ b.x)
    (hy : s.framePadding + s.titleHeight ≤ b.y) (hright : b.right + s.framePadding ≤ x)
    (hbottom : b.bottom + s.framePadding ≤ y) : (upTo x y).Encloses s b where
  left := (zero_add s.framePadding).trans_le hx
  right := (right_upTo x y).symm ▸ hright
  top := (zero_add (s.framePadding + s.titleHeight)).trans_le hy
  bottom := (bottom_upTo x y).symm ▸ hbottom

end Rect

namespace Layered

/-- A rectangle contains the cover of some others if it contains each of them. -/
theorem contains_cover?_iff {rs : List (Rect Rat)} {cover : Rect Rat} (h : cover? rs = some cover)
    {r : Rect Rat} : r.contains cover = true ↔ ∀ b ∈ rs, r.contains b = true := by
  have hfold : ∀ (bs : List (Rect Rat)) (a : Rect Rat),
      r.contains (bs.foldl Rect.union a) = true ↔
        r.contains a = true ∧ ∀ b ∈ bs, r.contains b = true := by
    intro bs
    induction bs with
    | nil => simp
    | cons b bs ih =>
        intro a
        rw [List.foldl_cons, ih, Rect.contains_union_iff, List.forall_mem_cons, and_assoc]
  cases rs with
  | nil => cases h
  | cons a bs =>
      cases h
      rw [hfold, List.forall_mem_cons]

end Layered

end Whiteboard
