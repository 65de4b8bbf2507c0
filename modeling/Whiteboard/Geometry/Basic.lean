/-
Points, sizes and upright rectangles. The y axis points downwards.
-/

import Whiteboard.Scalar

namespace Whiteboard

structure Point (α : Type) where
  x : α
  y : α
deriving DecidableEq, Repr

structure Size (α : Type) where
  width : α
  height : α
deriving DecidableEq, Repr

/-- An upright rectangle, given by its corner at the top left. -/
structure Rect (α : Type) where
  x : α
  y : α
  width : α
  height : α
deriving DecidableEq, Repr

namespace Rect

variable {α : Type} [Scalar α]

def right (r : Rect α) : α :=
  r.x + r.width

def bottom (r : Rect α) : α :=
  r.y + r.height

def center (r : Rect α) : Point α :=
  ⟨r.x + r.width / 2, r.y + r.height / 2⟩

def zero : Rect α :=
  ⟨0, 0, 0, 0⟩

def union (r s : Rect α) : Rect α :=
  let x := Scalar.min r.x s.x
  let y := Scalar.min r.y s.y
  { x
    y
    width := Scalar.max r.right s.right - x
    height := Scalar.max r.bottom s.bottom - y }

def contains (r s : Rect α) : Bool :=
  r.x ≤ s.x && r.y ≤ s.y && s.right ≤ r.right && s.bottom ≤ r.bottom

def around (p : Point α) (s : Size α) : Rect α :=
  ⟨p.x - s.width / 2, p.y - s.height / 2, s.width, s.height⟩

end Rect

end Whiteboard
