/-
Routes: the polylines that edges are drawn along.

A straight route joins the sides of two boxes that face each other along the axis on which their
centres are further apart, the vertical one if neither is; it may be shifted sideways. A loop leaves
and enters a box on its right side.
-/

import Whiteboard.Geometry.Basic

namespace Whiteboard.Route

variable {α : Type} [Scalar α]

/-- The straight route from one box to another, shifted sideways by `lateral`. -/
def between (a b : Rect α) (lateral : α) : List (Point α) :=
  let ca := a.center
  let cb := b.center
  let dx := cb.x - ca.x
  let dy := cb.y - ca.y
  if Scalar.abs dy < Scalar.abs dx then
    let (sx, ex) := if 0 ≤ dx then (a.right, b.x) else (a.x, b.right)
    [⟨sx, ca.y + lateral⟩, ⟨ex, cb.y + lateral⟩]
  else
    let (sy, ey) := if 0 ≤ dy then (a.bottom, b.y) else (a.y, b.bottom)
    [⟨ca.x + lateral, sy⟩, ⟨cb.x + lateral, ey⟩]

def loopReach : α := 30

def loop (r : Rect α) : List (Point α) :=
  let c := r.center
  let quarter := r.height / 4
  let out := r.right + loopReach
  [⟨r.right, c.y - quarter⟩, ⟨out, c.y - quarter⟩, ⟨out, c.y + quarter⟩, ⟨r.right, c.y + quarter⟩]

/-- The sideways shift of the edge at a position: none, back and forth by `offset`, in turn. -/
def lateral (position : Nat) (offset : α) : α :=
  match position % 3 with
  | 0 => 0
  | 1 => -offset
  | _ => offset

end Whiteboard.Route
