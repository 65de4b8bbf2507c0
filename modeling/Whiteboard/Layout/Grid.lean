/-
Grid layout, for entity-relationship diagrams.

The entities fill a grid row by row. It has the least number of columns that makes it at least as
wide as high, but no more than allowed. A column is as wide as its widest entity, which the others
are centred on, and a row as high as its highest. Relationships are shifted sideways in turn, so
that up to three between the same two entities stay apart.
-/

import Whiteboard.Geometry.Route
import Whiteboard.Layout.Basic
import Whiteboard.Settings

namespace Whiteboard.Grid

/-- The least number from `c` on whose square is at least `n`. -/
def rootFrom (n c : Nat) : Nat :=
  if c * c < n then rootFrom n (c + 1) else c
termination_by n - c
decreasing_by
  have : c ≤ c * c := Nat.le_mul_self c
  omega

/-- The number of columns for `n` entities, of which there may be `most`. -/
def columns (n most : Nat) : Nat :=
  Nat.min (rootFrom n 1) (Nat.max most 1)

variable {α : Type} [Scalar α]

/-- The greatest width of the sizes at positions whose remainder by `columns` is `column`. -/
def columnWidth (columns : Nat) (sizes : List (Size α)) (column : Nat) : α :=
  Scalar.greatest ((sizes.zipIdx.filter fun (_, i) => i % columns == column).map (·.1.width))

/-- The greatest height of the sizes at positions whose quotient by `columns` is `row`. -/
def rowHeight (columns : Nat) (sizes : List (Size α)) (row : Nat) : α :=
  Scalar.greatest ((sizes.zipIdx.filter fun (_, i) => i / columns == row).map (·.1.height))

def columnX (s : Settings α) (columns : Nat) (sizes : List (Size α)) (column : Nat) : α :=
  Scalar.offset s.gridGap 0 ((List.range column).map (columnWidth columns sizes))

def rowY (s : Settings α) (columns : Nat) (sizes : List (Size α)) (row : Nat) : α :=
  Scalar.offset s.gridGap 0 ((List.range row).map (rowHeight columns sizes))

/-- The box of the entity of a size at a position. -/
def rect (s : Settings α) (columns : Nat) (sizes : List (Size α)) (size : Size α)
    (position : Nat) : Rect α :=
  let column := position % columns
  { x := columnX s columns sizes column + (columnWidth columns sizes column - size.width) / 2
    y := rowY s columns sizes (position / columns)
    width := size.width
    height := size.height }

def entities (s : Settings α) (d : Diagram) : List (PlacedNode α) :=
  let sizes := d.nodes.map s.nodeSize
  let columns := columns d.nodes.length s.gridMaxColumns
  (d.nodes.zip sizes).zipIdx.map fun ((n, size), i) =>
    { id := n.id
      rank := i / columns
      order := i % columns
      rect := rect s columns sizes size i }

def layout (s : Settings α) (d : Diagram) : Layout α :=
  let nodes := entities s d
  { nodes
    edges := d.edges.zipIdx.map fun (e, i) =>
      let lateral := Route.lateral i s.edgeOffset
      Layout.route nodes Route.loop (fun a b => Route.between a b lateral) e }

end Whiteboard.Grid
