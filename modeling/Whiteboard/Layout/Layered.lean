/-
Layered layout, for flowcharts.

The nodes of one rank form a row in diagram order; each row is centred on the widest one, and the
rows are stacked along the direction of the chart. A node is centred in the thickness of its row. In
a reversed direction the stack is turned over. The members of a subgraph are enclosed by a frame,
which moves nothing; if there are subgraphs, everything keeps a margin for their frames.
-/

import Whiteboard.Geometry.Route
import Whiteboard.Graph.Rank
import Whiteboard.Layout.Basic
import Whiteboard.Settings

namespace Whiteboard.Layered

variable {α : Type} [Scalar α]

/-- The extent of a box along its row. -/
def across (direction : Direction) (s : Size α) : α :=
  if direction.isHorizontal then s.height else s.width

/-- The extent of a box from row to row. -/
def along (direction : Direction) (s : Size α) : α :=
  if direction.isHorizontal then s.width else s.height

/-- A node with its rank and the size of its box. -/
structure Cell (α : Type) where
  id : String
  rank : Nat
  size : Size α
deriving DecidableEq, Repr

def cells (s : Settings α) (d : Diagram) : List (Cell α) :=
  let ranks := d.ranks
  d.nodes.map fun n =>
    { id := n.id, rank := (ranks.lookup n.id).getD 0, size := s.nodeSize n }

/-- A row of cells of one rank. -/
structure Row (α : Type) where
  rank : Nat
  /-- The extent of the row along itself, gaps included. -/
  breadth : α
  /-- The extent of its thickest cell. -/
  thickness : α
deriving DecidableEq, Repr

def row (s : Settings α) (direction : Direction) (cells : List (Cell α)) (rank : Nat) : Row α :=
  let sizes := (cells.filter (·.rank == rank)).map (·.size)
  { rank
    breadth :=
      Scalar.sum (sizes.map (across direction)) + s.nodeGap * Scalar.ofNat (sizes.length - 1)
    thickness := Scalar.greatest (sizes.map (along direction)) }

/-- The rows of all ranks that occur, in ascending order. No rank reaches the number of cells. -/
def rows (s : Settings α) (direction : Direction) (cells : List (Cell α)) : List (Row α) :=
  ((List.range cells.length).filter fun r => cells.any (·.rank == r)).map (row s direction cells)

/-- Rows on top of one another. -/
structure Stack (α : Type) where
  settings : Settings α
  direction : Direction
  cells : List (Cell α)
  rows : List (Row α)
  margin : α

namespace Stack

def ofDiagram (s : Settings α) (direction : Direction) (d : Diagram) : Stack α :=
  let cells := Layered.cells s d
  { settings := s
    direction
    cells
    rows := Layered.rows s direction cells
    margin := if d.subgraphs.isEmpty then 0 else s.framePadding + s.titleHeight }

def breadth (k : Stack α) : α :=
  Scalar.greatest (k.rows.map Row.breadth)

def thickness (k : Stack α) : α :=
  Scalar.sum (k.rows.map Row.thickness) +
    k.settings.rankGap * Scalar.ofNat (k.rows.length - 1)

def rowStart (k : Stack α) (rank : Nat) : α :=
  Scalar.offset k.settings.rankGap 0
    ((k.rows.filter (·.rank < rank)).map Row.thickness)

/-- Where a cell begins along the direction of the stack. -/
def alongStart (k : Stack α) (c : Cell α) : α :=
  let extent := along k.direction c.size
  let r := row k.settings k.direction k.cells c.rank
  let start := k.rowStart c.rank + (r.thickness - extent) / 2
  if k.direction.isReversed then k.thickness - start - extent else start

/-- Where a cell begins along its row, behind the `earlier` cells of the row. -/
def acrossStart (k : Stack α) (earlier : List (Cell α)) (c : Cell α) : α :=
  let r := row k.settings k.direction k.cells c.rank
  Scalar.offset k.settings.nodeGap ((k.breadth - r.breadth) / 2)
    (earlier.map fun e => across k.direction e.size)

/-- The box of a cell, behind the `earlier` cells of its row. -/
def rect (k : Stack α) (earlier : List (Cell α)) (c : Cell α) : Rect α :=
  let a := k.margin + k.alongStart c
  let b := k.margin + k.acrossStart earlier c
  if k.direction.isHorizontal then ⟨a, b, c.size.width, c.size.height⟩
  else ⟨b, a, c.size.width, c.size.height⟩

/-- The cell at a position of the diagram, placed in its row. -/
def place (k : Stack α) (c : Cell α) (position : Nat) : PlacedNode α :=
  let earlier := (k.cells.take position).filter (·.rank == c.rank)
  { id := c.id, rank := c.rank, order := earlier.length, rect := k.rect earlier c }

def nodes (k : Stack α) : List (PlacedNode α) :=
  k.cells.zipIdx.map fun (c, i) => k.place c i

end Stack

def cover? : List (Rect α) → Option (Rect α)
  | [] => none
  | r :: rs => some (rs.foldl Rect.union r)

/-- The box of a subgraph around its placed members, with padding and room for a title; no box at
all if none of them is placed. -/
def frameRect (s : Settings α) (nodes : List (PlacedNode α)) (members : List String) : Rect α :=
  match cover? (members.filterMap fun id => (Layout.find? nodes id).map (·.rect)) with
  | none => .zero
  | some r =>
    let pad := s.framePadding
    let top := pad + s.titleHeight
    ⟨r.x - pad, r.y - top, r.width + 2 * pad, r.height + top + pad⟩

def layout (s : Settings α) (direction : Direction) (d : Diagram) : Layout α :=
  let nodes := (Stack.ofDiagram s direction d).nodes
  { nodes
    edges := d.edges.map (Layout.route nodes Route.loop fun a b => Route.between a b 0)
    frames := d.subgraphs.map fun g =>
      { id := g.id, label := g.label, rect := frameRect s nodes g.members } }

end Whiteboard.Layered
