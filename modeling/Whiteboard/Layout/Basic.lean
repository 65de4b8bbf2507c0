/-
Layouts: where everything of a diagram is drawn.

A layout keeps the order of the diagram: its nodes and edges are those of the diagram, one by one,
the nodes with boxes and the edges with the points of their routes. An edge with an unknown end has
no route and is not drawn.
-/

import Whiteboard.Diagram.Basic
import Whiteboard.Geometry.Basic

namespace Whiteboard

structure PlacedNode (α : Type) where
  id : String
  /-- The rank in a flowchart, the row in an entity grid, zero on a timeline. -/
  rank : Nat
  /-- The position among the nodes of the same rank. -/
  order : Nat
  rect : Rect α
deriving DecidableEq, Repr

/-- An edge with the points of its route. -/
structure RoutedEdge (α : Type) where
  edge : Edge
  points : List (Point α)
deriving DecidableEq, Repr

/-- An edge is drawn if its route has a beginning and an end. -/
def RoutedEdge.isDrawable {α : Type} (e : RoutedEdge α) : Bool :=
  2 ≤ e.points.length

structure Frame (α : Type) where
  id : String
  label : String
  rect : Rect α
deriving DecidableEq, Repr

/-- The vertical line under a participant. -/
structure Lifeline (α : Type) where
  id : String
  x : α
  top : α
  bottom : α
deriving DecidableEq, Repr

/-- Where everything of a diagram is drawn. -/
structure Layout (α : Type) where
  nodes : List (PlacedNode α)
  edges : List (RoutedEdge α)
  frames : List (Frame α) := []
  lifelines : List (Lifeline α) := []
deriving DecidableEq, Repr

namespace Layout

variable {α : Type}

def find? (nodes : List (PlacedNode α)) (id : String) : Option (PlacedNode α) :=
  nodes.find? (·.id == id)

/-- The edge with its route: one for an edge from a node to itself, one for an edge between two
nodes, and none if an end is unknown. -/
def route (nodes : List (PlacedNode α)) (loop : Rect α → List (Point α))
    (between : Rect α → Rect α → List (Point α)) (e : Edge) : RoutedEdge α where
  edge := e
  points :=
    match find? nodes e.source, find? nodes e.target with
    | some a, some b => if e.isSelfLoop then loop a.rect else between a.rect b.rect
    | _, _ => []

variable [Scalar α]

def boxes (l : Layout α) : List (Rect α) :=
  l.nodes.map (·.rect) ++ l.frames.map (·.rect)

def width (l : Layout α) : α :=
  Scalar.greatest (l.boxes.map Rect.right)

def height (l : Layout α) : α :=
  Scalar.max (Scalar.greatest (l.boxes.map Rect.bottom))
    (Scalar.greatest (l.lifelines.map Lifeline.bottom))

end Layout

end Whiteboard
