/-
Outlines: what a drawing comes to, with positions in the place of ids.

In an outline each element's id is its position, which is also its place from back to front: first
the frames of subgraphs with their titles, then the shapes of nodes, each with its label and, for an
entity with attributes, the line under its name, then lifelines, then arrows with their labels. What
is drawn for one thing of a diagram is a group, which is told the position it begins at. An outline
says what a builder draws; nothing is drawn with it.
-/

import Whiteboard.Scene.Reconcile
import Whiteboard.Scene.Stencil

namespace Whiteboard.Outline

variable {α : Type} [Scalar α]

/-- Elements drawn together, from the position they begin at. -/
abbrev Group (α : Type) := Nat → List (Element Nat α)

/-- The elements of some groups, one group behind the other from a position on. -/
def assemble (position : Nat) : List (Group α) → List (Element Nat α)
  | [] => []
  | g :: gs =>
    let es := g position
    es ++ assemble (position + es.length) gs

def frame (s : Settings α) (d : Diagram) (f : Frame α) : Group α := fun i =>
  if Stencil.isVisible f.rect then [Stencil.frame d f i, Stencil.title s f (i + 1)] else []

/-- The shape of a node with its label, and the line under an entity's name. -/
def node (s : Settings α) (d : Diagram) (p : PlacedNode α) : Group α := fun i =>
  match d.node? p.id with
  | none => []
  | some n =>
    [(Stencil.shape n p.rect i).holding (i + 1), Stencil.label s n p.rect i (i + 1)] ++
      if d.dialect == .entityRelation && n.isMultiline then
        [Stencil.separator s n p.rect (i + 2)]
      else []

def lifeline (l : Lifeline α) : Group α := fun i =>
  [Stencil.lifeline l i]

def shapeOf? (es : List (Element Nat α)) (id : String) : Option Nat :=
  (es.reverse.find? fun e => e.role == .shape && e.owner == some id).map (·.id)

/-- The arrow of an edge between two shapes with its label. -/
def connector (s : Settings α) (dialect : Dialect) (shapes : List (Element Nat α))
    (e : RoutedEdge α) : Group α := fun i =>
  if h : 2 ≤ e.points.length then
    match shapeOf? shapes e.edge.source, shapeOf? shapes e.edge.target with
    | some source, some target =>
      let arrow := Stencil.arrow s e (Stencil.origin e.points h) source target i
      match Stencil.labelOf? e.edge with
      | none => [arrow]
      | some label =>
        [arrow.holding (i + 1),
          Stencil.arrowLabel s dialect label (Stencil.anchor e.points h) i (i + 1)]
    | _, _ => []
  else []

/-- The elements of a diagram under a layout, from back to front, with all their references. -/
def draw (s : Settings α) (d : Diagram) (l : Layout α) : List (Element Nat α) :=
  let shapes := assemble 0 (l.frames.map (frame s d) ++ l.nodes.map (node s d))
  let rest := assemble shapes.length
    (l.lifelines.map lifeline ++ l.edges.map (connector s d.dialect shapes))
  Element.reconcile (shapes ++ rest)

end Whiteboard.Outline
