/-
Timeline layout, for sequence diagrams.

The participants stand in one row at the top, all as high as the highest. Below them each message
has a height of its own, one spacing under the message before it, and runs between the centres of
its two participants. A lifeline goes from under each participant to one spacing below the last
message.
-/

import Whiteboard.Layout.Basic
import Whiteboard.Settings

namespace Whiteboard.Timeline

variable {α : Type} [Scalar α]

/-- How far a message from a participant to itself reaches to the right. -/
def selfReach : α := 40

def header (sizes : List (Size α)) : α :=
  Scalar.greatest (sizes.map Size.height)

/-- The height at which the message at a position is drawn. -/
def messageY (s : Settings α) (header : α) (position : Nat) : α :=
  header + Scalar.ofNat (position + 1) * s.messageSpacing

def participants (s : Settings α) (d : Diagram) : List (PlacedNode α) :=
  let sizes := d.nodes.map s.nodeSize
  (d.nodes.zip sizes).zipIdx.map fun ((n, size), i) =>
    { id := n.id
      rank := 0
      order := i
      rect :=
        { x := Scalar.offset s.columnGap 0 ((sizes.take i).map Size.width)
          y := 0
          width := size.width
          height := header sizes } }

/-- The route of a message from a participant to itself: out, half a spacing down, and back. -/
def selfRoute (s : Settings α) (y : α) (r : Rect α) : List (Point α) :=
  let x := r.center.x
  let drop := s.messageSpacing / 2
  [⟨x, y⟩, ⟨x + selfReach, y⟩, ⟨x + selfReach, y + drop⟩, ⟨x, y + drop⟩]

def route (y : α) (a b : Rect α) : List (Point α) :=
  [⟨a.center.x, y⟩, ⟨b.center.x, y⟩]

def layout (s : Settings α) (d : Diagram) : Layout α :=
  let nodes := participants s d
  let y := messageY s (header (d.nodes.map s.nodeSize))
  { nodes
    edges := d.edges.zipIdx.map fun (e, i) => Layout.route nodes (selfRoute s (y i)) (route (y i)) e
    lifelines := nodes.map fun n =>
      { id := n.id, x := n.rect.center.x, top := n.rect.bottom, bottom := y d.edges.length } }

end Whiteboard.Timeline
