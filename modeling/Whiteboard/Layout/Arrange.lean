/-
The layout of a diagram: layered for a flowchart, a timeline for a sequence diagram, and a grid for
an entity-relationship diagram.
-/

import Whiteboard.Layout.Grid
import Whiteboard.Layout.Layered
import Whiteboard.Layout.Timeline

namespace Whiteboard.Layout

variable {α : Type} [Scalar α]

/-- The layout of a diagram. A direction in the settings takes the place of a flowchart's own. -/
def ofDiagram (s : Settings α) (d : Diagram) : Layout α :=
  match d.dialect with
  | .flowchart => Layered.layout s (s.direction.getD d.direction) d
  | .sequence => Timeline.layout s d
  | .entityRelation => Grid.layout s d

end Whiteboard.Layout
