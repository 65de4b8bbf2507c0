/-
The style of a node: an override for its id, else the category its shape stands for, else the one
its label tells.
-/

import Whiteboard.Diagram.Basic
import Whiteboard.Style.Keyword

namespace Whiteboard

/-- The category a shape stands for on its own. -/
def Category.ofShape? : Shape → Option Category
  | .cylinder => some .db
  | .hexagon => some .orchestrator
  | .rectangle | .stadium | .ellipse | .diamond => none

namespace Overrides

/-- The style of a node with the given id, label and shape. -/
def styleOf (m : Overrides) (id label : String) (shape : Shape) : Option Category :=
  (m.get? id).or ((Category.ofShape? shape).or (Category.ofLabel? label))

end Overrides

/-- The diagram with the style of every node and subgraph taken from its directive. A subgraph has a
style only by an override. -/
def Diagram.restyle (d : Diagram) : Diagram :=
  let m := d.directive.overrides
  { d with
    nodes := d.nodes.map fun n => { n with style := m.styleOf n.id n.label n.shape }
    subgraphs := d.subgraphs.map fun g => { g with style := m.get? g.id } }

end Whiteboard
