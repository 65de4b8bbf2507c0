import Whiteboard.Graph.Rank
import Whiteboard.Style.Resolve

/-!
What a diagram says apart from its presentation.

`Diagram.unstyled` takes away all styles, the directive and the text that was read. What is left are
the language, the direction, the ids, labels and shapes of the nodes, the edges, and the ids, labels
and members of the subgraphs. Nothing else decides which node an id names and which rank it has.
-/

namespace Whiteboard

def Node.unstyled (n : Node) : Node :=
  { n with style := none }

def Subgraph.unstyled (g : Subgraph) : Subgraph :=
  { g with style := none }

namespace Diagram

/-- A diagram without styles, without its directive and without the text it was read from. -/
def unstyled (d : Diagram) : Diagram :=
  { d with
    nodes := d.nodes.map Node.unstyled
    subgraphs := d.subgraphs.map Subgraph.unstyled
    directive := {}
    text := "" }

section Fields

variable (d : Diagram)

@[simp] theorem dialect_unstyled : d.unstyled.dialect = d.dialect := rfl

@[simp] theorem direction_unstyled : d.unstyled.direction = d.direction := rfl

@[simp] theorem edges_unstyled : d.unstyled.edges = d.edges := rfl

theorem nodes_unstyled : d.unstyled.nodes = d.nodes.map Node.unstyled := rfl

theorem subgraphs_unstyled : d.unstyled.subgraphs = d.subgraphs.map Subgraph.unstyled := rfl

/-- Nodes are found without regard to styles. -/
theorem node?_unstyled (id : String) : d.unstyled.node? id = (d.node? id).map Node.unstyled := by
  rw [node?, nodes_unstyled, List.find?_map]
  rfl

theorem nodeIds_unstyled : d.unstyled.nodeIds = d.nodeIds := by
  rw [nodeIds, nodes_unstyled, List.foldl_map]
  rfl

/-- Resolving styles changes nothing but styles. -/
@[simp] theorem unstyled_restyle : d.restyle.unstyled = d.unstyled := by
  simp only [unstyled, restyle, List.map_map]
  rfl

end Fields

/-- An edge is an arc by its two ends alone. -/
theorem arc?_eq (d : Diagram) (e : Edge) :
    d.arc? e =
      if e.isSelfLoop then none
      else (d.vertex? e.source).bind fun u => (d.vertex? e.target).map fun v => (u, v) := by
  unfold arc?
  split
  · rfl
  · cases d.vertex? e.source <;> cases d.vertex? e.target <;> rfl

/-- The ranks go by the ids of the nodes and by the edges. -/
theorem ranks_congr {d d' : Diagram} (hids : d.nodeIds = d'.nodeIds) (hedges : d.edges = d'.edges) :
    d.ranks = d'.ranks := by
  unfold ranks graph
  rw [funext d.arc?_eq, funext d'.arc?_eq, hedges]
  unfold vertex?
  rw [hids]

/-- Ranks do not depend on styles. -/
theorem ranks_unstyled (d : Diagram) : d.unstyled.ranks = d.ranks :=
  ranks_congr d.nodeIds_unstyled d.edges_unstyled

end Diagram

end Whiteboard
