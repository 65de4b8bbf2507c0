import Whiteboard.Layout.Arrange
import Whiteboard.Proofs.Diagram.Unstyled

/-!
What a layout goes by.

The size of a node is that of its label and shape, its rank comes from ids and edges, and a frame
encloses the members of a subgraph; so a diagram without its presentation is laid out in the same
way (`ofDiagram_unstyled`).
-/

namespace Whiteboard

variable {α : Type} [Scalar α] (s : Settings α) (d : Diagram)

/-- The size of a box does not depend on styles. -/
theorem Settings.nodeSize_unstyled : s.nodeSize ∘ Node.unstyled = s.nodeSize := rfl

theorem Layered.cells_unstyled : cells s d.unstyled = cells s d := by
  simp only [cells, d.ranks_unstyled, d.nodes_unstyled, List.map_map]
  rfl

theorem Layered.stack_unstyled (direction : Direction) :
    Stack.ofDiagram s direction d.unstyled = Stack.ofDiagram s direction d := by
  simp only [Stack.ofDiagram, cells_unstyled, d.subgraphs_unstyled, List.isEmpty_map]

theorem Layered.layout_unstyled (direction : Direction) :
    layout s direction d.unstyled = layout s direction d := by
  simp only [layout, stack_unstyled, d.subgraphs_unstyled, d.edges_unstyled, List.map_map]
  rfl

theorem Timeline.participants_unstyled : participants s d.unstyled = participants s d := by
  simp only [participants, d.nodes_unstyled, List.map_map, s.nodeSize_unstyled, List.zip_map_left,
    List.zipIdx_map]
  rfl

theorem Timeline.layout_unstyled : layout s d.unstyled = layout s d := by
  simp only [layout, participants_unstyled, d.nodes_unstyled, d.edges_unstyled, List.map_map,
    s.nodeSize_unstyled]

theorem Grid.entities_unstyled : entities s d.unstyled = entities s d := by
  simp only [entities, d.nodes_unstyled, List.length_map, List.map_map, s.nodeSize_unstyled,
    List.zip_map_left, List.zipIdx_map]
  rfl

theorem Grid.layout_unstyled : layout s d.unstyled = layout s d := by
  simp only [layout, entities_unstyled, d.edges_unstyled]

/-- The layout of a diagram does not depend on its presentation. -/
theorem Layout.ofDiagram_unstyled : ofDiagram s d.unstyled = ofDiagram s d := by
  unfold ofDiagram
  rw [d.dialect_unstyled]
  cases d.dialect with
  | flowchart => exact Layered.layout_unstyled s d _
  | sequence => exact Timeline.layout_unstyled s d
  | entityRelation => exact Grid.layout_unstyled s d

end Whiteboard
