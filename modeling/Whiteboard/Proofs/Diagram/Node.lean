import Whiteboard.Diagram.Basic

/-!
Looking for the node of an id.
-/

namespace Whiteboard.Diagram

variable {d : Diagram} {id : String}

/-- An id has a node if some node bears it. -/
theorem hasNode_iff : d.hasNode id = true ↔ ∃ n ∈ d.nodes, n.id = id := by
  simp [hasNode]

theorem hasNode_of_mem {n : Node} (h : n ∈ d.nodes) : d.hasNode n.id = true :=
  hasNode_iff.mpr ⟨n, h, rfl⟩

theorem id_of_node? {n : Node} (h : d.node? id = some n) : n.id = id :=
  beq_iff_eq.mp (List.find?_some h :)

/-- A node is found for exactly the ids that name one. -/
theorem isSome_node? (d : Diagram) (id : String) : (d.node? id).isSome = d.hasNode id := by
  rw [Bool.eq_iff_iff, node?, List.find?_isSome, hasNode_iff]
  simp

/-- A node that is there is found. -/
theorem exists_node? (h : d.hasNode id = true) : ∃ n, d.node? id = some n := by
  rw [← isSome_node?] at h
  exact Option.isSome_iff_exists.mp h

/-- A resolved edge has a node at both its ends. -/
theorem hasNode_of_mem_resolvedEdges {e : Edge} (h : e ∈ d.resolvedEdges) :
    d.hasNode e.source = true ∧ d.hasNode e.target = true :=
  Bool.and_eq_true_iff.mp (List.mem_filter.mp h).2

end Whiteboard.Diagram
