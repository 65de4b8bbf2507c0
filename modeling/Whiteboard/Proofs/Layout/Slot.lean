import Whiteboard.Proofs.Checked.Draw
import Whiteboard.Proofs.Layout.Order

/-!
Every node has a slot of its own.

The rank and the order of a node say which place it takes in the scheme of its layout: in a row of
its rank, in a grid, or on a timeline. Which slot that is can be read off the diagram
(`slots_ofDiagram`), and no two nodes share one (`slots_nodup`). So nothing is lost where nodes are
sorted into the places of a scheme and collected from there (`layout_complete`).
-/

namespace Whiteboard

namespace Diagram

/-- The rank and the order of the node at a position of the diagram: in a flowchart its rank and how
many nodes of the same rank stand before it, in an entity grid its row and its column, and on a
timeline its position. -/
def slot {α : Type} (s : Settings α) (d : Diagram) (n : Node) (position : Nat) : Nat × Nat :=
  match d.dialect with
  | .flowchart =>
    (d.rank n.id, (d.nodes.take position).countP fun m => d.rank m.id == d.rank n.id)
  | .sequence => (0, position)
  | .entityRelation =>
    let columns := Grid.columns d.nodes.length s.gridMaxColumns
    (position / columns, position % columns)

/-- How many points the route of an edge has: none if an end is unknown, four if it leads from a
node to itself, and two otherwise. -/
def routeLength (d : Diagram) (e : Edge) : Nat :=
  if d.hasNode e.source && d.hasNode e.target then if e.source = e.target then 4 else 2 else 0

variable {α : Type} (s : Settings α) (d : Diagram)

/-- Of two nodes of one rank, more stand before the later one. -/
theorem countP_take_lt {β : Type} {p : β → Bool} {xs : List β} {i j : Nat} (hi : i < xs.length)
    (hij : i < j) (hp : p xs[i] = true) : (xs.take i).countP p < (xs.take j).countP p := by
  have hstep : (xs.take (i + 1)).countP p = (xs.take i).countP p + 1 := by
    rw [List.take_succ_eq_append_getElem hi, List.countP_append, List.countP_singleton, if_pos hp]
  have hle : (xs.take (i + 1)).countP p ≤ (xs.take j).countP p :=
    (List.take_prefix_take_left hij).sublist.countP_le
  omega

/-- No two nodes share a slot. -/
theorem slots_nodup : (d.nodes.zipIdx.map fun (n, i) => d.slot s n i).Nodup := by
  rw [List.nodup_iff_pairwise_ne, List.pairwise_iff_getElem]
  intro i j hi hj hij heq
  simp only [List.getElem_map, List.getElem_zipIdx, Nat.zero_add] at heq
  simp only [List.length_map, List.length_zipIdx] at hi hj
  unfold slot at heq
  cases h : d.dialect with
  | flowchart =>
      simp only [h, Prod.mk.injEq] at heq
      obtain ⟨hrank, hcount⟩ := heq
      have hlt := countP_take_lt (p := fun m => d.rank m.id == d.rank d.nodes[i].id) hi hij
        (beq_self_eq_true _)
      rw [hcount, hrank] at hlt
      exact Nat.lt_irrefl _ hlt
  | sequence =>
      simp only [h, Prod.mk.injEq] at heq
      omega
  | entityRelation =>
      simp only [h, Prod.mk.injEq] at heq
      obtain ⟨hrow, hcolumn⟩ := heq
      have hsame : i = j := by
        rw [← Nat.div_add_mod i (Grid.columns d.nodes.length s.gridMaxColumns), hrow, hcolumn,
          Nat.div_add_mod]
      omega

end Diagram

namespace Layout

variable {α : Type} [Scalar α] (s : Settings α) (d : Diagram)

/-- In a flowchart every node has its slot. -/
theorem slots_layered (direction : Direction) (h : d.dialect = .flowchart) :
    (Layered.layout s direction d).nodes.map (fun p => (p.rank, p.order)) =
      d.nodes.zipIdx.map fun (n, i) => d.slot s n i := by
  have hnodes : (Layered.layout s direction d).nodes =
      (Layered.Stack.ofDiagram s direction d).nodes := rfl
  have hcells : (Layered.Stack.ofDiagram s direction d).cells =
      d.nodes.map fun n => { id := n.id, rank := d.rank n.id, size := s.nodeSize n } := rfl
  rw [hnodes, Layered.Stack.nodes, hcells, List.zipIdx_map, List.map_map, List.map_map]
  refine List.map_congr_left ?_
  rintro ⟨n, i⟩ -
  have horder : (((Layered.Stack.ofDiagram s direction d).cells.take i).filter
      (·.rank == d.rank n.id)).length =
        (d.nodes.take i).countP fun m => d.rank m.id == d.rank n.id := by
    rw [hcells, ← List.map_take, List.filter_map, List.length_map, List.countP_eq_length_filter]
    rfl
  unfold Diagram.slot
  rw [h]
  exact congrArg (Prod.mk (d.rank n.id)) horder

theorem slots_timeline (h : d.dialect = .sequence) :
    (Timeline.layout s d).nodes.map (fun p => (p.rank, p.order)) =
      d.nodes.zipIdx.map fun (n, i) => d.slot s n i := by
  have hnodes : (Timeline.layout s d).nodes = Timeline.participants s d := rfl
  rw [hnodes, Timeline.participants, zip_nodeSize, List.zipIdx_map, List.map_map, List.map_map]
  refine List.map_congr_left ?_
  rintro ⟨n, i⟩ -
  unfold Diagram.slot
  rw [h]
  rfl

theorem slots_grid (h : d.dialect = .entityRelation) :
    (Grid.layout s d).nodes.map (fun p => (p.rank, p.order)) =
      d.nodes.zipIdx.map fun (n, i) => d.slot s n i := by
  have hnodes : (Grid.layout s d).nodes = Grid.entities s d := rfl
  rw [hnodes, Grid.entities, zip_nodeSize, List.zipIdx_map, List.map_map, List.map_map]
  refine List.map_congr_left ?_
  rintro ⟨n, i⟩ -
  unfold Diagram.slot
  rw [h]
  rfl

/-- The slots of the nodes are those that the diagram gives to their positions. -/
theorem slots_ofDiagram :
    (ofDiagram s d).nodes.map (fun p => (p.rank, p.order)) =
      d.nodes.zipIdx.map fun (n, i) => d.slot s n i := by
  unfold ofDiagram
  cases h : d.dialect with
  | flowchart => exact slots_layered s d _ h
  | sequence => exact slots_timeline s d h
  | entityRelation => exact slots_grid s d h

/-! ### Routes -/

/-- How many points each edge has. -/
theorem length_points {r : RoutedEdge α} (hr : r ∈ (ofDiagram s d).edges) :
    r.points.length = d.routeLength r.edge := by
  have hids := (follows_ofDiagram s d).ids_nodes
  rw [Diagram.routeLength, ← isSome_find? hids, ← isSome_find? hids]
  unfold ofDiagram at hr ⊢
  cases h : d.dialect with
  | flowchart =>
      rw [h] at hr
      obtain ⟨e, -, rfl⟩ := List.mem_map.mp hr
      exact length_route (fun _ => rfl) (fun a b => length_between a b _) e
  | sequence =>
      rw [h] at hr
      obtain ⟨⟨e, i⟩, -, rfl⟩ := List.mem_map.mp hr
      exact length_route (fun _ => rfl) (fun _ _ => rfl) e
  | entityRelation =>
      rw [h] at hr
      obtain ⟨⟨e, i⟩, -, rfl⟩ := List.mem_map.mp hr
      exact length_route (fun _ => rfl) (fun a b => length_between a b _) e

/-- A layout has the nodes of its diagram in order, each with the slot of its position, and its
edges in order, unchanged and with routes of the right length. Sorting the nodes into their places
and collecting them from there finds every place filled. -/
theorem layout_complete :
    Checked.layout s d = pure (ofDiagram s d) ∧
      (ofDiagram s d).nodes.map (·.id) = d.nodes.map (·.id) ∧
      (ofDiagram s d).nodes.map (fun p => (p.rank, p.order)) =
        d.nodes.zipIdx.map (fun (n, i) => d.slot s n i) ∧
      ((ofDiagram s d).nodes.map fun p => (p.rank, p.order)).Nodup ∧
      (ofDiagram s d).edges.map (·.edge) = d.edges ∧
      ∀ r ∈ (ofDiagram s d).edges, r.points.length = d.routeLength r.edge := by
  have follows := follows_ofDiagram s d
  refine ⟨Checked.layout_eq s d, follows.ids_nodes, slots_ofDiagram s d, ?_, follows.edge_edges,
    fun r hr => length_points s d hr⟩
  rw [slots_ofDiagram]
  exact d.slots_nodup s

end Layout

end Whiteboard
