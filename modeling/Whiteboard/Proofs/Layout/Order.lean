import Mathlib.Data.List.Basic
import Whiteboard.Layout.Arrange
import Whiteboard.Proofs.Diagram.Node

/-!
A layout keeps the order of its diagram.

Whatever the algorithm, the nodes and edges of a layout are those of the diagram, one by one and in
the same order, and the edges that can be drawn are exactly those with two known ends
(`follows_ofDiagram`). Only a sequence diagram has lifelines, one for each of its nodes. The box of
a node has the size of the node, except that participants are as high as the highest of them
(`sizes_ofDiagram`).
-/

namespace Whiteboard.Layout

variable {α : Type}

/-- The nodes, edges and lifelines of a layout are those of a diagram. -/
structure Follows (l : Layout α) (d : Diagram) : Prop where
  ids_nodes : l.nodes.map (·.id) = d.nodes.map (·.id)
  edge_edges : l.edges.map (·.edge) = d.edges
  isDrawable_eq : ∀ e ∈ l.edges,
    e.isDrawable = (d.hasNode e.edge.source && d.hasNode e.edge.target)
  ids_lifelines :
    l.lifelines.map (·.id) = if d.dialect = .sequence then d.nodes.map (·.id) else []

/-- The edges of a layout that can be drawn are the resolved edges of the diagram. -/
theorem Follows.drawable_edges {l : Layout α} {d : Diagram} (h : Follows l d) :
    (l.edges.filter (·.isDrawable)).map (·.edge) = d.resolvedEdges := by
  have hfilter : l.edges.filter (·.isDrawable) =
      l.edges.filter ((fun e => d.hasNode e.source && d.hasNode e.target) ∘ (·.edge)) :=
    List.filter_congr h.isDrawable_eq
  rw [hfilter, Diagram.resolvedEdges, ← h.edge_edges, List.filter_map]

/-- A box is found for exactly the ids of the diagram. -/
theorem isSome_find? {nodes : List (PlacedNode α)} {d : Diagram}
    (h : nodes.map (·.id) = d.nodes.map (·.id)) (id : String) :
    (find? nodes id).isSome = d.hasNode id := by
  have hany : nodes.any (·.id == id) = (d.nodes.map (·.id)).any (· == id) := by
    rw [← h, List.any_map]
    rfl
  rw [List.any_map] at hany
  rw [find?, List.isSome_find?, hany]
  rfl

/-- Every node has a box. -/
theorem Follows.exists_box {l : Layout α} {d : Diagram} (follows : l.Follows d) {id : String}
    (h : d.hasNode id = true) : ∃ p ∈ l.nodes, p.id = id := by
  obtain ⟨n, hn, hid⟩ := Diagram.hasNode_iff.mp h
  have hmem : id ∈ l.nodes.map (·.id) := by
    rw [follows.ids_nodes]
    exact List.mem_map.mpr ⟨n, hn, hid⟩
  exact List.mem_map.mp hmem

@[simp] theorem edge_route (nodes : List (PlacedNode α)) (loop : Rect α → List (Point α))
    (between : Rect α → Rect α → List (Point α)) (e : Edge) :
    (route nodes loop between e).edge = e := rfl

/-- How many points a route has: none if an end is not found, and otherwise those of a loop or of a
line. -/
theorem length_route {nodes : List (PlacedNode α)} {loop : Rect α → List (Point α)}
    {between : Rect α → Rect α → List (Point α)} (hloop : ∀ r, (loop r).length = 4)
    (hbetween : ∀ a b, (between a b).length = 2) (e : Edge) :
    (route nodes loop between e).points.length =
      if (find? nodes e.source).isSome && (find? nodes e.target).isSome then
        if e.source = e.target then 4 else 2
      else 0 := by
  unfold route Edge.isSelfLoop
  cases find? nodes e.source with
  | none => rfl
  | some a =>
      cases find? nodes e.target with
      | none => rfl
      | some b =>
          simp only [Option.isSome_some, Bool.and_self, if_true, beq_iff_eq]
          split
          · exact hloop a.rect
          · exact hbetween a.rect b.rect

/-- An edge is drawable if both its ends are found. -/
theorem isDrawable_route {nodes : List (PlacedNode α)} {loop : Rect α → List (Point α)}
    {between : Rect α → Rect α → List (Point α)} (hloop : ∀ r, (loop r).length = 4)
    (hbetween : ∀ a b, (between a b).length = 2) (e : Edge) :
    (route nodes loop between e).isDrawable =
      ((find? nodes e.source).isSome && (find? nodes e.target).isSome) := by
  rw [RoutedEdge.isDrawable, length_route hloop hbetween]
  cases ((find? nodes e.source).isSome && (find? nodes e.target).isSome) with
  | false => rfl
  | true =>
      rw [if_pos rfl]
      split <;> rfl

theorem length_between [Scalar α] (a b : Rect α) (lateral : α) :
    (Route.between a b lateral).length = 2 := by
  unfold Route.between
  dsimp only
  split <;> rfl

/-- What does not depend on the positions is the same without them. -/
theorem map_zipIdx {β γ : Type} {f : β × Nat → γ} {g : β → γ} (h : ∀ x i, f (x, i) = g x)
    (xs : List β) (n : Nat) : (xs.zipIdx n).map f = xs.map g := by
  induction xs generalizing n with
  | nil => rfl
  | cons x xs ih => rw [List.zipIdx_cons, List.map_cons, List.map_cons, h, ih]

variable [Scalar α] (s : Settings α) (d : Diagram)

theorem zip_nodeSize :
    d.nodes.zip (d.nodes.map s.nodeSize) = d.nodes.map fun n => (n, s.nodeSize n) := by
  conv => lhs; arg 1; rw [← List.map_id d.nodes]
  exact List.zip_map'

theorem fst_zip_nodeSize : (d.nodes.zip (d.nodes.map s.nodeSize)).map Prod.fst = d.nodes :=
  List.map_fst_zip (by simp)

theorem ids_participants : (Timeline.participants s d).map (·.id) = d.nodes.map (·.id) := by
  conv => rhs; rw [← fst_zip_nodeSize s d, List.map_map]
  rw [Timeline.participants, List.map_map]
  exact map_zipIdx (fun _ _ => rfl) _ 0

theorem ids_entities : (Grid.entities s d).map (·.id) = d.nodes.map (·.id) := by
  conv => rhs; rw [← fst_zip_nodeSize s d, List.map_map]
  rw [Grid.entities, List.map_map]
  exact map_zipIdx (fun _ _ => rfl) _ 0

theorem ids_stack (direction : Direction) :
    (Layered.Stack.ofDiagram s direction d).nodes.map (·.id) = d.nodes.map (·.id) := by
  rw [Layered.Stack.nodes, List.map_map]
  calc
    _ = (Layered.cells s d).map (·.id) := map_zipIdx (fun _ _ => rfl) _ 0
    _ = d.nodes.map (·.id) := List.map_map

/-- The layout of a flowchart follows its diagram. -/
theorem follows_layered (direction : Direction) (h : d.dialect = .flowchart) :
    Follows (Layered.layout s direction d) d where
  ids_nodes := ids_stack s d direction
  edge_edges := by
    rw [Layered.layout, List.map_map]
    exact List.map_id _
  isDrawable_eq e he := by
    obtain ⟨e, -, rfl⟩ := List.mem_map.mp he
    rw [isDrawable_route (fun _ => rfl) (fun a b => length_between a b 0),
      isSome_find? (ids_stack s d direction), isSome_find? (ids_stack s d direction), edge_route]
  ids_lifelines := by
    rw [h]
    rfl

theorem follows_timeline (h : d.dialect = .sequence) : Follows (Timeline.layout s d) d where
  ids_nodes := ids_participants s d
  edge_edges := by
    rw [Timeline.layout, List.map_map]
    exact (map_zipIdx (fun _ _ => rfl) d.edges 0).trans (List.map_id _)
  isDrawable_eq e he := by
    obtain ⟨⟨e, i⟩, -, rfl⟩ := List.mem_map.mp he
    dsimp only
    rw [isDrawable_route (fun _ => rfl) (fun _ _ => rfl),
      isSome_find? (ids_participants s d), isSome_find? (ids_participants s d), edge_route]
  ids_lifelines := by
    rw [if_pos h, ← ids_participants s d, Timeline.layout, List.map_map]
    rfl

theorem follows_grid (h : d.dialect = .entityRelation) : Follows (Grid.layout s d) d where
  ids_nodes := ids_entities s d
  edge_edges := by
    rw [Grid.layout, List.map_map]
    exact (map_zipIdx (fun _ _ => rfl) d.edges 0).trans (List.map_id _)
  isDrawable_eq e he := by
    obtain ⟨⟨e, i⟩, -, rfl⟩ := List.mem_map.mp he
    dsimp only
    rw [isDrawable_route (fun _ => rfl) (fun a b => length_between a b _),
      isSome_find? (ids_entities s d), isSome_find? (ids_entities s d), edge_route]
  ids_lifelines := by
    rw [h]
    rfl

/-- Every layout keeps the order of its diagram. -/
theorem follows_ofDiagram : Follows (ofDiagram s d) d := by
  unfold ofDiagram
  cases h : d.dialect with
  | flowchart => exact follows_layered s d _ h
  | sequence => exact follows_timeline s d h
  | entityRelation => exact follows_grid s d h

/-! ### Sizes of boxes -/

/-- The size of the box of a node in a layout. -/
def boxSize (n : Node) : Size α :=
  match d.dialect with
  | .sequence => { s.nodeSize n with height := Timeline.header (d.nodes.map s.nodeSize) }
  | .flowchart | .entityRelation => s.nodeSize n

/-- Only participants have boxes of another size than they need. -/
theorem boxSize_eq {d : Diagram} (hd : d.dialect ≠ .sequence) (n : Node) :
    boxSize s d n = s.nodeSize n := by
  unfold boxSize
  cases h : d.dialect with
  | sequence => exact absurd h hd
  | flowchart => rfl
  | entityRelation => rfl

/-- Boxes in ranks are as large as their nodes. -/
theorem sizes_layered (direction : Direction) :
    (Layered.layout s direction d).nodes.map (fun p => (p.id, p.rect.width, p.rect.height)) =
      d.nodes.map fun n => (n.id, (s.nodeSize n).width, (s.nodeSize n).height) := by
  have hplace : ∀ c i, ((Layered.Stack.ofDiagram s direction d).place c i).rect.width =
      c.size.width ∧ ((Layered.Stack.ofDiagram s direction d).place c i).rect.height =
        c.size.height := by
    intro c i
    unfold Layered.Stack.place Layered.Stack.rect
    dsimp only
    split <;> exact ⟨rfl, rfl⟩
  calc
    _ = (Layered.cells s d).map fun c => (c.id, c.size.width, c.size.height) := by
      rw [Layered.layout, Layered.Stack.nodes, List.map_map]
      refine map_zipIdx (fun c i => ?_) _ 0
      rw [Function.comp_apply, (hplace c i).1, (hplace c i).2]
      rfl
    _ = _ := List.map_map

/-- Participants have boxes of one height. -/
theorem sizes_timeline :
    (Timeline.layout s d).nodes.map (fun p => (p.id, p.rect.width, p.rect.height)) =
      d.nodes.map fun n =>
        (n.id, (s.nodeSize n).width, Timeline.header (d.nodes.map s.nodeSize)) := by
  rw [Timeline.layout, Timeline.participants, zip_nodeSize, List.zipIdx_map, List.map_map,
    List.map_map]
  exact map_zipIdx (fun _ _ => rfl) _ 0

theorem sizes_grid :
    (Grid.layout s d).nodes.map (fun p => (p.id, p.rect.width, p.rect.height)) =
      d.nodes.map fun n => (n.id, (s.nodeSize n).width, (s.nodeSize n).height) := by
  rw [Grid.layout, Grid.entities, zip_nodeSize, List.zipIdx_map, List.map_map, List.map_map]
  exact map_zipIdx (fun _ _ => rfl) _ 0

/-- The boxes of a layout have the sizes that belong to their nodes. -/
theorem sizes_ofDiagram :
    (ofDiagram s d).nodes.map (fun p => (p.id, p.rect.width, p.rect.height)) =
      d.nodes.map fun n => (n.id, (boxSize s d n).width, (boxSize s d n).height) := by
  unfold ofDiagram boxSize
  cases d.dialect with
  | flowchart => exact sizes_layered s d _
  | sequence => exact sizes_timeline s d
  | entityRelation => exact sizes_grid s d

/-- The box of every node. -/
theorem exists_box_of_mem {n : Node} (hn : n ∈ d.nodes) :
    ∃ p ∈ (ofDiagram s d).nodes, p.id = n.id ∧ p.rect.width = (boxSize s d n).width ∧
      p.rect.height = (boxSize s d n).height := by
  have hmem : (n.id, (boxSize s d n).width, (boxSize s d n).height) ∈
      (ofDiagram s d).nodes.map fun p => (p.id, p.rect.width, p.rect.height) := by
    rw [sizes_ofDiagram]
    exact List.mem_map_of_mem hn
  obtain ⟨p, hp, heq⟩ := List.mem_map.mp hmem
  simp only [Prod.mk.injEq] at heq
  exact ⟨p, hp, heq⟩

/-- The node of every box. -/
theorem exists_node_of_mem {p : PlacedNode α} (hp : p ∈ (ofDiagram s d).nodes) :
    ∃ n ∈ d.nodes, n.id = p.id ∧ p.rect.width = (boxSize s d n).width ∧
      p.rect.height = (boxSize s d n).height := by
  have hmem : (p.id, p.rect.width, p.rect.height) ∈
      d.nodes.map fun n => (n.id, (boxSize s d n).width, (boxSize s d n).height) := by
    rw [← sizes_ofDiagram]
    exact List.mem_map_of_mem hp
  obtain ⟨n, hn, heq⟩ := List.mem_map.mp hmem
  simp only [Prod.mk.injEq] at heq
  exact ⟨n, hn, heq.1, heq.2.1.symm, heq.2.2.symm⟩

end Whiteboard.Layout
