import Whiteboard.Proofs.Diagram.Records
import Whiteboard.Proofs.Geometry.Route
import Whiteboard.Proofs.Layout.Order
import Whiteboard.Proofs.Layout.Stack
import Whiteboard.Proofs.Settings

/-!
How the edges of flowcharts and entity grids are routed.

Every box has the size of a node, and no node is too small for the sideways shift of an edge
(`Roomy`), so that a route between two nodes `Joins` their boxes and a loop leaves its box
(`routed_of_mem`). Whether such a route keeps out of the two boxes depends on whether they face
each other (`straight_clear_iff_facing`), which they need not do: the children of a narrow node may
be so wide that they lie more beside it than below it, although they still overlap it from above
(`fan_obstructed`).
-/

namespace Whiteboard

/-! ### Sizes -/

namespace Settings

/-- The least box of a node admits an edge that is shifted sideways. -/
structure Roomy (s : Settings Rat) : Prop where
  width : 2 * |s.edgeOffset| < s.minNodeWidth
  height : 2 * |s.edgeOffset| < s.minNodeHeight

/-- The standard settings are roomy in every direction. -/
theorem roomy_standard (direction : Option Direction) :
    ({ standard with direction } : Settings Rat).Roomy where
  width := show 2 * |(12 : Rat)| < 120 by decide +kernel
  height := show 2 * |(12 : Rat)| < 60 by decide +kernel

/-- Every box is larger than twice the shift of an edge. -/
theorem Roomy.lt_nodeSize {s : Settings Rat} (roomy : s.Roomy) (n : Node) :
    2 * |s.edgeOffset| < (s.nodeSize n).width ∧ 2 * |s.edgeOffset| < (s.nodeSize n).height := by
  have hoffset : 0 ≤ 2 * |s.edgeOffset| := mul_nonneg (by norm_num) (abs_nonneg _)
  obtain ⟨hwidth, hheight⟩ :=
    le_nodeSize (hoffset.trans roomy.width.le) (hoffset.trans roomy.height.le) n
  exact ⟨roomy.width.trans_le hwidth, roomy.height.trans_le hheight⟩

end Settings

namespace Layout

/-- Every box of a flowchart or an entity grid has the size of a node. -/
theorem size_ofDiagram {α : Type} [Scalar α] {s : Settings α} {d : Diagram}
    (hd : d.dialect ≠ .sequence) {p : PlacedNode α} (hp : p ∈ (ofDiagram s d).nodes) :
    ∃ n ∈ d.nodes, p.rect.width = (s.nodeSize n).width ∧ p.rect.height = (s.nodeSize n).height := by
  obtain ⟨n, hn, -, hwidth, hheight⟩ := exists_node_of_mem s d hp
  rw [boxSize_eq s hd] at hwidth hheight
  exact ⟨n, hn, hwidth, hheight⟩

variable {s : Settings Rat} {d : Diagram}

/-- The boxes admit every edge that is shifted sideways. -/
theorem admits_of_mem (roomy : s.Roomy) (hd : d.dialect ≠ .sequence) {p : PlacedNode Rat}
    (hp : p ∈ (ofDiagram s d).nodes) {lateral : Rat} (hlateral : |lateral| ≤ |s.edgeOffset|) :
    p.rect.Admits lateral := by
  obtain ⟨n, -, hwidth, hheight⟩ := size_ofDiagram hd hp
  obtain ⟨hltW, hltH⟩ := roomy.lt_nodeSize n
  constructor
  · rw [hwidth]
    linarith
  · rw [hheight]
    linarith

/-! ### Routes -/

/-- The sideways shift of an edge is nothing or the offset, to one side or the other. -/
theorem abs_lateral_le (position : Nat) (offset : Rat) :
    |Route.lateral position offset| ≤ |offset| := by
  unfold Route.lateral
  split
  · exact (abs_zero (α := Rat)).le.trans (abs_nonneg offset)
  · exact (abs_neg offset).le
  · exact le_refl _

/-- An edge of a flowchart or an entity grid is routed between the boxes of its ends. -/
theorem route_of_mem (hd : d.dialect ≠ .sequence) {r : RoutedEdge Rat}
    (hr : r ∈ (ofDiagram s d).edges) :
    ∃ lateral, |lateral| ≤ |s.edgeOffset| ∧
      r = route (ofDiagram s d).nodes Route.loop (fun a b => Route.between a b lateral) r.edge := by
  unfold ofDiagram at hr ⊢
  cases h : d.dialect with
  | sequence => exact absurd h hd
  | flowchart =>
      rw [h] at hr
      obtain ⟨e, -, rfl⟩ := List.mem_map.mp hr
      exact ⟨0, abs_zero.le.trans (abs_nonneg _), rfl⟩
  | entityRelation =>
      rw [h] at hr
      obtain ⟨⟨e, i⟩, -, rfl⟩ := List.mem_map.mp hr
      exact ⟨Route.lateral i s.edgeOffset, abs_lateral_le i _, rfl⟩

/-- An edge that is drawn goes from the first box of its source to that of its target: straight, or
as a loop if both are the same. -/
theorem routed_of_mem (roomy : s.Roomy) (hd : d.dialect ≠ .sequence) {r : RoutedEdge Rat}
    (hr : r ∈ (ofDiagram s d).edges) (hdraw : r.isDrawable = true) :
    ∃ p q, find? (ofDiagram s d).nodes r.edge.source = some p ∧
      find? (ofDiagram s d).nodes r.edge.target = some q ∧
      (r.edge.source = r.edge.target → Route.LeavesRight p.rect r.points) ∧
      (r.edge.source ≠ r.edge.target →
        ∃ u v lateral, r.points = [u, v] ∧ p.rect.Admits lateral ∧ q.rect.Admits lateral ∧
          Route.Joins p.rect q.rect lateral u v) := by
  obtain ⟨lateral, hlateral, heq⟩ := route_of_mem hd hr
  have follows := follows_ofDiagram s d
  rw [follows.isDrawable_eq r hr, Bool.and_eq_true, ← isSome_find? follows.ids_nodes,
    ← isSome_find? follows.ids_nodes] at hdraw
  obtain ⟨p, hp⟩ := Option.isSome_iff_exists.mp hdraw.1
  obtain ⟨q, hq⟩ := Option.isSome_iff_exists.mp hdraw.2
  have admits : ∀ {id : String} {p : PlacedNode Rat},
      find? (ofDiagram s d).nodes id = some p → p.rect.Admits lateral := fun h =>
    admits_of_mem roomy hd (List.mem_of_find?_eq_some h) hlateral
  have hpoints : r.points =
      if r.edge.isSelfLoop then Route.loop p.rect else Route.between p.rect q.rect lateral := by
    conv => lhs; rw [heq, route, hp, hq]
  refine ⟨p, q, hp, hq, fun hself => ?_, fun hne => ?_⟩
  · rw [hpoints, Edge.isSelfLoop, if_pos (beq_iff_eq.mpr hself)]
    exact Route.loop_leavesRight (admits hp)
  · obtain ⟨u, v, hbetween, joins⟩ := Route.between_joins p.rect q.rect lateral
    refine ⟨u, v, lateral, ?_, admits hp, admits hq, joins⟩
    rw [hpoints, Edge.isSelfLoop, if_neg (by simpa using hne), hbetween]

/-- Where ids are distinct, a box is the one found for its id. -/
theorem find?_of_mem (hids : d.ids.Nodup) {p : PlacedNode Rat} (hp : p ∈ (ofDiagram s d).nodes) :
    find? (ofDiagram s d).nodes p.id = some p := by
  have hnodup : ((ofDiagram s d).nodes.map (·.id)).Nodup := by
    rw [(follows_ofDiagram s d).ids_nodes]
    exact hids
  exact Roster.find?_key_eq PlacedNode.id hnodup hp

/-- The edge between two different nodes is a straight line, which keeps out of their boxes exactly
if these face each other. -/
theorem straight_clear_iff_facing (direction : Option Direction) (d : Diagram)
    (hd : d.dialect ≠ .sequence) (hids : d.ids.Nodup) :
    let l := ofDiagram ({ Settings.standard with direction } : Settings Rat) d
    ∀ r ∈ l.edges, r.edge ∈ d.resolvedEdges → r.edge.source ≠ r.edge.target →
      (∃ p ∈ l.nodes, p.id = r.edge.source) ∧ (∃ q ∈ l.nodes, q.id = r.edge.target) ∧
        ∀ p ∈ l.nodes, p.id = r.edge.source → ∀ q ∈ l.nodes, q.id = r.edge.target →
          ∃ u v, r.points = [u, v] ∧
            (p.rect.Clear u v ∧ q.rect.Clear u v ↔ Route.Facing p.rect q.rect) := by
  intro l r hr hresolved hne
  have follows : l.Follows d := follows_ofDiagram _ d
  obtain ⟨hsource, htarget⟩ := Diagram.hasNode_of_mem_resolvedEdges hresolved
  refine ⟨follows.exists_box hsource, follows.exists_box htarget, ?_⟩
  intro p hp hpid q hq hqid
  have hdraw : r.isDrawable = true := by
    rw [follows.isDrawable_eq r hr, hsource, htarget, Bool.and_self]
  obtain ⟨p', q', hp', hq', -, hjoins⟩ :=
    routed_of_mem (Settings.roomy_standard direction) hd hr hdraw
  obtain rfl : p = p' := Option.some.inj ((find?_of_mem hids hp).symm.trans (hpid ▸ hp'))
  obtain rfl : q = q' := Option.some.inj ((find?_of_mem hids hq).symm.trans (hqid ▸ hq'))
  obtain ⟨u, v, lateral, hpoints, ha, hb, joins⟩ := hjoins hne
  exact ⟨u, v, hpoints, joins.clear_iff_facing ha hb⟩

def fan : Diagram where
  dialect := .flowchart
  nodes :=
    [.bare "A", { id := "B", label := "archive of all finished orders" },
      { id := "C", label := "archive of all returned orders" }]
  edges := [{ source := "A", target := "B" }, { source := "A", target := "C" }]

/-- Read from left to right, the line to the first child keeps out of both boxes. -/
theorem fan_clear_rightward :
    let l := ofDiagram ({ Settings.standard with direction := some .lr } : Settings Rat) fan
    let parent : Rect Rat := ⟨0, 60, 120, 60⟩
    let child : Rect Rat := ⟨220, 0, 310, 60⟩
    fan.ids.Nodup ∧ ⟨"A", 0, 0, parent⟩ ∈ l.nodes ∧ ⟨"B", 1, 0, child⟩ ∈ l.nodes ∧
      ⟨{ source := "A", target := "B" }, [⟨120, 90⟩, ⟨220, 30⟩]⟩ ∈ l.edges ∧
      parent.Clear ⟨120, 90⟩ ⟨220, 30⟩ ∧ child.Clear ⟨120, 90⟩ ⟨220, 30⟩ := by
  intro l parent child
  have hparent : (⟨"A", 0, 0, parent⟩ : PlacedNode Rat) ∈ l.nodes := by decide +kernel
  have hchild : (⟨"B", 1, 0, child⟩ : PlacedNode Rat) ∈ l.nodes := by decide +kernel
  have hroute : (⟨{ source := "A", target := "B" }, [⟨120, 90⟩, ⟨220, 30⟩]⟩ : RoutedEdge Rat) ∈
      l.edges := by decide +kernel
  obtain ⟨-, -, h⟩ := straight_clear_iff_facing (some .lr) fan (by decide) (by decide) _ hroute
    (by decide) (by decide)
  obtain ⟨u, v, hpoints, hclear⟩ := h _ hparent rfl _ hchild rfl
  cases hpoints
  have hfacing : Route.Facing parent child := by
    unfold Route.Facing
    decide +kernel
  exact ⟨by decide, hparent, hchild, hroute, hclear.mpr hfacing⟩

/-- No edge between different nodes runs through the boxes it joins. -/
def Unobstructed (l : Layout Rat) : Prop :=
  ∀ r ∈ l.edges, r.edge.source ≠ r.edge.target →
    ∀ p ∈ l.nodes, p.id = r.edge.source → ∀ q ∈ l.nodes, q.id = r.edge.target →
      ∀ u v, r.points = [u, v] → p.rect.Clear u v ∧ q.rect.Clear u v

/-- Read from top to bottom, the line to the first child leaves the parent on its left side, above
the child, and turns back under the parent. -/
theorem fan_obstructed :
    fan.ids.Nodup ∧ ¬ Unobstructed (ofDiagram (.standard : Settings Rat) fan) := by
  refine ⟨by decide, fun unobstructed => ?_⟩
  let parent : PlacedNode Rat := { id := "A", rank := 0, order := 0, rect := ⟨280, 0, 120, 60⟩ }
  let child : PlacedNode Rat := { id := "B", rank := 1, order := 0, rect := ⟨0, 160, 310, 60⟩ }
  let route : RoutedEdge Rat :=
    { edge := { source := "A", target := "B" }, points := [⟨280, 30⟩, ⟨310, 190⟩] }
  have hparent : parent ∈ (ofDiagram (.standard : Settings Rat) fan).nodes := by decide +kernel
  have hchild : child ∈ (ofDiagram (.standard : Settings Rat) fan).nodes := by decide +kernel
  have hroute : route ∈ (ofDiagram (.standard : Settings Rat) fan).edges := by decide +kernel
  obtain ⟨clear, -⟩ :=
    unobstructed route hroute (by decide) parent hparent rfl child hchild rfl _ _ rfl
  refine clear ⟨283, 46⟩ ⟨1 / 10, ?_⟩ ?_
  · decide +kernel
  · unfold Rect.Inside
    decide +kernel

end Layout

end Whiteboard
