import Mathlib.Data.List.Pairwise
import Whiteboard.Proofs.Geometry.Mirror
import Whiteboard.Proofs.Layout.Row

/-!
Reversed directions turn a flowchart over.

The stack of a reversed direction is the stack of the direction itself, with every box at the other
end of its thickness and the margins (`rect_turned`). No two boxes have the same centre, so the
routes between them are turned over too (`layout_turned`).
-/

namespace Whiteboard

def Direction.axis (direction : Direction) : Axis :=
  if direction.isHorizontal then .x else .y

def PlacedNode.mirror (axis : Axis) (total : Rat) (p : PlacedNode Rat) : PlacedNode Rat :=
  { p with rect := p.rect.mirror axis total }

namespace Layout

/-- The nodes of the second layout are those of the first, turned over, and so are the routes of
its edges, other than loops. -/
structure Mirrors (axis : Axis) (total : Rat) (l l' : Layout Rat) : Prop where
  nodes_eq : l'.nodes = l.nodes.map (·.mirror axis total)
  routes : List.Forall₂
    (fun r r' => r'.edge = r.edge ∧
      (r.edge.source ≠ r.edge.target → r'.points = r.points.map (·.mirror axis total)))
    l.edges l'.edges

/-- Among boxes that are turned over, the same one is found for an id. -/
theorem find?_mirror (nodes : List (PlacedNode Rat)) (axis : Axis) (total : Rat) (id : String) :
    find? (nodes.map (·.mirror axis total)) id = (find? nodes id).map (·.mirror axis total) := by
  rw [find?, List.find?_map]
  rfl

end Layout

namespace Layered

/-! ### Turning a stack over -/

section Turned

variable {α : Type} {direction direction' : Direction}

theorem across_congr (h : direction'.isHorizontal = direction.isHorizontal) :
    (across direction' : Size α → α) = across direction := by
  unfold across
  rw [h]

theorem along_congr (h : direction'.isHorizontal = direction.isHorizontal) :
    (along direction' : Size α → α) = along direction := by
  unfold along
  rw [h]

variable [Scalar α]

/-- Directions along the same axis have the same rows. -/
theorem row_congr (s : Settings α) (h : direction'.isHorizontal = direction.isHorizontal) :
    row s direction' = row s direction := by
  unfold row
  rw [across_congr h, along_congr h]

theorem rows_congr (s : Settings α) (h : direction'.isHorizontal = direction.isHorizontal) :
    rows s direction' = rows s direction := by
  unfold rows
  rw [row_congr s h]

/-- A stack depends on its direction only as far as the axis goes. -/
theorem Stack.ofDiagram_congr (s : Settings α) (d : Diagram)
    (h : direction'.isHorizontal = direction.isHorizontal) :
    Stack.ofDiagram s direction' d =
      { Stack.ofDiagram s direction d with direction := direction' } := by
  unfold Stack.ofDiagram
  rw [rows_congr s h]

end Turned

namespace Stack

/-- How far a stack reaches along its direction, from margin to margin. -/
def extent (k : Stack Rat) : Rat :=
  k.thickness + 2 * k.margin

variable {k : Stack Rat} {direction : Direction}

/-- Where a cell begins along its row does not depend on which way the stack goes. -/
theorem acrossStart_turned (h : direction.isHorizontal = k.direction.isHorizontal)
    (earlier : List (Cell Rat)) (c : Cell Rat) :
    ({ k with direction } : Stack Rat).acrossStart earlier c = k.acrossStart earlier c := by
  unfold acrossStart
  rw [row_congr _ h, across_congr h]
  rfl

/-- Turned over, a cell ends where it began, counted from the other end of the stack. -/
theorem rect_turned (hh : direction.isHorizontal = k.direction.isHorizontal)
    (hforward : k.direction.isReversed = false) (hreversed : direction.isReversed = true)
    (earlier : List (Cell Rat)) (c : Cell Rat) :
    ({ k with direction } : Stack Rat).rect earlier c =
      (k.rect earlier c).mirror k.direction.axis k.extent := by
  have hacross := acrossStart_turned hh earlier c
  have halong : ({ k with direction } : Stack Rat).alongStart c =
      k.thickness - k.alongStart c - along k.direction c.size := by
    have hstart : ({ k with direction } : Stack Rat).start c = k.start c := by
      unfold start Stack.row
      rw [row_congr _ hh, along_congr hh]
      rfl
    rw [alongStart_eq, alongStart_eq, hstart, if_pos hreversed, hforward,
      if_neg Bool.false_ne_true, along_congr hh]
    rfl
  unfold rect
  rw [hacross, halong]
  dsimp only
  rw [hh]
  unfold Direction.axis along Rect.mirror extent
  cases k.direction.isHorizontal with
  | false =>
      have hy : k.margin + (k.thickness - k.alongStart c - c.size.height) =
          k.thickness + 2 * k.margin - (k.margin + k.alongStart c + c.size.height) := by
        linarith
      exact congrArg (Rect.mk (k.margin + k.acrossStart earlier c) · _ _) hy
  | true =>
      have hx : k.margin + (k.thickness - k.alongStart c - c.size.width) =
          k.thickness + 2 * k.margin - (k.margin + k.alongStart c + c.size.width) := by
        linarith
      exact congrArg (Rect.mk · (k.margin + k.acrossStart earlier c) _ _) hx

/-- Turning a stack over turns its boxes over. -/
theorem nodes_turned (hh : direction.isHorizontal = k.direction.isHorizontal)
    (hforward : k.direction.isReversed = false) (hreversed : direction.isReversed = true) :
    ({ k with direction } : Stack Rat).nodes =
      k.nodes.map (·.mirror k.direction.axis k.extent) := by
  rw [nodes, nodes, List.map_map]
  refine List.map_congr_left ?_
  rintro ⟨c, i⟩ -
  dsimp only [Function.comp_apply]
  rw [place, rect_turned hh hforward hreversed]
  rfl

/-- Boxes that keep apart have different centres, if they have any extent. -/
theorem center_ne_of_apart {s : Settings Rat} {p q : PlacedNode Rat}
    (apart : p.Apart direction s q) (hrank : 0 ≤ s.rankGap) (hnode : 0 ≤ s.nodeGap)
    (hp : 0 < p.rect.width ∧ 0 < p.rect.height) (hq : 0 < q.rect.width ∧ 0 < q.rect.height) :
    p.rect.center ≠ q.rect.center := by
  intro heq
  have hx : p.rect.x + p.rect.width / 2 = q.rect.x + q.rect.width / 2 := congrArg Point.x heq
  have hy : p.rect.y + p.rect.height / 2 = q.rect.y + q.rect.height / 2 := congrArg Point.y heq
  obtain ⟨hpw, hph⟩ := hp
  obtain ⟨hqw, hqh⟩ := hq
  rcases Nat.lt_trichotomy p.rank q.rank with hlt | heq | hgt
  · have beyond := apart.beyond_of_lt hlt
    unfold Rect.Beyond at beyond
    cases direction <;> simp only [Rect.right_eq, Rect.bottom_eq] at beyond <;> linarith
  · have behind := apart.behind_of_eq heq
    unfold Rect.rowEnd Rect.rowStart at behind
    split at behind <;> simp only [Rect.right_eq, Rect.bottom_eq] at behind <;> linarith
  · have beyond := apart.beyond_of_gt hgt
    unfold Rect.Beyond at beyond
    cases direction <;> simp only [Rect.right_eq, Rect.bottom_eq] at beyond <;> linarith

/-- No two nodes of a flowchart have boxes with one centre. -/
theorem center_ne_of_mem {s : Settings Rat} (solid : s.Solid) {d : Diagram}
    {p q : PlacedNode Rat} (hp : p ∈ (ofDiagram s direction d).nodes)
    (hq : q ∈ (ofDiagram s direction d).nodes) (hne : p ≠ q) :
    p.rect.center ≠ q.rect.center := by
  have regular := regular_ofDiagram s direction d
  have apart := regular.pairwise_apart (nonneg_ofDiagram solid.toNonneg direction d)
  have hsize : ∀ {p}, p ∈ (ofDiagram s direction d).nodes →
      0 < p.rect.width ∧ 0 < p.rect.height := by
    intro p hp
    obtain ⟨n, -, hwidth, hheight⟩ := exists_size hp
    rw [hwidth, hheight]
    exact solid.nodeSize_pos n
  have hcenters : (ofDiagram s direction d).nodes.Pairwise
      fun p q => p.rect.center ≠ q.rect.center :=
    apart.imp_of_mem fun hp hq h =>
      center_ne_of_apart h solid.rankGap solid.nodeGap (hsize hp) (hsize hq)
  have : Std.Symm fun p q : PlacedNode Rat => p.rect.center ≠ q.rect.center :=
    ⟨fun _ _ => Ne.symm⟩
  exact hcenters.forall hp hq hne

end Stack

end Layered

namespace Layout

/-- The route between two nodes is turned over with their boxes. -/
theorem points_route_mirror {nodes : List (PlacedNode Rat)}
    (hcenters : ∀ p ∈ nodes, ∀ q ∈ nodes, p ≠ q → p.rect.center ≠ q.rect.center)
    (axis : Axis) (total : Rat) {e : Edge} (hne : e.source ≠ e.target) :
    (route (nodes.map (·.mirror axis total)) Route.loop (fun a b => Route.between a b 0) e).points =
      (route nodes Route.loop (fun a b => Route.between a b 0) e).points.map
        (·.mirror axis total) := by
  have hloop : ¬ e.isSelfLoop = true := by simpa [Edge.isSelfLoop] using hne
  unfold route
  rw [find?_mirror, find?_mirror]
  cases hp : find? nodes e.source with
  | none => rfl
  | some p =>
      cases hq : find? nodes e.target with
      | none => rfl
      | some q =>
          have hpq : p ≠ q := by
            rintro rfl
            have hsource : p.id = e.source := beq_iff_eq.mp (List.find?_some hp :)
            have htarget : p.id = e.target := beq_iff_eq.mp (List.find?_some hq :)
            exact hne (hsource.symm.trans htarget)
          simp only [Option.map_some, if_neg hloop]
          exact Route.between_mirror
            (hcenters p (List.mem_of_find?_eq_some hp) q (List.mem_of_find?_eq_some hq) hpq) _ _

/-- A reversed direction turns the layout of its axis over. -/
theorem layout_turned {s : Settings Rat} (solid : s.Solid) (d : Diagram)
    (forward reversed : Direction) (hh : reversed.isHorizontal = forward.isHorizontal)
    (hforward : forward.isReversed = false) (hreversed : reversed.isReversed = true) :
    Mirrors forward.axis (Layered.Stack.ofDiagram s forward d).extent
      (Layered.layout s forward d) (Layered.layout s reversed d) := by
  have hnodes : (Layered.Stack.ofDiagram s reversed d).nodes =
      (Layered.Stack.ofDiagram s forward d).nodes.map
        (·.mirror forward.axis (Layered.Stack.ofDiagram s forward d).extent) := by
    rw [Layered.Stack.ofDiagram_congr s d hh]
    exact Layered.Stack.nodes_turned hh hforward hreversed
  refine ⟨hnodes, ?_⟩
  refine List.forall₂_map_left_iff.mpr (List.forall₂_map_right_iff.mpr ?_)
  refine List.forall₂_same.mpr fun e _ => ⟨rfl, fun hne => ?_⟩
  rw [hnodes]
  exact points_route_mirror (fun p hp q hq => Layered.Stack.center_ne_of_mem solid hp hq) _ _ hne

/-- The two names of the direction downwards mean the same. -/
theorem layout_tb {α : Type} [Scalar α] (s : Settings α) (d : Diagram) :
    Layered.layout s .tb d = Layered.layout s .td d := rfl

/-- Upwards a flowchart is what it is downwards, turned over within its rows and margins, and from
right to left what it is from left to right. -/
theorem reversed_mirrors (s : Settings Rat) (solid : s.Solid) (d : Diagram) :
    Mirrors .y (Layered.Stack.ofDiagram s .td d).extent
        (Layered.layout s .td d) (Layered.layout s .bt d) ∧
      Mirrors .x (Layered.Stack.ofDiagram s .lr d).extent
        (Layered.layout s .lr d) (Layered.layout s .rl d) ∧
      Layered.layout s .tb d = Layered.layout s .td d :=
  ⟨layout_turned solid d .td .bt rfl rfl rfl, layout_turned solid d .lr .rl rfl rfl rfl,
    layout_tb s d⟩

/-- The carousel with a frame around the part that runs in a circle. -/
def framedCarousel : Diagram :=
  { carousel with subgraphs := [{ id := "ride", label := "Ride", members := ["up", "down"] }] }

/-- The framed carousel downwards and upwards, to the right and to the left. -/
theorem framedCarousel_mirrors :
    (.standard : Settings Rat).Solid ∧
      Mirrors .y 520 (Layered.layout .standard .td framedCarousel)
        (Layered.layout .standard .bt framedCarousel) ∧
      Mirrors .x 680 (Layered.layout .standard .lr framedCarousel)
        (Layered.layout .standard .rl framedCarousel) := by
  obtain ⟨hupwards, hleftwards, -⟩ :=
    reversed_mirrors .standard Settings.solid_standard framedCarousel
  have htd : (Layered.Stack.ofDiagram (.standard : Settings Rat) .td framedCarousel).extent =
      520 := by decide +kernel
  have hlr : (Layered.Stack.ofDiagram (.standard : Settings Rat) .lr framedCarousel).extent =
      680 := by decide +kernel
  exact ⟨Settings.solid_standard, htd ▸ hupwards, hlr ▸ hleftwards⟩

end Layout

end Whiteboard
