import Whiteboard.Proofs.Layout.Frame
import Whiteboard.Proofs.Scene.Emission

/-!
The frames of a scene.

A frame is visible if it goes around a box of some width and height, and not if it goes around
nothing. So what a scene shows of the subgraphs of a flowchart is a frame with its title for each
one of them that has a node as a member, and nothing for the others (`frames_wrap`).
-/

namespace Whiteboard

namespace Depiction

/-- It shows the frame of a subgraph, or the title of one. -/
def isOfSubgraph (x : Depiction) : Bool :=
  x.role == .frame || x.role == .frameTitle

def ofSubgraph (g : Subgraph) : List Depiction :=
  [{ role := .frame, owner := some g.id },
    { role := .frameTitle, owner := some g.id, text := some g.label }]

/-- No frame is drawn for a node. -/
theorem filter_ofNode (d : Diagram) (n : Node) : (ofNode d n).filter isOfSubgraph = [] := by
  unfold ofNode
  dsimp only
  split <;> rfl

/-- No frame is drawn for an edge. -/
theorem filter_ofEdge (e : Edge) : (ofEdge e).filter isOfSubgraph = [] := by
  rw [Outline.ofEdge_eq]
  cases Stencil.labelOf? e <;> rfl

/-- Of a drawing, only the visible frames show subgraphs. -/
theorem filter_isOfSubgraph {α : Type} [Scalar α] (d : Diagram) (l : Layout α) :
    (ofDrawing d l).filter isOfSubgraph =
      (l.frames.filter fun f => Stencil.isVisible f.rect).flatMap ofFrame := by
  have hnodes : (d.nodes.flatMap fun n => (ofNode d n).filter isOfSubgraph) = [] :=
    List.flatMap_eq_nil_iff.mpr fun n _ => filter_ofNode d n
  rw [filter_ofDrawing (fun _ => rfl) filter_ofEdge, hnodes, List.append_nil]
  rfl

end Depiction

/-- A rectangle is visible if it encloses one that has some width and height. -/
theorem Rect.Encloses.isVisible {s : Settings Rat} (hpadding : 0 ≤ s.framePadding)
    (htitle : 0 ≤ s.titleHeight) {r b : Rect Rat} (encloses : r.Encloses s b)
    (hb : 0 < b.width ∧ 0 < b.height) : Stencil.isVisible r = true := by
  obtain ⟨hleft, hright, htop, hbottom⟩ := encloses
  rw [right_eq, right_eq] at hright
  rw [bottom_eq, bottom_eq] at hbottom
  have hwidth : ¬ r.width ≤ 0 := by linarith
  have hheight : ¬ r.height ≤ 0 := by linarith
  simp [Stencil.isVisible, hwidth, hheight]

/-- The frame of a subgraph is visible exactly if some member is a node. -/
theorem Layout.Framed.isVisible_eq {s : Settings Rat} (solid : s.Solid) {direction : Direction}
    {d : Diagram} {g : Subgraph} {f : Frame Rat}
    (framed : (Layered.layout s direction d).Framed s d g f) :
    Stencil.isVisible f.rect = d.isOccupied g := by
  cases h : d.isOccupied g with
  | false =>
      rw [framed.eq_zero h]
      rfl
  | true =>
      obtain ⟨id, hid, hnode⟩ := List.any_eq_true.mp h
      rw [← isSome_find? (ids_stack s d direction)] at hnode
      obtain ⟨p, hp⟩ := Option.isSome_iff_exists.mp hnode
      obtain ⟨n, -, hwidth, hheight⟩ :=
        Layered.Stack.exists_size (List.mem_of_find?_eq_some hp)
      have hsize := solid.nodeSize_pos n
      rw [← hwidth, ← hheight] at hsize
      exact (framed.encloses id hid p hp).isVisible solid.framePadding solid.titleHeight hsize

/-- The visible ones of the frames of some subgraphs show the subgraphs that have a node as a
member. -/
theorem Depiction.flatMap_ofFrame {s : Settings Rat} (solid : s.Solid) {direction : Direction}
    {d : Diagram} {gs : List Subgraph} {fs : List (Frame Rat)}
    (framed : List.Forall₂ ((Layered.layout s direction d).Framed s d) gs fs) :
    (fs.filter fun f => Stencil.isVisible f.rect).flatMap ofFrame =
      (gs.filter d.isOccupied).flatMap ofSubgraph := by
  induction framed with
  | nil => rfl
  | @cons g f gs fs hframed _ ih =>
      have hvisible := hframed.isVisible_eq solid
      have hshows : ofFrame f = ofSubgraph g := by
        rw [ofFrame, ofSubgraph, hframed.id_eq, hframed.label_eq]
      rw [List.filter_cons, List.filter_cons, hvisible]
      cases d.isOccupied g with
      | false => exact ih
      | true =>
          rw [if_pos rfl, if_pos rfl, List.flatMap_cons, List.flatMap_cons, hshows, ih]

namespace Scene

/-- Every subgraph of a flowchart has the least frame around its members, which stays on the canvas;
and the scene shows a frame with a title for exactly those subgraphs that have a node as a member,
in order. -/
theorem frames_wrap (g : Generator) (s : Settings Rat) (solid : s.Solid) (d : Diagram)
    (hd : d.dialect = .flowchart) :
    List.Forall₂ ((Layout.ofDiagram s d).Framed s d) d.subgraphs (Layout.ofDiagram s d).frames ∧
      (ofDiagram g s d).depictions.filter Depiction.isOfSubgraph =
        (d.subgraphs.filter d.isOccupied).flatMap Depiction.ofSubgraph := by
  have hlayout : Layout.ofDiagram s d = Layered.layout s (s.direction.getD d.direction) d := by
    rw [Layout.ofDiagram, hd]
  have framed := Layout.framed_layered solid.toNonneg (s.direction.getD d.direction) d
  refine ⟨hlayout ▸ framed, ?_⟩
  rw [depictions_ofDiagram, Depiction.filter_isOfSubgraph, hlayout]
  exact Depiction.flatMap_ofFrame solid framed

/-- The carousel from right to left, with a frame around the part that runs in a circle and one
around nothing that is drawn. -/
def fairground : Diagram :=
  { Layout.carousel with
    direction := .rl
    subgraphs :=
      [{ id := "ride", label := "Ride", members := ["up", "down"] },
        { id := "queue", label := "Queue", members := ["visitor"] }] }

/-- The frames of `fairground`. -/
theorem fairground_wraps :
    (.standard : Settings Rat).Solid ∧
      List.Forall₂ ((Layout.ofDiagram .standard fairground).Framed .standard fairground)
        fairground.subgraphs
        [⟨"ride", "Ride", ⟨30, 50, 400, 170⟩⟩, ⟨"queue", "Queue", ⟨0, 0, 0, 0⟩⟩] ∧
      (ofDiagram .keystream (.standard : Settings Rat) fairground).depictions.filter
          Depiction.isOfSubgraph =
        [{ role := .frame, owner := some "ride" },
          { role := .frameTitle, owner := some "ride", text := some "Ride" }] := by
  obtain ⟨hframed, hshown⟩ :=
    frames_wrap .keystream .standard Settings.solid_standard fairground rfl
  have hframes : (Layout.ofDiagram (.standard : Settings Rat) fairground).frames =
      [⟨"ride", "Ride", ⟨30, 50, 400, 170⟩⟩, ⟨"queue", "Queue", ⟨0, 0, 0, 0⟩⟩] := by
    decide +kernel
  rw [hframes] at hframed
  exact ⟨Settings.solid_standard, hframed, hshown.trans (by decide +kernel)⟩

end Scene

end Whiteboard
