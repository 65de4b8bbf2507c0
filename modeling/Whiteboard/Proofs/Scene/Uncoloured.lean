import Whiteboard.Proofs.Layout.Unstyled
import Whiteboard.Proofs.Scene.Integrity

/-!
What the presentation of a diagram changes of its scene.

Styles reach a scene only as the colours of frames, shapes and separators. With these left out,
every group of an outline is the same for a diagram and for the diagram without its presentation, as
many elements at the same positions, and so are the whole outline and the scene
(`uncoloured_ofDiagram_unstyled`).
-/

namespace Whiteboard

variable {ι α : Type}

/-- What stands for something is coloured by a style. -/
def Role.isStyled : Role → Bool
  | .frame | .shape | .separator => true
  | .frameTitle | .nodeLabel | .lifeline | .connector | .connectorLabel => false

namespace Element

def uncoloured (e : Element ι α) : Element ι α :=
  { e with
    stroke := if e.role.isStyled then "" else e.stroke
    background := if e.role.isStyled then "" else e.background }

/-- Colours have no part in what is bound to what. -/
theorem boundTo_uncoloured [DecidableEq ι] (es : List (Element ι α)) (id : ι) :
    boundTo (es.map uncoloured) id = boundTo es id := by
  unfold boundTo
  rw [List.filter_map, List.map_map]
  rfl

/-- Reconciling goes by ids and bindings. -/
theorem reconcile_uncoloured [DecidableEq ι] (es : List (Element ι α)) :
    (reconcile es).map uncoloured = reconcile (es.map uncoloured) := by
  unfold reconcile
  rw [List.map_map, List.map_map]
  refine List.map_congr_left fun e _ => ?_
  rw [Function.comp_apply, Function.comp_apply, boundTo_uncoloured]
  rfl

end Element

/-! ### Outlines -/

namespace Outline

/-- Groups that show the same at every position show the same one behind the other. -/
theorem map_assemble_congr {β γ : Type} {view : Element Nat α → γ} {group group' : β → Group α}
    (h : ∀ x n, (group x n).map view = (group' x n).map view) (xs : List β) (n : Nat) :
    (assemble n (xs.map group)).map view = (assemble n (xs.map group')).map view := by
  induction xs generalizing n with
  | nil => rfl
  | cons x xs ih =>
      have hlength : (group x n).length = (group' x n).length := by
        simpa using congrArg List.length (h x n)
      rw [List.map_cons, assemble, List.map_append, h, ih, hlength, List.map_cons, assemble,
        List.map_append]

/-- A shape is found by role and owner. -/
theorem shapeOf?_uncoloured (es : List (Element Nat α)) (id : String) :
    shapeOf? (es.map Element.uncoloured) id = shapeOf? es id := by
  unfold shapeOf?
  rw [← List.map_reverse, List.find?_map, Option.map_map]
  rfl

variable [Scalar α] (s : Settings α) (d : Diagram) (l : Layout α)

/-- Without styles a frame differs in its colours. -/
theorem frame_unstyled (f : Frame α) (n : Nat) :
    (frame s d.unstyled f n).map Element.uncoloured = (frame s d f n).map Element.uncoloured := by
  unfold frame
  split <;> rfl

/-- Without styles a node differs in its colours. -/
theorem node_unstyled (p : PlacedNode α) (n : Nat) :
    (node s d.unstyled p n).map Element.uncoloured = (node s d p n).map Element.uncoloured := by
  unfold node
  rw [d.node?_unstyled, d.dialect_unstyled]
  cases d.node? p.id with
  | none => rfl
  | some m =>
      have hlines : m.unstyled.isMultiline = m.isMultiline := rfl
      dsimp only [Option.map_some]
      rw [hlines]
      by_cases h : (d.dialect == .entityRelation && m.isMultiline) = true
      · rw [if_pos h, if_pos h]
        rfl
      · rw [if_neg h, if_neg h]
        rfl

/-- Connectors find their ends whatever the colours. -/
theorem connector_uncoloured (dialect : Dialect) (es : List (Element Nat α)) (e : RoutedEdge α)
    (n : Nat) :
    connector s dialect (es.map Element.uncoloured) e n = connector s dialect es e n := by
  unfold connector
  rw [shapeOf?_uncoloured, shapeOf?_uncoloured]

/-- Without styles frames and nodes differ in their colours. -/
theorem shapes_unstyled :
    (shapes s d.unstyled l).map Element.uncoloured = (shapes s d l).map Element.uncoloured := by
  have hframes := map_assemble_congr (frame_unstyled s d) l.frames 0
  have hlength : (assemble 0 (l.frames.map (frame s d.unstyled))).length =
      (assemble 0 (l.frames.map (frame s d))).length := by
    simpa using congrArg List.length hframes
  rw [shapes, assemble_append, List.map_append, hframes, map_assemble_congr (node_unstyled s d),
    hlength, shapes, assemble_append, List.map_append]

/-- Lifelines and arrows are the same to every detail. -/
theorem lines_unstyled : lines s d.unstyled l = lines s d l := by
  have hshapes := shapes_unstyled s d l
  have hlength : (shapes s d.unstyled l).length = (shapes s d l).length := by
    simpa using congrArg List.length hshapes
  have hconnector : connector s d.dialect (shapes s d.unstyled l) =
      connector s d.dialect (shapes s d l) := by
    funext e n
    rw [← connector_uncoloured, hshapes, connector_uncoloured]
  rw [lines, lines, d.dialect_unstyled, hconnector, hlength]

/-- An outline depends on the presentation of its diagram by colours only. -/
theorem draw_unstyled :
    (draw s d.unstyled l).map Element.uncoloured = (draw s d l).map Element.uncoloured := by
  rw [draw_eq, draw_eq, Element.reconcile_uncoloured, Element.reconcile_uncoloured, List.map_append,
    List.map_append, shapes_unstyled, lines_unstyled]

end Outline

/-! ### Scenes -/

/-- An item without the colours that a style gives its element. -/
def Item.uncoloured (item : Item α) : Item α :=
  { item with element := item.element.uncoloured }

namespace Scene

def uncoloured (scene : Scene α) : Scene α where
  items := scene.items.map Item.uncoloured

theorem uncoloured_ofOutline (stamps : List Source.Stamp) (outline : List (Element Nat α)) :
    (ofOutline stamps outline).uncoloured =
      ofOutline stamps (outline.map Element.uncoloured) := by
  rw [uncoloured, ofOutline, ofOutline, List.zip_map_left, List.map_map, List.map_map]
  rfl

theorem texts_uncoloured (scene : Scene α) : scene.uncoloured.texts = scene.texts := by
  unfold texts elements uncoloured
  rw [List.map_map, List.filterMap_map, List.filterMap_map]
  rfl

variable [Scalar α]

/-- The scene of a diagram depends on its presentation by colours only. -/
theorem uncoloured_ofDiagram_unstyled (g : Generator) (s : Settings α) (d : Diagram) :
    (ofDiagram g s d.unstyled).uncoloured = (ofDiagram g s d).uncoloured := by
  have houtline := Outline.draw_unstyled s d (Layout.ofDiagram s d)
  have hlength : (Outline.draw s d.unstyled (Layout.ofDiagram s d)).length =
      (Outline.draw s d (Layout.ofDiagram s d)).length := by
    simpa using congrArg List.length houtline
  rw [ofDiagram, Layout.ofDiagram_unstyled, ofDiagram, draw_eq, draw_eq, uncoloured_ofOutline,
    uncoloured_ofOutline, houtline, hlength]

end Scene

end Whiteboard
