import Whiteboard.Proofs.Checked.Basic
import Whiteboard.Proofs.Scene.Outline
import Whiteboard.Scene.Outline

/-!
Outlines by positions.

A connector takes the first point of its route, and its label stands between two points in the
middle. It is drawn only if the route has two points at least, so these are always there
(`connector_eq`).
-/

namespace Whiteboard.Checked.Outline

open Whiteboard.Outline

variable {α : Type} [Scalar α]

abbrev Group (α : Type) := Nat → Attempt (List (Element Nat α))

def assemble (position : Nat) : List (Group α) → Attempt (List (Element Nat α))
  | [] => pure []
  | g :: gs => do
    let es ← g position
    let rest ← assemble (position + es.length) gs
    pure (es ++ rest)

def anchor (points : List (Point α)) : Attempt (Point α) := do
  let i := (← difference points.length 1) / 2
  let a ← read points i
  let b ← read points (i + 1)
  pure ⟨(a.x + b.x) / 2, (a.y + b.y) / 2⟩

def connector (s : Settings α) (dialect : Dialect) (shapes : List (Element Nat α))
    (e : RoutedEdge α) : Group α := fun n =>
  if e.isDrawable then
    match shapeOf? shapes e.edge.source, shapeOf? shapes e.edge.target with
    | some source, some target => do
      let arrow := Stencil.arrow s e (← read e.points 0) source target n
      match Stencil.labelOf? e.edge with
      | none => pure [arrow]
      | some label => do
        let middle ← anchor e.points
        pure [arrow.holding (n + 1), Stencil.arrowLabel s dialect label middle n (n + 1)]
    | _, _ => pure []
  else pure []

def draw (s : Settings α) (d : Diagram) (l : Layout α) : Attempt (List (Element Nat α)) := do
  let shapes := Whiteboard.Outline.assemble 0 (l.frames.map (frame s d) ++ l.nodes.map (node s d))
  let lines := Whiteboard.Outline.assemble shapes.length (l.lifelines.map lifeline)
  let arrows ← assemble (shapes.length + lines.length)
    (l.edges.map (connector s d.dialect shapes))
  pure (Element.reconcile (shapes ++ (lines ++ arrows)))

omit [Scalar α] in
/-- Groups that are safe one by one are safe together. -/
theorem assemble_eq {groups : List (Group α)} {safe : List (Whiteboard.Outline.Group α)}
    (h : List.Forall₂ (fun g g' => ∀ n, g n = pure (g' n)) groups safe) (position : Nat) :
    assemble position groups = pure (Whiteboard.Outline.assemble position safe) := by
  induction h generalizing position with
  | nil => rfl
  | cons hg _ ih =>
      rw [assemble, hg, pure_bind, ih, pure_bind]
      rfl

omit [Scalar α] in
/-- A route with two points has a first one. -/
theorem read_origin {points : List (Point α)} (h : 2 ≤ points.length) :
    read points 0 = pure (Stencil.origin points h) :=
  read_of_lt (by omega)

/-- A route with two points has a middle piece. -/
theorem anchor_eq {points : List (Point α)} (h : 2 ≤ points.length) :
    anchor points = pure (Stencil.anchor points h) := by
  have hi : (points.length - 1) / 2 < points.length := by omega
  have hi' : (points.length - 1) / 2 + 1 < points.length := by omega
  rw [anchor, difference_of_le (by omega), pure_bind]
  dsimp only
  rw [read_of_lt hi, pure_bind, read_of_lt hi', pure_bind]
  rfl

theorem connector_eq (s : Settings α) (dialect : Dialect) (shapes : List (Element Nat α))
    (e : RoutedEdge α) (n : Nat) :
    connector s dialect shapes e n = pure (Whiteboard.Outline.connector s dialect shapes e n) := by
  unfold connector Whiteboard.Outline.connector RoutedEdge.isDrawable
  by_cases h : 2 ≤ e.points.length
  · rw [if_pos (decide_eq_true h), dif_pos h]
    cases shapeOf? shapes e.edge.source with
    | none => rfl
    | some source =>
        cases shapeOf? shapes e.edge.target with
        | none => rfl
        | some target =>
            dsimp only
            rw [read_origin h, pure_bind]
            cases Stencil.labelOf? e.edge with
            | none => rfl
            | some label =>
                dsimp only
                rw [anchor_eq h, pure_bind]
  · rw [if_neg (by simpa using h), dif_neg h]

theorem draw_eq (s : Settings α) (d : Diagram) (l : Layout α) :
    draw s d l = pure (Whiteboard.Outline.draw s d l) := by
  have harrows : ∀ shapes, List.Forall₂ (fun g g' => ∀ n, g n = pure (g' n))
      (l.edges.map (connector s d.dialect shapes))
      (l.edges.map (Whiteboard.Outline.connector s d.dialect shapes)) := by
    intro shapes
    refine List.forall₂_map_left_iff.mpr (List.forall₂_map_right_iff.mpr ?_)
    exact List.forall₂_same.mpr fun e _ => connector_eq s d.dialect shapes e
  simp only [draw, assemble_eq (harrows _), pure_bind]
  rw [Whiteboard.Outline.draw, assemble_append (l.lifelines.map lifeline)]

end Whiteboard.Checked.Outline
