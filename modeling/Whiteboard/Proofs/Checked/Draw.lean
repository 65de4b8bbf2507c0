import Whiteboard.Draw
import Whiteboard.Proofs.Checked.Document
import Whiteboard.Proofs.Checked.Grid
import Whiteboard.Proofs.Checked.Layered
import Whiteboard.Proofs.Checked.Outline
import Whiteboard.Proofs.Scene.Builder

/-!
Drawing by positions: from a text to its scene with every access checked.

Each part of the way is safe on its own and gives what the readers and layouts give, so the whole
way is and does (`accesses_in_range`). Nothing is asked of the text, of the settings or of a diagram
that no text describes.
-/

namespace Whiteboard.Checked

variable {α : Type} [Scalar α]

def layout (s : Settings α) (d : Diagram) : Attempt (Layout α) :=
  match d.dialect with
  | .flowchart => Layered.layout s (s.direction.getD d.direction) d
  | .sequence => pure (Timeline.layout s d)
  | .entityRelation => Grid.layout s d

def scene (g : Generator) (s : Settings α) (d : Diagram) : Attempt (Scene α) := do
  let outline ← Outline.draw s d (← layout s d)
  pure (Scene.ofOutline (Source.stamps outline.length (Source.ofSeed g s.seed)) outline)

def draw (g : Generator) (s : Settings α) (text : String) :
    Attempt (Except Whiteboard.Document.Error (Scene α)) := do
  match ← Document.parse text with
  | .ok d => return .ok (← scene g s d)
  | .error e => pure (.error e)

theorem layout_eq (s : Settings α) (d : Diagram) : layout s d = pure (Layout.ofDiagram s d) := by
  rw [layout, Layout.ofDiagram]
  cases d.dialect with
  | flowchart => exact Layered.layout_eq s _ d
  | sequence => rfl
  | entityRelation => exact Grid.layout_eq s d

theorem scene_eq (g : Generator) (s : Settings α) (d : Diagram) :
    scene g s d = pure (Scene.ofDiagram g s d) := by
  rw [scene, layout_eq, pure_bind, Outline.draw_eq, pure_bind, Scene.ofDiagram, Scene.draw_eq]

/-- A text is drawn without an overrun. -/
theorem draw_eq (g : Generator) (s : Settings α) (text : String) :
    draw g s text = pure (Whiteboard.Document.draw g s text) := by
  rw [draw, Document.parse_eq, pure_bind, Whiteboard.Document.draw]
  cases Whiteboard.Document.parse text with
  | ok d =>
      dsimp only
      rw [scene_eq]
      rfl
  | error e => rfl

/-- No access is out of range. Header lines, keywords and quotes are cut between characters; a
cursor, wherever it stands in a line, reads within the line, gives what the reader of the rest gives
and moves behind what that reader takes; and ranks, scenes and drawings are found with every access
checked, for any diagram, text and settings. So a drawing is always a scene or refused for the
header of its text. -/
theorem accesses_in_range :
    (∀ line : List Char,
      splitHeader line = pure (Text.splitHeader line) ∧
      unquote line = pure (Text.unquote line) ∧
      ∀ keyword, stripKeyword? keyword line = pure (Text.stripKeyword? keyword line)) ∧
    (∀ (before rest : List Char) (r : Flowchart.Reading),
      ∃ taken, taken ++ (r.run rest).2 = rest ∧
        Cursor.run r ⟨before ++ rest, before.length⟩ =
          pure ((r.run rest).1, ⟨before ++ rest, (before ++ taken).length⟩)) ∧
    (∀ d, ranks d = pure d.ranks) ∧
    ∀ {α : Type} [Scalar α] (g : Generator) (s : Settings α),
      (∀ d, scene g s d = pure (Scene.ofDiagram g s d)) ∧
      ∀ text,
        draw g s text = pure (Whiteboard.Document.draw g s text) ∧
        ((∃ scene, draw g s text = pure (.ok scene)) ∨
          ∃ header, draw g s text = pure (.error (.unrecognized header))) := by
  refine ⟨fun line => ⟨splitHeader_eq line, unquote_eq line, fun keyword =>
    stripKeyword?_eq keyword line⟩, fun before rest r => ?_, ranks_eq, fun {α} _ g s =>
    ⟨scene_eq g s, fun text => ⟨draw_eq g s text, ?_⟩⟩⟩
  · obtain ⟨taken, htaken⟩ := Cursor.run_suffix r rest
    have hrun := Cursor.run_facing r (List.suffix_append before rest)
    have hstart : Cursor.facing (before ++ rest) rest = ⟨before ++ rest, before.length⟩ := by
      simp [Cursor.facing]
    have hstop : Cursor.facing (before ++ rest) (r.run rest).2 =
        ⟨before ++ rest, (before ++ taken).length⟩ := by
      have hlength := congrArg List.length htaken
      simp only [Cursor.facing, List.length_append, Cursor.mk.injEq, true_and] at hlength ⊢
      omega
    rw [hstart, Cursor.answer, hstop] at hrun
    exact ⟨taken, htaken, hrun⟩
  · rw [draw_eq]
    cases Whiteboard.Document.draw g s text with
    | ok scene => exact .inl ⟨scene, rfl⟩
    | error e =>
        obtain ⟨header⟩ := e
        exact .inr ⟨header, rfl⟩

end Whiteboard.Checked
