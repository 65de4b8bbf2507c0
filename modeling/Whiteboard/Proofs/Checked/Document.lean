import Whiteboard.Document
import Whiteboard.Proofs.Checked.Entity
import Whiteboard.Proofs.Checked.Flowchart
import Whiteboard.Proofs.Checked.Sequence

/-!
Reading a whole text by positions gives the diagram that the text describes, or its header if that
names no language (`parse_eq`).
-/

namespace Whiteboard.Checked.Document

open Text Whiteboard.Document

def dialect (cs : List Char) : Attempt (Option Dialect) :=
  match header? (Directive.strip cs) with
  | none => pure none
  | some header => do
    let (keyword, _) ← splitHeader header
    pure (dialectOf? keyword)

def read (dialect : Dialect) (directive : Directive) (text : String) (body : List Char) :
    Attempt Diagram :=
  match dialect with
  | .flowchart => return (← Flowchart.chart body).toDiagram directive text
  | .sequence => return (← Sequence.conversation body).toDiagram directive text
  | .entityRelation => do
    let (entities, relationships) ← Entity.schema body
    pure (Whiteboard.Entity.Schema.toDiagram { entities, relationships } directive text)

def parse (text : String) : Attempt (Except Error Diagram) := do
  let cs := text.toList
  let body := Directive.strip cs
  match ← dialect body with
  | some dialect => return .ok (← read dialect (Directive.ofText cs) text body)
  | none => pure (.error (.unrecognized (String.ofList ((header? body).getD []))))

theorem dialect_eq (cs : List Char) : dialect cs = pure (dialect? cs) := by
  rw [dialect, dialect?]
  cases header? (Directive.strip cs) with
  | none => rfl
  | some header =>
      dsimp only
      rw [splitHeader_eq]
      rfl

theorem read_eq (dialect : Dialect) (directive : Directive) (text : String) (body : List Char) :
    read dialect directive text body =
      pure (Whiteboard.Document.read dialect directive text body) := by
  cases dialect with
  | flowchart =>
      rw [read, Flowchart.chart_eq]
      rfl
  | sequence =>
      rw [read, Sequence.conversation_eq]
      rfl
  | entityRelation =>
      rw [read, Entity.schema_eq]
      rfl

/-- A text is parsed without an overrun. -/
theorem parse_eq (text : String) : parse text = pure (Whiteboard.Document.parse text) := by
  unfold parse Whiteboard.Document.parse
  simp only [dialect_eq, read_eq, pure_bind]
  cases dialect? (Directive.strip text.toList) <;> rfl

end Whiteboard.Checked.Document
