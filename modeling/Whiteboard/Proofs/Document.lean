import Whiteboard.Document
import Whiteboard.Proofs.Entity.Schema
import Whiteboard.Proofs.Flowchart.Chart
import Whiteboard.Proofs.Sequence.Conversation

/-!
What reading a text keeps.

In every language, the diagram that is read from a text records the statements of the text
(`parse_records`): its nodes are the ids they name, in the order of the first mention, its edges are
theirs, in order, and neither edges nor subgraphs refer to anything else.
-/

namespace Whiteboard.Document

/-- The ids that the statements of a text in some language name, line by line. -/
def names (dialect : Dialect) (body : List Char) : List String :=
  match dialect with
  | .flowchart => (Flowchart.statements body).flatMap Flowchart.Statement.names
  | .sequence => (Sequence.statements body).flatMap Sequence.Statement.names
  | .entityRelation => (Entity.statements body).flatMap Entity.Statement.names

/-- The edges that the statements of a text in some language draw, line by line. -/
def edges (dialect : Dialect) (body : List Char) : List Edge :=
  match dialect with
  | .flowchart => (Flowchart.statements body).flatMap Flowchart.Statement.edges
  | .sequence => (Sequence.statements body).flatMap Sequence.Statement.edges
  | .entityRelation => (Entity.statements body).flatMap Entity.Statement.edges

/-- A diagram keeps the language it was read in. -/
theorem dialect_read (dialect : Dialect) (directive : Directive) (text : String)
    (body : List Char) : (read dialect directive text body).dialect = dialect := by
  cases dialect <;> rfl

/-- In every language, nodes and edges are those that the statements name and draw. -/
theorem read_records (dialect : Dialect) (directive : Directive) (text : String)
    (body : List Char) :
    (read dialect directive text body).Records (names dialect body) (edges dialect body) := by
  cases dialect with
  | flowchart => exact Flowchart.Chart.records_toDiagram _ directive text
  | sequence => exact Sequence.Conversation.records_toDiagram _ directive text
  | entityRelation => exact Entity.Schema.records_toDiagram body directive text

/-- A text that is read is read in one of the languages, without its directive blocks. -/
theorem parse_eq_ok {text : String} {d : Diagram} (h : parse text = .ok d) :
    ∃ dialect, d =
      read dialect (Directive.ofText text.toList) text (Directive.strip text.toList) := by
  unfold parse at h
  dsimp only at h
  split at h
  · rename_i dialect _
    exact ⟨dialect, (Except.ok.inj h).symm⟩
  · cases h

/-- The diagram that is read from a text records what the statements of the text name and draw. -/
theorem parse_records {text : String} {d : Diagram} (h : parse text = .ok d) :
    d.Records (names d.dialect (Directive.strip text.toList))
      (edges d.dialect (Directive.strip text.toList)) := by
  obtain ⟨dialect, rfl⟩ := parse_eq_ok h
  rw [dialect_read]
  exact read_records dialect _ text _

/-- A chart of two nodes in a subgraph, joined in both directions. -/
def ring : String :=
  "graph LR\nsubgraph pair\nA --> B --> A\nend"

def ringDiagram : Diagram where
  dialect := .flowchart
  direction := .lr
  nodes := [.bare "A", .bare "B"]
  edges :=
    [{ source := "A", target := "B", stroke := some .solid },
      { source := "B", target := "A", stroke := some .solid }]
  subgraphs := [{ id := "pair", label := "pair", members := ["A", "B"] }]
  text := ring

/-- The records of `ring`. -/
theorem ring_records : ringDiagram.Records ["A", "B", "A"] ringDiagram.edges := by
  have hparse : parse ring = .ok ringDiagram := by decide +kernel
  have hnames : names .flowchart (Directive.strip ring.toList) = ["A", "B", "A"] := by
    decide +kernel
  have hedges : edges .flowchart (Directive.strip ring.toList) = ringDiagram.edges := by
    decide +kernel
  rw [← hnames, ← hedges]
  exact parse_records hparse

end Whiteboard.Document
