import Whiteboard.Proofs.Document
import Whiteboard.Proofs.Directive
import Whiteboard.Proofs.Text.Line

/-!
Which texts are read.

The language of a text is looked for twice, in the text and in what is left of it when its directive
blocks are stripped. As nothing is left to be stripped a second time, both find the same
(`dialect?_strip`), so a text is read exactly if it has a language, and then in that language. A
text has none exactly if the first word of its header is none of the five that open a text; the
header is all that the error tells of it (`parse_detects`).
-/

namespace Whiteboard.Document

open Text

/-- The language of a text does not hang on its directive blocks. -/
theorem dialect?_strip (cs : List Char) : dialect? (Directive.strip cs) = dialect? cs := by
  rw [dialect?, Directive.strip_strip, dialect?]

/-- A text with a language is read in it. -/
theorem parse_of_dialect? {text : String} {dialect : Dialect}
    (h : dialect? text.toList = some dialect) :
    parse text =
      .ok (read dialect (Directive.ofText text.toList) text (Directive.strip text.toList)) := by
  unfold parse
  dsimp only
  rw [dialect?_strip, h]

/-- A text without one is not read. -/
theorem parse_of_dialect?_eq_none {text : String} (h : dialect? text.toList = none) :
    parse text =
      .error (.unrecognized
        (String.ofList ((header? (Directive.strip text.toList)).getD []))) := by
  unfold parse
  dsimp only
  rw [dialect?_strip, h]

/-- A word names no language if it is none of the words that open a text. -/
theorem dialectOf?_eq_none_iff {word : List Char} :
    dialectOf? word = none ↔
      ∀ opener ∈ ["flowchart", "flowchart-elk", "graph", "sequenceDiagram", "erDiagram"],
        sameLetters word opener.toList = false := by
  have hkeyword : Flowchart.isHeaderKeyword word = false ↔
      ∀ opener ∈ ["flowchart", "flowchart-elk", "graph"],
        sameLetters word opener.toList = false := by
    simp [Flowchart.isHeaderKeyword, Flowchart.headerKeywords]
  have hsplit : ["flowchart", "flowchart-elk", "graph", "sequenceDiagram", "erDiagram"] =
      ["flowchart", "flowchart-elk", "graph"] ++ ["sequenceDiagram", "erDiagram"] := rfl
  rw [hsplit, List.forall_mem_append, ← hkeyword, List.forall_mem_cons, List.forall_mem_singleton,
    dialectOf?]
  cases Flowchart.isHeaderKeyword word <;>
    cases sameLetters word "sequenceDiagram".toList <;>
      cases sameLetters word "erDiagram".toList <;> simp

/-- A text without a header is as one with an empty header. -/
theorem dialect?_eq_dialectOf? (cs : List Char) :
    dialect? cs = dialectOf? (keyword ((header? (Directive.strip cs)).getD [])) := by
  rw [dialect?]
  cases header? (Directive.strip cs) <;> rfl

/-- A text is read exactly if it has a language, in that language, and stripping its directive
blocks does not change which it is. If it is not read, the error carries the first line that counts
in the stripped text, and the first word of that line opens no text. -/
theorem parse_detects (text : String) :
    (∀ dialect, dialect? text.toList = some dialect ↔
        ∃ d, parse text = .ok d ∧ d.dialect = dialect) ∧
      dialect? (Directive.strip text.toList) = dialect? text.toList ∧
      ∀ e, parse text = .error e ↔
        e = .unrecognized
            (String.ofList ((significantLines (Directive.strip text.toList)).head?.getD [])) ∧
          ∀ opener ∈ ["flowchart", "flowchart-elk", "graph", "sequenceDiagram", "erDiagram"],
            sameLetters
              (keyword ((significantLines (Directive.strip text.toList)).head?.getD []))
              opener.toList = false := by
  have hnone := dialect?_eq_dialectOf? text.toList
  refine ⟨fun dialect => ?_, dialect?_strip _, fun e => ?_⟩
  · cases hd : dialect? text.toList with
    | none => simp [parse_of_dialect?_eq_none hd]
    | some other => simp [parse_of_dialect? hd, dialect_read]
  · rw [← dialectOf?_eq_none_iff, ← header?, ← hnone]
    cases hd : dialect? text.toList with
    | none => simp [parse_of_dialect?_eq_none hd, eq_comm]
    | some dialect => simp [parse_of_dialect? hd]

end Whiteboard.Document
