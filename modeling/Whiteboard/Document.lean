/-
Documents: a text in any of the three languages and the diagram it describes.

The first significant line of a text, its directive blocks aside, is its header; the word that opens
the header names the language. Reading fails only if it names none: all that a reader does not
recognise later on it passes over.
-/

import Whiteboard.Directive
import Whiteboard.Entity.Schema
import Whiteboard.Flowchart.Chart
import Whiteboard.Sequence.Conversation
import Whiteboard.Text.Quoted

namespace Whiteboard.Document

open Text

/-- Why a text is no diagram. -/
inductive Error where
  /-- Its header, empty if there is none, names no language. -/
  | unrecognized (header : String)
deriving DecidableEq, Repr

def Error.message : Error → String
  | unrecognized header =>
    "unrecognized diagram type " ++ String.ofList (quote header.toList) ++
      ": expected a `flowchart`/`graph`, `sequenceDiagram` or `erDiagram` header"

/-- The first line that carries meaning. -/
def header? (body : List Char) : Option (List Char) :=
  (significantLines body).head?

/-- The language that the word at the beginning of a header names. -/
def dialectOf? (keyword : List Char) : Option Dialect :=
  if Flowchart.isHeaderKeyword keyword then some .flowchart
  else if sameLetters keyword "sequenceDiagram".toList then some .sequence
  else if sameLetters keyword "erDiagram".toList then some .entityRelation
  else none

def dialect? (cs : List Char) : Option Dialect := do
  let header ← header? (Directive.strip cs)
  dialectOf? (splitHeader header).1

/-- The diagram of a text without directive blocks, read in a given language. -/
def read (dialect : Dialect) (directive : Directive) (text : String) (body : List Char) : Diagram :=
  match dialect with
  | .flowchart =>
    (Flowchart.Chart.ofStatements (Flowchart.statements body)).toDiagram directive text
  | .sequence =>
    (Sequence.Conversation.ofStatements (Sequence.statements body)).toDiagram directive text
  | .entityRelation => (Entity.Schema.ofText body).toDiagram directive text

def parse (text : String) : Except Error Diagram :=
  let cs := text.toList
  let body := Directive.strip cs
  match dialect? body with
  | some dialect => .ok (read dialect (Directive.ofText cs) text body)
  | none => .error (.unrecognized (String.ofList ((header? body).getD [])))

end Whiteboard.Document
