import Whiteboard.Proofs.Document
import Whiteboard.Proofs.Directive
import Whiteboard.Proofs.Text.Line

/-!
What a header adds to a diagram.

The header of a text names its language, and for a flowchart its direction. If it is cut down to its
keyword, the text is still read in the same language, and the diagram has the same nodes, edges and
subgraphs as long as the header names nothing itself (`parse_shortens`). No header of a flowchart
does. But in a sequence diagram a header that goes on with an arrow is a message, from a participant
with the keyword in its name (`chattyHeader_speaks`), and among entities a header can be a
relationship or open a block.
-/

namespace Whiteboard

open Text

/-! ### Flowcharts -/

namespace Flowchart

/-- What is taken off the end of a line does not change its keyword if it may follow a keyword. -/
theorem keyword_dropEnd {p : Char → Bool} (hp : ∀ c, p c = true → endsKeyword c = true)
    (cs : List Char) : keyword (cs.reverse.dropWhile p).reverse = keyword cs := by
  have hsplit : (cs.reverse.dropWhile p).reverse ++ (cs.reverse.takeWhile p).reverse = cs := by
    rw [← List.reverse_append, List.takeWhile_append_dropWhile, List.reverse_reverse]
  conv => rhs; rw [← hsplit]
  refine (keyword_append fun c hc => hp c ?_).symm
  exact List.mem_takeWhile_imp (List.mem_reverse.mp hc)

/-- Trimming the end of a line leaves its keyword alone. -/
theorem keyword_trimLine {line : List Char} (htrim : trim line = line) :
    keyword (trimLine line) = keyword line := by
  rw [trimLine, htrim, trimEnd, keyword_dropEnd fun c hc => Bool.or_eq_true_iff.mpr (.inl hc),
    keyword_dropEnd fun c hc => Bool.or_eq_true_iff.mpr (.inr hc)]

/-- A line that begins with a keyword of flowcharts is a header and nothing else. -/
theorem ofLine?_of_isHeaderKeyword {line : List Char} (htrim : trim line = line)
    (h : isHeaderKeyword (keyword line) = true) :
    ∃ direction, Statement.ofLine? line = some (.header direction) := by
  rw [← keyword_trimLine htrim] at h
  obtain ⟨direction, hdirection⟩ : ∃ direction, header? (trimLine line) = some direction :=
    ⟨_, if_pos h⟩
  refine ⟨direction, ?_⟩
  simp only [Statement.ofLine?, hdirection]

namespace Chart

def undirected (c : Chart) : Chart :=
  { c with direction := none }

theorem undirected_foldl_addReference (rs : List Reference) (c : Chart) :
    rs.foldl addReference c.undirected = (rs.foldl addReference c).undirected := by
  induction rs generalizing c with
  | nil => rfl
  | cons r rs ih => exact ih (c.addReference r)

/-- What a statement adds to a chart does not depend on the direction. -/
theorem undirected_add (c : Chart) (st : Statement) :
    (c.undirected.add st).undirected = (c.add st).undirected := by
  cases st with
  | path first hops =>
      simp only [add, undirected_foldl_addReference]
      rfl
  | _ => rfl

/-- The direction of a chart is nothing to the rest of it. -/
theorem undirected_foldl_add (sts : List Statement) {c c' : Chart}
    (h : c.undirected = c'.undirected) :
    (sts.foldl add c).undirected = (sts.foldl add c').undirected := by
  induction sts generalizing c c' with
  | nil => exact h
  | cons st sts ih =>
      refine ih ?_
      rw [← undirected_add, h, undirected_add]

end Chart

end Flowchart

/-! ### The other languages -/

/-- A bare header is no statement of a conversation. -/
theorem Sequence.ofLine?_keyword {line : List Char}
    (h : sameLetters (keyword line) "sequenceDiagram".toList = true) :
    Statement.ofLine? (keyword line) = none := by
  rw [← trim_keyword] at h
  exact if_pos h

namespace Entity

/-- A header line says nothing inside a block or outside. -/
theorem heard?_of_isHeader {inside : Bool} {line : List Char} (h : isHeader line = true) :
    heard? inside line = none := by
  rw [heard?, h, Bool.true_or, if_pos rfl]

/-- A line in which no statement is heard leaves an empty schema as it is. -/
theorem Schema.addLine_of_heard? {line : List Char} (h : heard? false line = none) :
    addLine {} line = {} := by
  unfold heard? at h
  rw [Bool.or_false] at h
  unfold addLine
  change (if isHeader line = true then _ else _) = _
  cases hheader : isHeader line with
  | true => rfl
  | false =>
      rw [hheader, if_neg Bool.false_ne_true] at h
      rw [if_neg Bool.false_ne_true]
      dsimp only
      rw [h]
      rfl

end Entity

namespace Document

/-- The ids that a header names if it reads as a statement of its language. -/
def headerNames (dialect : Dialect) (header : List Char) : List String :=
  match dialect with
  | .flowchart => []
  | .sequence => (Sequence.Statement.ofLine? header).toList.flatMap Sequence.Statement.names
  | .entityRelation => (Entity.heard? false header).toList.flatMap Entity.Statement.names

/-- The second text is the first one with its header cut down to the keyword. -/
structure Shortens (cs cs' header : List Char) : Prop where
  lines : ∃ rest, significantLines (Directive.strip cs) = header :: rest ∧
    significantLines (Directive.strip cs') = keyword header :: rest
  directive_eq : Directive.ofText cs' = Directive.ofText cs

/-- Two diagrams have the same nodes, edges and subgraphs. -/
structure SameContent (d d' : Diagram) : Prop where
  nodes_eq : d'.nodes = d.nodes
  edges_eq : d'.edges = d.edges
  subgraphs_eq : d'.subgraphs = d.subgraphs

def opens (dialect : Dialect) (word : List Char) : Bool :=
  match dialect with
  | .flowchart => Flowchart.isHeaderKeyword word
  | .sequence => sameLetters word "sequenceDiagram".toList
  | .entityRelation => sameLetters word "erDiagram".toList

/-- The word that tells the language is one that opens it. -/
theorem opens_of_dialectOf? {word : List Char} {dialect : Dialect}
    (h : dialectOf? word = some dialect) : opens dialect word = true := by
  unfold dialectOf? at h
  split at h
  · cases h
    assumption
  · split at h
    · cases h
      assumption
    · split at h
      · cases h
        assumption
      · cases h

/-! ### Reading on behind a header -/

section Read

variable {body body' header : List Char} {rest : List (List Char)}

/-- A header that names no id says nothing in a conversation. -/
theorem ofLine?_of_headerNames (h : headerNames .sequence header = []) :
    Sequence.Statement.ofLine? header = none := by
  unfold headerNames at h
  cases hst : Sequence.Statement.ofLine? header with
  | none => rfl
  | some st =>
      rw [hst] at h
      cases st <;> cases h

theorem heard?_of_headerNames (h : headerNames .entityRelation header = []) :
    Entity.heard? false header = none := by
  unfold headerNames at h
  cases hst : Entity.heard? false header with
  | none => rfl
  | some st =>
      rw [hst] at h
      cases st <;> cases h

/-- What a header names is named before all else. -/
theorem headerNames_isPrefix (dialect : Dialect) (hlines : significantLines body = header :: rest) :
    headerNames dialect header <+: names dialect body := by
  cases dialect with
  | flowchart => exact List.nil_prefix
  | sequence =>
      have hstatements : Sequence.statements body =
          (Sequence.Statement.ofLine? header).toList ++
            rest.filterMap Sequence.Statement.ofLine? := by
        rw [Sequence.statements, hlines, List.filterMap_cons]
        cases Sequence.Statement.ofLine? header <;> rfl
      rw [headerNames, names, hstatements, List.flatMap_append]
      exact List.prefix_append _ _
  | entityRelation =>
      rw [headerNames, names, Entity.statements, hlines, Entity.transcript, List.flatMap_append]
      exact List.prefix_append _ _

/-- The first node is the one that is named first. -/
theorem head?_ids_read (dialect : Dialect) (directive : Directive) (text : String)
    (hlines : significantLines body = header :: rest) {id : String}
    (h : (headerNames dialect header).head? = some id) :
    (read dialect directive text body).ids.head? = some id := by
  obtain ⟨names, hnames⟩ := List.head?_eq_some_iff.mp h
  obtain ⟨others, hothers⟩ := headerNames_isPrefix dialect hlines
  rw [(read_records dialect directive text body).ids_eq, ← hothers, hnames, List.cons_append,
    List.eraseDups_cons]
  rfl

/-- The header of a flowchart decides no more than its direction. -/
theorem undirected_ofStatements (hlines : significantLines body = header :: rest)
    (hlines' : significantLines body' = keyword header :: rest)
    (hkeyword : opens .flowchart (keyword header) = true) :
    (Flowchart.Chart.ofStatements (Flowchart.statements body)).undirected =
      (Flowchart.Chart.ofStatements (Flowchart.statements body')).undirected := by
  have hmem : header ∈ significantLines body := hlines ▸ List.mem_cons_self
  have hkeyword' : opens .flowchart (keyword (keyword header)) = true := by
    rwa [keyword_keyword]
  obtain ⟨d, hd⟩ := Flowchart.ofLine?_of_isHeaderKeyword (trim_of_mem hmem) hkeyword
  obtain ⟨d', hd'⟩ := Flowchart.ofLine?_of_isHeaderKeyword (trim_keyword header) hkeyword'
  have hheader : (Flowchart.Chart.add {} (.header d)).undirected =
      (Flowchart.Chart.add {} (.header d')).undirected := rfl
  rw [Flowchart.statements, hlines, List.filterMap_cons_some hd, Flowchart.statements, hlines',
    List.filterMap_cons_some hd']
  exact Flowchart.Chart.undirected_foldl_add _ hheader

/-- A header that says nothing in a sequence diagram leaves the statements as they are. -/
theorem statements_sequence (hlines : significantLines body = header :: rest)
    (hlines' : significantLines body' = keyword header :: rest)
    (hkeyword : opens .sequence (keyword header) = true)
    (hsilent : Sequence.Statement.ofLine? header = none) :
    Sequence.statements body' = Sequence.statements body := by
  rw [Sequence.statements, hlines', List.filterMap_cons_none (Sequence.ofLine?_keyword hkeyword),
    Sequence.statements, hlines, List.filterMap_cons_none hsilent]

/-- A header that says nothing among entities leaves the schema as it is. -/
theorem ofText_entityRelation (hlines : significantLines body = header :: rest)
    (hlines' : significantLines body' = keyword header :: rest)
    (hkeyword : opens .entityRelation (keyword header) = true)
    (hsilent : Entity.heard? false header = none) :
    Entity.Schema.ofText body' = Entity.Schema.ofText body := by
  have hkeyword' : Entity.heard? false (keyword header) = none :=
    Entity.heard?_of_isHeader hkeyword
  rw [Entity.Schema.ofText, hlines', List.foldl_cons, Entity.Schema.addLine_of_heard? hkeyword',
    Entity.Schema.ofText, hlines, List.foldl_cons, Entity.Schema.addLine_of_heard? hsilent]

/-- Cutting a header down to its keyword changes nothing, if the header reads as no statement. -/
theorem sameContent_read {dialect : Dialect} (hlines : significantLines body = header :: rest)
    (hlines' : significantLines body' = keyword header :: rest)
    (hkeyword : opens dialect (keyword header) = true) (hsilent : headerNames dialect header = [])
    (directive : Directive) (text text' : String) :
    SameContent (read dialect directive text body) (read dialect directive text' body') := by
  cases dialect with
  | flowchart =>
      have hsame := undirected_ofStatements hlines hlines' hkeyword
      have hnodes := congrArg Flowchart.Chart.nodes hsame
      have hedges := congrArg Flowchart.Chart.edges hsame
      have hsubgraphs := congrArg Flowchart.Chart.subgraphs hsame
      constructor
      case nodes_eq => exact congrArg (List.map _) hnodes.symm
      case edges_eq => exact hedges.symm
      case subgraphs_eq => exact congrArg (List.map _) hsubgraphs.symm
  | sequence =>
      rw [read, read, statements_sequence hlines hlines' hkeyword (ofLine?_of_headerNames hsilent)]
      exact ⟨rfl, rfl, rfl⟩
  | entityRelation =>
      rw [read, read,
        ofText_entityRelation hlines hlines' hkeyword (heard?_of_headerNames hsilent)]
      exact ⟨rfl, rfl, rfl⟩

end Read

/-! ### Texts -/

/-- The language is told by the keyword of the first line. -/
theorem dialect?_of_lines {cs header : List Char} {rest : List (List Char)}
    (h : significantLines (Directive.strip cs) = header :: rest) :
    dialect? (Directive.strip cs) = dialectOf? (keyword header) := by
  rw [dialect?, header?, Directive.strip_strip, h]
  rfl

/-- A text is still read in the same language if its header is cut down to the keyword. It is the
same diagram if the header names nothing; otherwise the first node is one that the header names. -/
theorem parse_shortens {text text' : String} {header : List Char} {d : Diagram}
    (shortens : Shortens text.toList text'.toList header) (h : parse text = .ok d) :
    ∃ d', parse text' = .ok d' ∧ d'.dialect = d.dialect ∧
      (headerNames d.dialect header = [] → SameContent d d') ∧
      ∀ id, (headerNames d.dialect header).head? = some id → d.ids.head? = some id := by
  obtain ⟨rest, hlines, hlines'⟩ := shortens.lines
  have hdialect := dialect?_of_lines hlines
  have hdialect' := dialect?_of_lines hlines'
  rw [keyword_keyword] at hdialect'
  unfold parse at h ⊢
  dsimp only at h ⊢
  rw [hdialect] at h
  rw [hdialect', shortens.directive_eq]
  cases hd : dialectOf? (keyword header) with
  | none =>
      rw [hd] at h
      cases h
  | some dialect =>
      rw [hd] at h
      cases h
      refine ⟨_, rfl, ?_, ?_⟩
      · rw [dialect_read, dialect_read]
      · rw [dialect_read]
        constructor
        · intro hsilent
          exact sameContent_read hlines hlines' (opens_of_dialectOf? hd) hsilent _ text text'
        · intro id hid
          exact head?_ids_read dialect _ text hlines hid

/-- A chart whose header goes on like a path, behind a block that asks for a theme. -/
def longHeader : String :=
  "%%\x7btheme: dark\x7d%%\ngraph LR; C --> A\nA --> B"

def longHeaderCut : String :=
  "%%\x7btheme: dark\x7d%%\ngraph\nA --> B"

def longHeaderDiagram : Diagram where
  dialect := .flowchart
  direction := .lr
  nodes := [.bare "A", .bare "B"]
  edges := [{ source := "A", target := "B", stroke := some .solid }]
  directive := { theme := some "dark" }
  text := longHeader

/-- A header that is cut down and names no ids, with the diagrams before and after. -/
theorem longHeader_shortens :
    Shortens longHeader.toList longHeaderCut.toList "graph LR; C --> A".toList ∧
      parse longHeader = .ok longHeaderDiagram ∧
      ∃ d', parse longHeaderCut = .ok d' ∧ d'.dialect = .flowchart ∧
        SameContent longHeaderDiagram d' := by
  have hshortens :
      Shortens longHeader.toList longHeaderCut.toList "graph LR; C --> A".toList := by
    refine ⟨⟨["A --> B".toList], ?_, ?_⟩, ?_⟩ <;> decide +kernel
  have hread : parse longHeader = .ok longHeaderDiagram := by decide +kernel
  obtain ⟨d', hread', hdialect, hsame, -⟩ := parse_shortens hshortens hread
  exact ⟨hshortens, hread, d', hread', hdialect, hsame rfl⟩

/-- A sequence diagram that is a header alone, and goes on like a message. -/
def chattyHeader : String :=
  "sequenceDiagram A->>B: hi"

/-- The header is read as a message, from a participant with the keyword in its name. -/
theorem chattyHeader_speaks :
    Shortens chattyHeader.toList "sequenceDiagram".toList chattyHeader.toList ∧
      ∃ d d', parse chattyHeader = .ok d ∧ parse "sequenceDiagram" = .ok d' ∧
        d.nodes.map (·.id) = ["sequenceDiagram A", "B"] ∧ d.edges.length = 1 ∧
        d'.nodes = [] ∧ d'.edges = [] := by
  have hshortens :
      Shortens chattyHeader.toList "sequenceDiagram".toList chattyHeader.toList := by
    refine ⟨⟨[], ?_, ?_⟩, ?_⟩ <;> decide +kernel
  let d : Diagram :=
    { dialect := .sequence
      nodes := [.bare "sequenceDiagram A", .bare "B"]
      edges :=
        [{ source := "sequenceDiagram A", target := "B", label := some "hi",
           stroke := some .solid }]
      text := chattyHeader }
  let d' : Diagram := { dialect := .sequence, text := "sequenceDiagram" }
  have hread : parse chattyHeader = .ok d := by decide +kernel
  have hread' : parse "sequenceDiagram" = .ok d' := by decide +kernel
  exact ⟨hshortens, d, d', hread, hread', rfl, rfl, rfl, rfl⟩

end Document

end Whiteboard
