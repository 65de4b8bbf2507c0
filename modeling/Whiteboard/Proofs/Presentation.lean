import Whiteboard.Draw
import Whiteboard.Proofs.Directive
import Whiteboard.Proofs.Scene.Uncoloured
import Whiteboard.Proofs.Text.Line

/-!
A directive block is presentation only.

What a text describes depends on the lines that count once its blocks are gone (`parse_congr`). A
block that begins a line leaves no such line behind, whatever it says
(`significantLines_strip_insertBlock`); so the diagram is the same without its presentation, and the
scene without the colours of frames, shapes and separators.
-/

namespace Whiteboard.Document

open Text Directive

/-! ### The lines that a diagram is read from -/

/-- The language is told by the lines that carry meaning. -/
theorem dialect?_congr {cs cs' : List Char}
    (h : significantLines (strip cs) = significantLines (strip cs')) :
    dialect? cs = dialect? cs' := by
  unfold dialect? header?
  rw [h]

/-- Apart from styles, a diagram is told by the lines that carry meaning. -/
theorem unstyled_read {body body' : List Char} (h : significantLines body = significantLines body')
    (dialect : Dialect) (directive directive' : Directive) (text text' : String) :
    (read dialect directive text body).unstyled =
      (read dialect directive' text' body').unstyled := by
  cases dialect with
  | flowchart =>
      simp only [read, Flowchart.statements, h, Flowchart.Chart.toDiagram, Diagram.unstyled_restyle]
      rfl
  | sequence =>
      simp only [read, Sequence.statements, h, Diagram.unstyled,
        Sequence.Conversation.toDiagram, List.map_map]
      rfl
  | entityRelation =>
      simp only [read, Entity.Schema.ofText, h, Diagram.unstyled, Entity.Schema.toDiagram,
        List.map_map]
      rfl

/-- Texts with the same lines that count, their blocks aside, describe the same but for the
presentation. -/
theorem parse_congr {text text' : String} {d : Diagram} (hread : parse text = .ok d)
    (h : significantLines (strip text.toList) = significantLines (strip text'.toList)) :
    ∃ d', parse text' = .ok d' ∧ d'.unstyled = d.unstyled := by
  have hdialect : dialect? (strip text'.toList) = dialect? (strip text.toList) :=
    (dialect?_congr (by rwa [strip_strip, strip_strip])).symm
  unfold parse at hread ⊢
  dsimp only at hread ⊢
  rw [hdialect]
  cases hd : dialect? (strip text.toList) with
  | none =>
      rw [hd] at hread
      cases hread
  | some dialect =>
      rw [hd] at hread
      cases hread
      exact ⟨_, rfl, unstyled_read h.symm dialect _ _ _ _⟩

/-! ### A block between two lines -/

/-- The text is empty or ends with a line break. -/
def EndsLine (cs : List Char) : Prop :=
  cs = [] ∨ cs.getLast? = some '\n'

def lineBreaks : List (List Char) :=
  [['\n'], ['\r', '\n']]

/-- A directive block with a line break behind it, between two texts. -/
def insertBlock (front body lineBreak back : List Char) : List Char :=
  front ++ (opening ++ (body ++ closing ++ (lineBreak ++ back)))

/-- Behind a line break, lines are read as if they stood alone. -/
theorem significantLines_append_of_endsLine {front : List Char} (hfront : EndsLine front)
    (back : List Char) :
    significantLines (front ++ back) = significantLines front ++ significantLines back := by
  rcases hfront with rfl | hlast
  · rfl
  · obtain ⟨line, rfl⟩ := List.getLast?_eq_some_iff.mp hlast
    rw [List.append_assoc, List.singleton_append, significantLines_append, significantLines_append,
      significantLines_nil, List.append_nil]

/-- A line break does nothing to the text behind it. -/
theorem break_append {lineBreak back : List Char} (hbreak : lineBreak ∈ lineBreaks)
    (hback : ¬ opening <:+: back) :
    ¬ opening <:+: lineBreak ++ back ∧
      significantLines (lineBreak ++ back) = significantLines back := by
  have hcons : ∀ {c : Char} {cs : List Char}, isBlank c = true → ¬ opening <:+: cs →
      ¬ opening <:+: c :: cs := by
    intro c cs hc hcs hin
    rcases List.infix_cons_iff.mp hin with h | h
    · obtain ⟨rfl, -⟩ := List.cons_prefix_cons.mp h
      exact absurd hc (by decide)
    · exact hcs h
  have hfeed : isBlank '\n' = true := by decide
  have hreturn : isBlank '\r' = true := by decide
  simp only [lineBreaks, List.mem_cons, List.not_mem_nil, or_false] at hbreak
  rcases hbreak with rfl | rfl
  · exact ⟨hcons hfeed hback, significantLines_cons hfeed back⟩
  · refine ⟨hcons hreturn (hcons hfeed hback), ?_⟩
    exact (significantLines_cons hreturn _).trans (significantLines_cons hfeed back)

/-- A block at the beginning of a line is the one that is read, if nothing opens one before it and
nothing closes it early. -/
theorem block?_insertBlock {front body lineBreak back : List Char} (hfront : EndsLine front)
    (hopen : ¬ opening <:+: front) (hclose : ¬ closing <:+: body) :
    block? (insertBlock front body lineBreak back) = some ⟨front, body, lineBreak ++ back⟩ := by
  have hstart :
      block? (insertBlock [] body lineBreak back) = some ⟨[], body, lineBreak ++ back⟩ := by
    have hcut : cut? closing (body ++ closing ++ (lineBreak ++ back)) =
        some (body, lineBreak ++ back) :=
      cut?_append (by decide) hclose
    exact block?_iff_cuts.mpr ⟨_, cut?_append_self (by decide) _, hcut⟩
  rcases hfront with rfl | hlast
  · exact hstart
  · obtain ⟨line, rfl⟩ := List.getLast?_eq_some_iff.mp hlast
    have hline : ¬ opening <:+: line := fun h => hopen (h.trans (List.prefix_append _ _).isInfix)
    rw [insertBlock, List.append_assoc, List.singleton_append, block?_append_break hline]
    rw [insertBlock, List.nil_append] at hstart
    rw [hstart]
    rfl

/-- A block on a line of its own leaves the lines that count as they are without it. -/
theorem significantLines_strip_insertBlock {front body lineBreak back : List Char}
    (hfront : EndsLine front) (hopen : ¬ opening <:+: front ++ back)
    (hclose : ¬ closing <:+: body) (hbreak : lineBreak ∈ lineBreaks) :
    significantLines (strip (insertBlock front body lineBreak back)) =
      significantLines (strip (front ++ back)) := by
  have hopenFront : ¬ opening <:+: front :=
    fun h => hopen (h.trans (List.prefix_append _ _).isInfix)
  have hopenBack : ¬ opening <:+: back :=
    fun h => hopen (h.trans (List.suffix_append _ _).isInfix)
  obtain ⟨hopenAfter, hlines⟩ := break_append hbreak hopenBack
  have hafter : blankOut (lineBreak ++ back) = lineBreak ++ back :=
    blankOut_of_block?_eq_none (block?_eq_none_iff.mpr fun h => hopenAfter h.opening_isInfix)
  have hblank : blankOut (insertBlock front body lineBreak back) =
      front ++ '\n' :: (lineBreak ++ back) := by
    rw [blankOut_of_block?_eq_some (block?_insertBlock hfront hopenFront hclose), hafter]
  calc
    significantLines (strip (insertBlock front body lineBreak back))
        = significantLines (front ++ '\n' :: (lineBreak ++ back)) := by
          rw [strip, significantLines_trim, hblank]
    _ = significantLines front ++ significantLines back := by
          rw [significantLines_append, hlines]
    _ = significantLines (front ++ back) := (significantLines_append_of_endsLine hfront back).symm
    _ = significantLines (strip (front ++ back)) := by
          rw [strip_of_not_hasBlock fun h => hopen h.opening_isInfix, significantLines_trim]

/-! ### The drawing -/

/-- A directive block with a line break behind it, put into a text without blocks at the beginning
of a line, whatever the block says: the text is still read, as the same diagram but for the
presentation, and drawn as the same elements with the same texts but for the colours of frames,
shapes and separators. -/
theorem draw_insertBlock {α : Type} [Scalar α] (g : Generator) (s : Settings α)
    {front body lineBreak back : List Char} {d : Diagram}
    (hread : parse (String.ofList (front ++ back)) = .ok d)
    (hopen : ¬ opening <:+: front ++ back) (hfront : EndsLine front)
    (hclose : ¬ closing <:+: body) (hbreak : lineBreak ∈ lineBreaks) :
    ∃ d', parse (String.ofList (insertBlock front body lineBreak back)) = .ok d' ∧
      d'.unstyled = d.unstyled ∧
      ∃ scene scene', draw g s (String.ofList (front ++ back)) = .ok scene ∧
        draw g s (String.ofList (insertBlock front body lineBreak back)) = .ok scene' ∧
        scene'.uncoloured = scene.uncoloured ∧ scene'.texts = scene.texts := by
  have hlines := significantLines_strip_insertBlock hfront hopen hclose hbreak
  obtain ⟨d', hread', hsame⟩ :
      ∃ d', parse (String.ofList (insertBlock front body lineBreak back)) = .ok d' ∧
        d'.unstyled = d.unstyled := by
    apply parse_congr hread
    rw [String.toList_ofList, String.toList_ofList, hlines]
  have hscene : (Scene.ofDiagram g s d').uncoloured = (Scene.ofDiagram g s d).uncoloured := by
    rw [← Scene.uncoloured_ofDiagram_unstyled, hsame, Scene.uncoloured_ofDiagram_unstyled]
  refine ⟨d', hread', hsame, Scene.ofDiagram g s d, Scene.ofDiagram g s d', ?_, ?_, hscene, ?_⟩
  · rw [draw, hread]
    rfl
  · rw [draw, hread']
    rfl
  · rw [← Scene.texts_uncoloured, hscene, Scene.texts_uncoloured]

/-- A chart of two nodes, with the line break at which a block may be put in. -/
def pairFront : List Char :=
  "graph LR\n".toList

def pairBack : List Char :=
  "A --> B".toList

def pairBody : List Char :=
  "init: \x7b'theme': 'dark', 'styles': \x7b'A': 'db'\x7d\x7d".toList

def pairDiagram : Diagram where
  dialect := .flowchart
  direction := .lr
  nodes := [.bare "A", .bare "B"]
  edges := [{ source := "A", target := "B", stroke := some .solid }]
  text := "graph LR\nA --> B"

/-- A block that recolours a node of a chart, put in behind its first line. -/
theorem draw_pair_insertBlock :
    ∃ d', parse (String.ofList (insertBlock pairFront pairBody ['\n'] pairBack)) = .ok d' ∧
      d'.unstyled = pairDiagram.unstyled ∧
      ∃ scene scene' : Scene Rat,
        draw .keystream .standard (String.ofList (pairFront ++ pairBack)) = .ok scene ∧
        draw .keystream .standard (String.ofList (insertBlock pairFront pairBody ['\n'] pairBack)) =
          .ok scene' ∧
        scene'.uncoloured = scene.uncoloured ∧ scene'.texts = scene.texts := by
  have hread : parse (String.ofList (pairFront ++ pairBack)) = .ok pairDiagram := by decide +kernel
  have hopen : ¬ opening <:+: pairFront ++ pairBack := by decide
  have hclose : ¬ closing <:+: pairBody := by decide
  exact draw_insertBlock .keystream .standard hread hopen (Or.inr rfl) hclose List.mem_cons_self

end Whiteboard.Document
