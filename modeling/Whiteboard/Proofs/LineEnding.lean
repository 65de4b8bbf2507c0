import Whiteboard.Proofs.Presentation
import Whiteboard.Proofs.Text.Return

/-!
Line endings do not matter.

A carriage return in front of a line feed is one blank more at the end of a line or between two
words of a directive. Blocks are found where they were before (`block?_withReturns`), what the first
one says is the same (`ofText_withReturns`), and so are the lines that count once the blocks are
gone. Hence a text with a carriage return in front of every line feed is read as the same diagram,
or refused with the same header (`parse_withReturns`).
-/

namespace Whiteboard

open Text

namespace Directive

/-! ### Blocks -/

/-- The block with a carriage return in front of every line feed in it and around it. -/
def Block.withReturns (b : Block) : Block where
  before := Text.withReturns b.before
  body := Text.withReturns b.body
  after := Text.withReturns b.after

/-- Carriage returns stay inside and around the block they were put in. -/
theorem block?_withReturns (cs : List Char) :
    block? (withReturns cs) = (block? cs).map Block.withReturns := by
  rw [block?_eq, cut?_withReturns (by decide) (by decide) (by decide), block?_eq]
  cases cut? opening cs with
  | none => rfl
  | some p =>
      simp only [Option.map_some, Option.bind_some]
      rw [cut?_withReturns (by decide) (by decide) (by decide)]
      cases cut? closing p.2 <;> rfl

/-- The lines that count are the same when the blocks are gone. -/
theorem significantLines_strip_withReturns (cs : List Char) :
    significantLines (strip (withReturns cs)) = significantLines (strip cs) := by
  rw [strip, strip, significantLines_trim, significantLines_trim]
  fun_induction blankOut cs with
  | case1 cs h =>
      have hnone : block? (withReturns cs) = none := by rw [block?_withReturns, h, Option.map_none]
      rw [blankOut_of_block?_eq_none hnone, significantLines_withReturns]
  | case2 cs b h ih =>
      have hsome : block? (withReturns cs) = some b.withReturns := by
        rw [block?_withReturns, h, Option.map_some]
      rw [blankOut_of_block?_eq_some hsome, significantLines_append, Block.withReturns, ih,
        significantLines_withReturns, significantLines_append]

/-! ### What a block says -/

/-- No quote is a line feed. -/
theorem dropQuote_withReturns (cs : List Char) :
    dropQuote (withReturns cs) = withReturns (dropQuote cs) := by
  fun_cases dropQuote cs with
  | case1 cs => rfl
  | case2 cs => rfl
  | case3 cs hdouble hsingle =>
      cases cs with
      | nil => rfl
      | cons c cs =>
          by_cases hc : c = '\n'
          · subst hc
            rfl
          · rw [withReturns_cons hc]
            have hdouble' : c ≠ '"' := fun e => hdouble cs (e ▸ rfl)
            have hsingle' : c ≠ '\'' := fun e => hsingle cs (e ▸ rfl)
            simp [dropQuote, hdouble', hsingle']

/-- Blanks are skipped with or without carriage returns among them. -/
theorem afterColon?_withReturns (cs : List Char) :
    afterColon? (withReturns cs) = (afterColon? cs).map withReturns := by
  unfold afterColon?
  rw [dropQuote_withReturns, trimStart_withReturns]
  cases trimStart (dropQuote cs) with
  | nil => rfl
  | cons c rest =>
      by_cases hc : c = '\n'
      · subst hc
        rfl
      · rw [withReturns_cons hc]
        by_cases hcolon : c = ':'
        · subst hcolon
          simp [trimStart_withReturns]
        · simp [hcolon]

theorem themeAt?_withReturns (cs : List Char) : themeAt? (withReturns cs) = themeAt? cs := by
  have hstrip := @strip?_withReturns "theme".toList (by decide) (by decide)
  have hrun := @run?_withReturns isTokenChar rfl rfl
  simp only [themeAt?, Option.bind_eq_bind, hstrip, afterColon?_withReturns,
    dropQuote_withReturns, hrun, Option.bind_map, Function.comp_def]

theorem stylesAt?_withReturns (cs : List Char) :
    stylesAt? (withReturns cs) = (stylesAt? cs).map withReturns := by
  have hstyles := @strip?_withReturns "styles".toList (by decide) (by decide)
  have hopen := @strip?_withReturns ['{'] (by decide) (by decide)
  have hclose := @strip?_withReturns ['}'] (by decide) (by decide)
  have htake := @takeWhile_withReturns (fun c => c != '{' && c != '}') rfl
  have hdrop := @dropWhile_withReturns (fun c => c != '{' && c != '}') rfl
  simp only [stylesAt?, Option.bind_eq_bind, hstyles, afterColon?_withReturns, hopen, htake,
    drop_length_takeWhile, hdrop, hclose, Option.bind_map, Option.map_bind, Function.comp_def,
    Option.map_some]

/-- A pair is read from the same characters. -/
theorem pairAt?_withReturns (cs : List Char) :
    pairAt? (withReturns cs) = (pairAt? cs).map fun (p, rest) => (p, withReturns rest) := by
  have hid := @run?_withReturns isIdChar rfl rfl
  have htoken := @run?_withReturns isTokenChar rfl rfl
  simp only [pairAt?, Option.bind_eq_bind, hid, afterColon?_withReturns, dropQuote_withReturns,
    htoken, Option.bind_map, Option.map_bind, Function.comp_def, Option.map_some]

theorem pairs_withReturns (cs : List Char) : pairs (withReturns cs) = pairs cs := by
  fun_induction pairs cs with
  | case1 cs p rest h ih =>
      have hpair : pairAt? (withReturns cs) = some (p, withReturns rest) := by
        rw [pairAt?_withReturns, h, Option.map_some]
      rw [pairs_of_pairAt? hpair, ih]
  | case2 => exact pairs_nil
  | case3 c cs h ih =>
      by_cases hc : c = '\n'
      · subst hc
        rw [withReturns_break, pairs_cons rfl, pairs_cons rfl, ih]
      · have hnone : pairAt? (c :: withReturns cs) = none := by
          rw [← withReturns_cons hc, pairAt?_withReturns, h, Option.map_none]
        rw [withReturns_cons hc, pairs_cons_of_pairAt?_eq_none hnone, ih]

/-- A block says the same in both spellings of its line ends. -/
theorem ofBody_withReturns (body : List Char) : ofBody (withReturns body) = ofBody body := by
  have htheme : firstAt? themeAt? (withReturns body) = (firstAt? themeAt? body).map id := by
    refine firstAt?_withReturns (fun c cs hc => ?_) (fun cs => ?_) body
    · apply themeAt?_cons
      rintro rfl
      cases hc
    · rw [themeAt?_withReturns, Option.map_id, id]
  have hstyles : firstAt? stylesAt? (withReturns body) =
      (firstAt? stylesAt? body).map withReturns := by
    refine firstAt?_withReturns (fun c cs hc => ?_) stylesAt?_withReturns body
    apply stylesAt?_cons
    rintro rfl
    cases hc
  have hpairs : ∀ inside : Option (List Char),
      pairs ((inside.map withReturns).getD []) = pairs (inside.getD []) := by
    intro inside
    cases inside with
    | none => rfl
    | some cs => exact pairs_withReturns cs
  rw [ofBody, htheme, hstyles, hpairs, Option.map_id, id, ofBody]

/-- What the first block says does not depend on how lines end. -/
theorem ofText_withReturns (cs : List Char) : ofText (withReturns cs) = ofText cs := by
  rw [ofText, block?_withReturns, ofText]
  cases block? cs with
  | none => rfl
  | some b => exact ofBody_withReturns b.body

end Directive

/-! ### Documents -/

namespace Document

open Directive

/-- The text with a carriage return in front of every line feed. -/
def withReturns (text : String) : String :=
  String.ofList (Text.withReturns text.toList)

/-- Texts with the same lines that count are read as the same diagram, but for the text itself. -/
theorem read_congr {body body' : List Char} (h : significantLines body' = significantLines body)
    (dialect : Dialect) (directive : Directive) (text text' : String) :
    read dialect directive text' body' =
      { read dialect directive text body with text := text' } := by
  cases dialect with
  | flowchart => rw [read, Flowchart.statements, h]; rfl
  | sequence => rw [read, Sequence.statements, h]; rfl
  | entityRelation => rw [read, Entity.Schema.ofText, h]; rfl

/-- A text with a carriage return in front of every line feed is refused where the text itself is,
with the same header, and otherwise read as the same diagram: the language, the direction, the nodes
with their styles, the edges, the subgraphs and the directive are the same. -/
theorem parse_withReturns (text : String) :
    parse (withReturns text) =
      (parse text).map fun d => { d with text := withReturns text } := by
  have hchars : (withReturns text).toList = Text.withReturns text.toList := String.toList_ofList
  have hlines := significantLines_strip_withReturns text.toList
  have hheader : header? (strip (Text.withReturns text.toList)) = header? (strip text.toList) := by
    rw [header?, hlines, header?]
  have hdialect : dialect? (strip (Text.withReturns text.toList)) = dialect? (strip text.toList) :=
    dialect?_congr (by rw [strip_strip, strip_strip, hlines])
  rw [parse, parse, hchars, hdialect, hheader, ofText_withReturns]
  cases dialect? (strip text.toList) with
  | none => rfl
  | some dialect => exact congrArg Except.ok (read_congr hlines dialect _ text _)

end Document

end Whiteboard
