import Whiteboard.Proofs.Flowchart.Chain
import Whiteboard.Proofs.Flowchart.Path

/-!
The two ways of writing the label of a connector.

A label may stand between the two halves of a connector or behind it between bars (`Spelling`). Both
are read as the same connector with the same label (`link?_spelled`), and as both begin with the
same two characters, a path that comes to the one comes to the other. The keywords of a line end in
front of these characters. So a line is read as the same statement in either spelling, whichever hop
of its path is written in it (`ofLine?_spelled`).
-/

namespace Whiteboard.Flowchart

open Text

/-- A connector in two halves around its label, and the token it has in front of bars. -/
structure Spelling where
  opening : List Char
  closing : List Char
  token : List Char
deriving DecidableEq, Repr

def spellings : List Spelling :=
  [⟨"--".toList, "-->".toList, "-->".toList⟩,
   ⟨"--".toList, "---".toList, "---".toList⟩,
   ⟨"-.".toList, ".->".toList, "-.->".toList⟩,
   ⟨"-.".toList, ".-".toList, "-.-".toList⟩,
   ⟨"==".toList, "==>".toList, "==>".toList⟩,
   ⟨"==".toList, "===".toList, "===".toList⟩]

namespace Spelling

/-- The connector around a label, with single spaces between them. -/
def around (s : Spelling) (text : List Char) : List Char :=
  s.opening ++ ' ' :: (text ++ ' ' :: s.closing)

def before (s : Spelling) (text : List Char) : List Char :=
  s.token ++ barred text

end Spelling

/-- The spellings are those that the forms allow. -/
theorem exists_form : ∀ s ∈ spellings, ∃ form ∈ inlineForms, ∃ p ∈ form.closings,
    s.opening = form.opening ∧ s.closing = p.1 ∧ s.token = p.2.token ∧
      p.2 ∈ connectors.map Prod.snd := by
  decide

/-- No closing of a form is left out. -/
theorem exists_spelling : ∀ form ∈ inlineForms, ∀ p ∈ form.closings, ∃ s ∈ spellings,
    s.opening = form.opening ∧ s.closing = p.1 := by
  decide

/-! ### Reading the connector and its label -/

section Form

variable {form : InlineForm}

/-- A closing is sought behind a text without one and a character that is in none. -/
theorem closed?_append_cons {x : Char} (hx : ∀ p ∈ form.closings, x ∉ p.1) {text : List Char}
    (htext : ∀ p ∈ form.closings, ¬ p.1 <:+: text) (rest : List Char) :
    closed? form (text ++ x :: rest) =
      (closed? form rest).map fun ((inner, k), left) => ((text ++ x :: inner, k), left) := by
  have hnone : ∀ cs, (∀ p ∈ form.closings, ¬ p.1 <:+: cs) →
      token? form.closings (cs ++ x :: rest) = none := by
    intro cs hcs
    rw [token?, List.findSome?_eq_none_iff]
    intro p hp
    rw [Option.map_eq_none_iff, strip?_eq_none_iff]
    intro hbegins
    rcases isPrefix_or_concat_isPrefix hbegins with h | h
    · exact hcs p hp h.isInfix
    · exact hx p hp (h.subset (List.mem_append_right cs (List.mem_singleton_self x)))
  induction text with
  | nil =>
      have hfirst : token? form.closings (x :: rest) = none := hnone [] htext
      rw [List.nil_append, closed?_cons, hfirst, Option.map_none, Option.none_or]
      rfl
  | cons y text ih =>
      have hbehind := ih fun p hp => not_infix_of_cons (htext p hp)
      rw [List.cons_append, closed?_cons, ← List.cons_append, hnone _ htext, Option.map_none,
        Option.none_or, hbehind, Option.map_map]
      rfl

theorem space_not_mem_closings : ∀ form ∈ inlineForms, ∀ p ∈ form.closings, ' ' ∉ p.1 := by
  decide

/-- A closing is read as it is written, unless an arrow head behind it makes it longer. -/
theorem closed?_closing (hform : form ∈ inlineForms) {p : List Char × Connector}
    (hp : p ∈ form.closings) {rest : List Char} (hrest : rest.head? ≠ some '>') :
    closed? form (p.1 ++ rest) = some (([], p.2), rest) := by
  have hstrip : ∀ {token : List Char}, strip? ('>' :: token) rest = none := by
    intro token
    rw [strip?_eq_none_iff]
    rintro ⟨left, rfl⟩
    exact hrest rfl
  simp only [inlineForms, List.mem_cons, List.not_mem_nil, or_false] at hform
  rcases hform with rfl | rfl | rfl <;>
    (simp only [List.mem_cons, List.not_mem_nil, or_false] at hp
     rcases hp with rfl | rfl <;> simp [closed?, closedBy?, token?, strip?, hstrip])

/-- The opening of a form with a space behind it is no connector on its own. -/
theorem connector?_opening (hform : form ∈ inlineForms) (cs : List Char) :
    connector? (form.opening ++ ' ' :: cs) = none := by
  have hall : ∀ form ∈ inlineForms, connector? (form.opening ++ ' ' :: cs) = none := by
    simp [inlineForms, connector?, token?, connectors, strip?, skipGap, isGap]
  exact hall form hform

theorem skipGap_opening (hform : form ∈ inlineForms) (cs : List Char) :
    skipGap (form.opening ++ cs) = form.opening ++ cs := by
  have hall : ∀ form ∈ inlineForms, skipGap (form.opening ++ cs) = form.opening ++ cs := by
    simp [inlineForms, skipGap, isGap]
  exact hall form hform

/-- Single spaces around a text do not matter to what is between its quotes. -/
theorem unquote_spaced (text : List Char) : unquote (' ' :: (text ++ [' '])) = unquote text := by
  rw [unquote, trim_cons rfl, trim_concat rfl, unquote]

variable {p : List Char × Connector} {text rest : List Char}

/-- A label is read up to its closing. -/
theorem spaced?_closing (hform : form ∈ inlineForms) (hp : p ∈ form.closings)
    (htext : ∀ q ∈ form.closings, ¬ q.1 <:+: text) (hrest : rest.head? ≠ some '>') :
    spaced? form (' ' :: (text ++ ' ' :: (p.1 ++ rest))) =
      some ((p.2, normalizeBreaks (unquote text)), rest) := by
  have hspace := space_not_mem_closings form hform
  have hnil : ∀ q ∈ form.closings, ¬ q.1 <:+: [] :=
    fun q hq h => htext q hq (h.trans (List.nil_infix))
  have hclosed : closed? form (' ' :: (text ++ ' ' :: (p.1 ++ rest))) =
      some ((' ' :: (text ++ [' ']), p.2), rest) := by
    have hfirst := closed?_append_cons hspace hnil (text ++ ' ' :: (p.1 ++ rest))
    rw [List.nil_append] at hfirst
    rw [hfirst, closed?_append_cons hspace htext, closed?_closing hform hp hrest]
    rfl
  have hblank : (' ' :: (text ++ ' ' :: (p.1 ++ rest))).head?.any isBlank = true := rfl
  rw [spaced?, if_pos hblank, hclosed, Option.map_some]
  dsimp only
  rw [unquote_spaced]

/-- A connector around its label is read as a link. -/
theorem link?_form (hform : form ∈ inlineForms) (hp : p ∈ form.closings)
    (htext : ∀ q ∈ form.closings, ¬ q.1 <:+: text) (hrest : rest.head? ≠ some '>') :
    link? (form.opening ++ ' ' :: (text ++ ' ' :: (p.1 ++ rest))) =
      some ((p.2, link?.labelOf (normalizeBreaks (unquote text))), rest) := by
  have hinline := inlineLabel?_of_opening hform (skipGap_opening hform _)
    (spaced?_closing hform hp htext hrest)
  rw [link?_eq, andThen?, connector?_opening hform, Option.map_none, Option.none_or, hinline]
  rfl

/-- A connector with a label between bars is read as a link. -/
theorem link?_barred {k : Connector} (hk : k ∈ connectors.map Prod.snd) (htext : '|' ∉ text) :
    link? (k.token ++ '|' :: (text ++ '|' :: rest)) =
      some ((k, link?.labelOf (normalizeBreaks (unquote text))), rest) := by
  have hconnector : connector? (k.token ++ '|' :: (text ++ '|' :: rest)) =
      some (k, '|' :: (text ++ '|' :: rest)) :=
    connector?_token hk (by decide) _
  have hlabel : barLabel? ('|' :: (text ++ '|' :: rest)) =
      some (normalizeBreaks (unquote text), rest) :=
    barLabel?_append htext rfl
  rw [link?_eq, andThen?, hconnector, Option.map_some]
  dsimp only
  rw [hlabel]
  rfl

end Form

/-- There is no label if nothing is left of its text without the blanks and quotes around it. -/
theorem labelOf_eq_none_iff {text : List Char} :
    link?.labelOf (normalizeBreaks (unquote text)) = none ↔ unquote text = [] := by
  rw [link?.labelOf, ite_eq_left_iff, List.isEmpty_iff, normalizeBreaks_eq_nil_iff]
  simp

/-- Both spellings are read as the same connector with the same label. -/
theorem link?_spelled {s : Spelling} (hs : s ∈ spellings) {text rest : List Char}
    (hbar : '|' ∉ text)
    (hclosing : ∀ s' ∈ spellings, s'.opening = s.opening → ¬ s'.closing <:+: text)
    (hrest : rest.head? ≠ some '>') :
    ∃ k, link? (s.around text ++ rest) =
        some ((k, link?.labelOf (normalizeBreaks (unquote text))), rest) ∧
      link? (s.before text ++ rest) =
        some ((k, link?.labelOf (normalizeBreaks (unquote text))), rest) := by
  obtain ⟨form, hform, p, hp, hopening, hend, htoken, hk⟩ := exists_form s hs
  have htext : ∀ q ∈ form.closings, ¬ q.1 <:+: text := by
    intro q hq
    obtain ⟨s', hs', hopening', hend'⟩ := exists_spelling form hform q hq
    rw [← hend']
    exact hclosing s' hs' (hopening'.trans hopening.symm)
  have haround : s.around text ++ rest =
      form.opening ++ ' ' :: (text ++ ' ' :: (p.1 ++ rest)) := by
    rw [Spelling.around, hopening, hend]
    simp
  have hbefore : s.before text ++ rest = p.2.token ++ '|' :: (text ++ '|' :: rest) := by
    rw [Spelling.before, htoken, barred]
    simp
  rw [haround, hbefore]
  exact ⟨p.2, link?_form hform hp htext hrest, link?_barred hk hbar⟩

/-! ### Keywords in front of a border -/

/-- A mark that stands inside a word and that no keyword has in it. -/
structure IsBorder (c d : Char) : Prop extends IsMark c d where
  ends : endsKeyword c = false ∧ endsKeyword d = false
  letter : c.isAlpha = false
  keyword : ∀ w ∈ "end".toList :: reservedWords, ¬ [c.toLower, d.toLower] <:+: lower w

/-- Both spellings begin with the same border. -/
theorem exists_border {s : Spelling} (hs : s ∈ spellings) : ∃ c d, IsBorder c d ∧
    ∀ text, (∃ back, s.around text = c :: d :: back) ∧ ∃ back, s.before text = c :: d :: back := by
  simp only [spellings, List.mem_cons, List.not_mem_nil, or_false] at hs
  rcases hs with rfl | rfl | rfl | rfl | rfl | rfl
  all_goals
    refine ⟨_, _, ⟨⟨rfl, rfl, rfl, ?_, ?_, rfl⟩, ⟨rfl, rfl⟩, rfl, ?_⟩,
      fun text => ⟨⟨_, rfl⟩, _, rfl⟩⟩
    all_goals decide

theorem endsSolid_around {s : Spelling} (hs : s ∈ spellings) (text : List Char) :
    EndsSolid (s.around text) := by
  have hclosing : EndsSolid s.closing := by
    simp only [spellings, List.mem_cons, List.not_mem_nil, or_false] at hs
    rcases hs with rfl | rfl | rfl | rfl | rfl | rfl <;> exact ⟨_, rfl, by decide⟩
  rw [Spelling.around, List.append_cons, ← List.append_assoc, List.append_cons]
  exact hclosing.append _

theorem endsSolid_before (s : Spelling) (text : List Char) : EndsSolid (s.before text) :=
  have hbar : EndsSolid ['|'] := ⟨_, rfl, by decide⟩
  (hbar.append ('|' :: text)).append s.token

section Border

variable {c d : Char}

/-- A text with a border in it is none of the words that make another statement. -/
theorem sameLetters_of_border (border : IsBorder c d) {w : List Char}
    (hw : w ∈ "end".toList :: reservedWords) (front back : List Char) :
    sameLetters (front ++ c :: d :: back) w = false := by
  rw [sameLetters, beq_eq_false_iff_ne]
  intro heq
  apply border.keyword w hw
  rw [← heq]
  exact ⟨lower front, lower back, by simp [lower]⟩

/-- A word ends in front of the border, or it has the border in it. -/
theorem word_cases {p : Char → Bool} (hc : p c = true) (hd : p d = true) (front : List Char) :
    (∀ back, (front ++ c :: d :: back).takeWhile p = front ++ c :: d :: back.takeWhile p) ∨
      ∀ back, (front ++ c :: d :: back).takeWhile p = front.takeWhile p ∧
        (front ++ c :: d :: back).dropWhile p = front.dropWhile p ++ c :: d :: back := by
  by_cases hall : ∀ x ∈ front, p x = true
  · left
    intro back
    rw [List.takeWhile_append_of_pos hall, List.takeWhile_cons_of_pos hc,
      List.takeWhile_cons_of_pos hd]
  · right
    intro back
    have hlength : (front.takeWhile p).length ≠ front.length := fun h =>
      hall (List.takeWhile_eq_self_iff.mp ((List.takeWhile_prefix p).eq_of_length h))
    have hdrop : ¬ (front.dropWhile p).isEmpty = true := by
      rw [List.isEmpty_iff, List.dropWhile_eq_nil_iff]
      exact hall
    rw [List.takeWhile_append, if_neg hlength, List.dropWhile_append, if_neg hdrop]
    exact ⟨rfl, rfl⟩

/-- The first word of a line is a keyword or not whatever stands behind the border. -/
theorem sameLetters_takeWhile (border : IsBorder c d) {w : List Char}
    (hw : w ∈ "end".toList :: reservedWords) {p : Char → Bool} (hc : p c = true) (hd : p d = true)
    (front back back' : List Char) :
    sameLetters ((front ++ c :: d :: back).takeWhile p) w =
      sameLetters ((front ++ c :: d :: back').takeWhile p) w := by
  rcases word_cases hc hd front with hword | hword
  · rw [hword, hword, sameLetters_of_border border hw, sameLetters_of_border border hw]
  · rw [(hword _).1, (hword _).1]

theorem sameLetters_firstWord (border : IsBorder c d) {w : List Char}
    (hw : w ∈ "end".toList :: reservedWords) (front back back' : List Char) :
    sameLetters (firstWord (front ++ c :: d :: back)) w =
      sameLetters (firstWord (front ++ c :: d :: back')) w := by
  have hd : (!isBlank d) = true := by rw [(endsKeyword_eq_false.mp border.ends.2).1, Bool.not_false]
  exact sameLetters_takeWhile border hw (by rw [border.blank, Bool.not_false]) hd front back back'

/-- Whether a line opens with a keyword is told in front of a border. -/
theorem isSome_stripKeyword?_behind (border : IsBorder c d) {w : List Char} (hw : w ∈ reservedWords)
    (front back back' : List Char) :
    (stripKeyword? w (front ++ c :: d :: back)).isSome =
      (stripKeyword? w (front ++ c :: d :: back')).isSome := by
  have hword : ∀ w ∈ reservedWords, IsRun (!isBlank ·) w := by decide
  rw [isSome_stripKeyword? (hword w hw), isSome_stripKeyword? (hword w hw)]
  exact sameLetters_firstWord border (List.mem_cons_of_mem _ hw) front back back'

/-- A header is told by its keyword, and its direction by the letters behind it. -/
theorem header?_eq (line : List Char) :
    header? line =
      if isHeaderKeyword (keyword line) then
        some ((Direction.ofToken? ((splitHeader line).2.takeWhile Char.isAlpha)).getD .td)
      else none := by
  simp only [header?, direction?, keyword, Option.map_map, Function.comp_def, Option.map_id']
  rfl

/-- A line is a header with the same direction whatever stands behind the border. -/
theorem header?_behind (border : IsBorder c d) (front back back' : List Char) :
    header? (front ++ c :: d :: back) = header? (front ++ c :: d :: back') := by
  have hc : (!endsKeyword c) = true := by rw [border.ends.1, Bool.not_false]
  have hd : (!endsKeyword d) = true := by rw [border.ends.2, Bool.not_false]
  rw [header?_eq, header?_eq]
  rcases word_cases (p := (!endsKeyword ·)) hc hd front with hword | hword
  · have hnone : ∀ back, isHeaderKeyword (keyword (front ++ c :: d :: back)) = false := by
      intro back
      have hkeyword : keyword (front ++ c :: d :: back) = _ := hword back
      rw [hkeyword, isHeaderKeyword, List.any_eq_false]
      intro w hw
      have hreserved : w ∈ "end".toList :: reservedWords :=
        List.mem_cons_of_mem _ (List.mem_append_left _ hw)
      simp [sameLetters_of_border border hreserved]
    rw [hnone, hnone]
    rfl
  · have hbehind : ∀ back, ((splitHeader (front ++ c :: d :: back)).2).takeWhile Char.isAlpha =
        ((front.dropWhile (!endsKeyword ·)).dropWhile endsKeyword).takeWhile Char.isAlpha := by
      intro back
      rw [splitHeader]
      dsimp only
      rw [drop_length_takeWhile, (hword back).2, dropWhile_append_of_head?,
        takeWhile_append_of_head?]
      · rintro x ⟨⟩
        exact border.letter
      · rintro x ⟨⟩
        exact border.ends.1
    have hkeyword : ∀ back, keyword (front ++ c :: d :: back) = front.takeWhile (!endsKeyword ·) :=
      fun back => (hword back).1
    rw [hbehind, hbehind, hkeyword, hkeyword]

/-- A line says the same whatever stands behind the border, if its path is the same. -/
theorem ofLine?_behind (border : IsBorder c d) {line line' front back back' : List Char}
    (hline : trimLine line = front ++ c :: d :: back)
    (hline' : trimLine line' = front ++ c :: d :: back')
    (hword : sameLetters (firstWord (front ++ c :: d :: back)) "subgraph".toList = false)
    (hpath : path? (front ++ c :: d :: back) = path? (front ++ c :: d :: back')) :
    Statement.ofLine? line = Statement.ofLine? line' := by
  have hend : ∀ back, sameLetters (front ++ c :: d :: back) "end".toList = false :=
    fun back => sameLetters_of_border border List.mem_cons_self front back
  have hsubgraph : stripKeyword? "subgraph".toList (front ++ c :: d :: back) = none :=
    stripKeyword?_eq_none (by decide) hword
  have hsubgraph' : stripKeyword? "subgraph".toList (front ++ c :: d :: back') = none := by
    rw [← Option.isNone_iff_eq_none, ← Option.not_isSome,
      ← isSome_stripKeyword?_behind border (by decide) front back back', hsubgraph]
    rfl
  have hignored :
      (ignoredKeywords.any fun w => (stripKeyword? w (front ++ c :: d :: back)).isSome) =
        ignoredKeywords.any fun w => (stripKeyword? w (front ++ c :: d :: back')).isSome := by
    rw [Bool.eq_iff_iff, List.any_eq_true, List.any_eq_true]
    refine exists_congr fun w => and_congr_right fun hw => ?_
    have hreserved : w ∈ reservedWords :=
      List.mem_append_right _ (List.mem_cons_of_mem _ hw)
    rw [isSome_stripKeyword?_behind border hreserved front back back']
  simp only [Statement.ofLine?, hline, hline', header?_behind border front back back', hend,
    hsubgraph, hsubgraph', hignored, hpath]

end Border

/-! ### Whole lines -/

/-- The path of a line comes to a place. A line that opens with the word for a subgraph is none. -/
structure PathComes (line place : List Char) : Prop where
  noSubgraph : sameLetters (firstWord (trimStart line)) "subgraph".toList = false
  comes : Comes (trimStart line) place

theorem trimStart_append_border {c d : Char} (border : IsBorder c d) (front back : List Char) :
    trimStart (front ++ c :: d :: back) = trimStart front ++ c :: d :: back := by
  apply dropWhile_append_of_head?
  rintro x ⟨⟩
  exact border.blank

theorem head?_ne_of_isPrefix {cs start : List Char} {x : Char} (h : start <+: cs)
    (hx : cs.head? ≠ some x) : start.head? ≠ some x := by
  intro hstart
  obtain ⟨rest, rfl⟩ := h
  exact hx (by rw [List.head?_append, hstart, Option.some_or])

/-- How a path comes to a place is told by what stands in front of it. -/
theorem PathComes.local {c d : Char} (border : IsBorder c d) {front back : List Char}
    (h : PathComes (front ++ c :: d :: back) (c :: d :: back)) (back' : List Char) :
    PathComes (front ++ c :: d :: back') (c :: d :: back') := by
  obtain ⟨hword, hcomes⟩ := h
  rw [trimStart_append_border border] at hword hcomes
  constructor
  case noSubgraph =>
    rw [trimStart_append_border border, ← hword]
    exact sameLetters_firstWord border (by decide) _ _ _
  case comes =>
    rw [trimStart_append_border border]
    exact hcomes.local border.toIsMark back'

/-- A connector means the same around its label and in front of it, if the label has neither a bar
nor a closing of the connector in it and no arrow head follows that makes the closing a longer one.
It is read as the same connector with the same label, and without one exactly if nothing is left of
the text between the blanks and quotes around it; the path of a line comes to it in either spelling
or in none; and if it does, the line is the same statement. -/
theorem ofLine?_spelled {s : Spelling} (hs : s ∈ spellings) {text : List Char} (hbar : '|' ∉ text)
    (hclosing : ∀ s' ∈ spellings, s'.opening = s.opening → ¬ s'.closing <:+: text)
    (front : List Char) {rest : List Char} (hrest : rest.head? ≠ some '>') :
    (∃ k label,
        link? (s.around text ++ rest) = some ((k, label), rest) ∧
          link? (s.before text ++ rest) = some ((k, label), rest) ∧
            label = link?.labelOf (normalizeBreaks (unquote text)) ∧
              (label = none ↔ unquote text = [])) ∧
      (PathComes (front ++ (s.around text ++ rest)) (s.around text ++ rest) ↔
        PathComes (front ++ (s.before text ++ rest)) (s.before text ++ rest)) ∧
      (PathComes (front ++ (s.around text ++ rest)) (s.around text ++ rest) →
        Statement.ofLine? (front ++ (s.around text ++ rest)) =
          Statement.ofLine? (front ++ (s.before text ++ rest))) := by
  obtain ⟨c, d, border, hbegin⟩ := exists_border hs
  obtain ⟨⟨u, hu⟩, v, hv⟩ := hbegin text
  refine ⟨?_, ?_, fun h => ?_⟩
  · obtain ⟨k, haround, hbefore⟩ := link?_spelled hs hbar hclosing hrest
    exact ⟨k, _, haround, hbefore, rfl, labelOf_eq_none_iff⟩
  · rw [hu, hv, List.cons_append, List.cons_append, List.cons_append, List.cons_append]
    exact ⟨fun h => h.local border _, fun h => h.local border _⟩
  · have haround :=
      trimLine_append front ⟨c, hu ▸ rfl, border.blank⟩ (endsSolid_around hs text) rest
    have hbefore :=
      trimLine_append front ⟨c, hv ▸ rfl, border.blank⟩ (endsSolid_before s text) rest
    have hend : (lineEnd rest).head? ≠ some '>' :=
      head?_ne_of_isPrefix (lineEnd_isPrefix rest) hrest
    obtain ⟨k, hlink, hlink'⟩ := link?_spelled hs hbar hclosing hend
    have hhop : hop? (s.around text ++ lineEnd rest) = hop? (s.before text ++ lineEnd rest) := by
      rw [hop?, hlink, hop?, hlink']
    obtain ⟨hword, hcomes⟩ := h
    simp only [hu, hv, List.cons_append] at haround hbefore hhop hword hcomes ⊢
    rw [trimStart_append_border border] at hword hcomes
    refine ofLine?_behind border haround hbefore ?_ ?_
    · rw [← hword]
      exact sameLetters_firstWord border (by decide) _ _ _
    · exact (hcomes.local border.toIsMark _).path?_eq border.toIsMark hhop

/-- A label in quotes with the closing of another connector and a line break in it. -/
def detour : List Char :=
  " \"not --> here<br>\"".toList

/-- A connector around `detour` in the middle of a path. -/
theorem ofLine?_spelled_detour :
    '|' ∉ detour ∧
      (∀ s' ∈ spellings, s'.opening = "-.".toList → ¬ s'.closing <:+: detour) ∧
      PathComes "A[x -- y]--> my-b; -.  \"not --> here<br>\" .- C --> A".toList
        "-.  \"not --> here<br>\" .- C --> A".toList ∧
      Statement.ofLine? "A[x -- y]--> my-b; -.  \"not --> here<br>\" .- C --> A".toList =
        some (.path ⟨"A", some ⟨.rectangle, "x -- y"⟩⟩
          [⟨⟨.absent, .closed, .solid⟩, none, ⟨"my-b", none⟩⟩,
           ⟨⟨.absent, .absent, .dashed⟩, some "not --> here\n", ⟨"C", none⟩⟩,
           ⟨⟨.absent, .closed, .solid⟩, none, ⟨"A", none⟩⟩]) := by
  have hbar : '|' ∉ detour := by decide
  have hclosing : ∀ s' ∈ spellings, s'.opening = "-.".toList → ¬ s'.closing <:+: detour := by
    decide
  have hcomes : PathComes "A[x -- y]--> my-b; -.  \"not --> here<br>\" .- C --> A".toList
      "-.  \"not --> here<br>\" .- C --> A".toList :=
    ⟨by decide, _, _, _, _, rfl, .hop rfl (.here _), rfl⟩
  have hspelled := @ofLine?_spelled ⟨"-.".toList, ".-".toList, "-.-".toList⟩ (by decide) detour hbar
    hclosing "A[x -- y]--> my-b; ".toList " C --> A".toList (by decide)
  exact ⟨hbar, hclosing, hcomes, (hspelled.2.2 hcomes).trans (by decide +kernel)⟩

end Whiteboard.Flowchart
