import Mathlib.Data.List.Induction
import Whiteboard.Proofs.Text.Blank
import Whiteboard.Proofs.Text.Search
import Whiteboard.Text.Line

/-!
The lines that count, and what is left of a label.

A line break keeps the lines before and behind it apart (`significantLines_append`), so that lines
can be counted one by one (`line_induction`); blanks at the ends of a text never make a line that
counts (`significantLines_trim`). A keyword opens a line only as its first word
(`stripKeyword?_eq_none`). A label stays as it is if it has no quotes around it
(`unquote_eq_self`) and no line break tag in it (`normalizeBreaks_eq_self`).
-/

namespace Whiteboard.Text

/-- Every text is one line, or a line and a break before another text. -/
theorem line_induction {motive : List Char → Prop} (line : ∀ l, '\n' ∉ l → motive l)
    (more : ∀ l cs, '\n' ∉ l → motive cs → motive (l ++ '\n' :: cs)) (cs : List Char) :
    motive cs := by
  by_cases h : '\n' ∈ cs
  · obtain ⟨l, rest, hcs, hl⟩ := List.eq_append_cons_of_mem h
    have hlt : rest.length < cs.length := by
      rw [hcs, List.length_append, List.length_cons]
      omega
    rw [hcs]
    exact more l rest hl (line_induction line more rest)
  · exact line cs h
termination_by cs.length

def counts (line : List Char) : Bool :=
  !line.isEmpty && (strip? ['%', '%'] line).isNone

/-- Lines in front of a line break and behind it are read apart. -/
theorem significantLines_append (a b : List Char) :
    significantLines (a ++ '\n' :: b) = significantLines a ++ significantLines b := by
  have hsplit : (a ++ '\n' :: b).splitOn '\n' = a.splitOn '\n' ++ b.splitOn '\n' :=
    List.splitOnP_append_cons a b (beq_self_eq_true '\n')
  rw [significantLines, hsplit, List.map_append, List.filter_append]
  rfl

/-- One line counts if it does without the blanks around it. -/
theorem significantLines_line {l : List Char} (h : '\n' ∉ l) :
    significantLines l = [trim l].filter counts := by
  have hsplit : l.splitOn '\n' = [l] := by
    apply List.splitOnP_eq_singleton
    intro c hc
    exact beq_false_of_ne fun e => h (e ▸ hc)
  rw [significantLines, hsplit]
  rfl

@[simp] theorem significantLines_nil : significantLines [] = [] := rfl

theorem significantLines_break (cs : List Char) :
    significantLines ('\n' :: cs) = significantLines cs :=
  significantLines_append [] cs

/-- A line that counts is one line. -/
theorem break_not_mem_of_mem {cs line : List Char} (h : line ∈ significantLines cs) :
    '\n' ∉ line := by
  have hline : ∀ {l : List Char}, '\n' ∉ l → line ∈ significantLines l → '\n' ∉ line := by
    intro l hl h
    rw [significantLines_line hl] at h
    rw [List.mem_singleton.mp (List.mem_of_mem_filter h)]
    exact fun hmem => hl ((trim_isInfix l).subset hmem)
  induction cs using line_induction with
  | line l hl => exact hline hl h
  | more l cs hl ih =>
      rw [significantLines_append, List.mem_append] at h
      exact h.elim (hline hl) ih

/-! ### Blanks at the ends -/

theorem significantLines_cons {c : Char} (h : isBlank c = true) (cs : List Char) :
    significantLines (c :: cs) = significantLines cs := by
  by_cases hc : c = '\n'
  · rw [hc, significantLines_break]
  · have hline : ∀ l, '\n' ∉ l → significantLines (c :: l) = significantLines l := by
      intro l hl
      have hcl : '\n' ∉ c :: l := List.not_mem_cons_of_ne_of_not_mem (Ne.symm hc) hl
      rw [significantLines_line hcl, significantLines_line hl, trim_cons h]
    induction cs using line_induction with
    | line l hl => exact hline l hl
    | more l cs hl _ =>
        rw [← List.cons_append, significantLines_append, hline l hl, significantLines_append]

theorem significantLines_concat {c : Char} (h : isBlank c = true) (cs : List Char) :
    significantLines (cs ++ [c]) = significantLines cs := by
  by_cases hc : c = '\n'
  · rw [hc, significantLines_append, significantLines_nil, List.append_nil]
  · induction cs using line_induction with
    | line l hl =>
        have hlc : '\n' ∉ l ++ [c] := by
          rw [List.mem_append, List.mem_singleton]
          exact fun hmem => hmem.elim hl fun e => hc e.symm
        rw [significantLines_line hlc, significantLines_line hl, trim_concat h]
    | more l cs _ ih =>
        rw [List.append_assoc, List.cons_append, significantLines_append, ih,
          significantLines_append]

/-- Trimming a text leaves the lines that count. -/
@[simp] theorem significantLines_trim (cs : List Char) :
    significantLines (trim cs) = significantLines cs := by
  have hstart : significantLines (trimStart cs) = significantLines cs := by
    induction cs with
    | nil => rfl
    | cons c cs ih =>
        rw [trimStart, List.dropWhile_cons]
        split
        · rename_i hc
          rw [significantLines_cons hc]
          exact ih
        · rfl
  have hend : ∀ cs, significantLines (trimEnd cs) = significantLines cs := by
    intro cs
    induction cs using List.reverseRecOn with
    | nil => rfl
    | append_singleton cs c ih =>
        by_cases hc : isBlank c = true
        · rw [trimEnd_concat hc, significantLines_concat hc, ih]
        · rw [trimEnd_eq_self_iff.mpr]
          simpa using hc
  rw [trim, hend, hstart]

/-- A line that counts has no blanks around it. -/
theorem trim_of_mem {cs line : List Char} (h : line ∈ significantLines cs) : trim line = line := by
  obtain ⟨l, -, rfl⟩ := List.mem_map.mp (List.mem_of_mem_filter h)
  exact trim_trim l

/-! ### Headers -/

def keyword (line : List Char) : List Char :=
  (splitHeader line).1

/-- A keyword holds nothing that would end it. -/
theorem endsKeyword_of_mem_keyword {line : List Char} {c : Char} (h : c ∈ keyword line) :
    endsKeyword c = false := by
  simpa using List.mem_takeWhile_imp h

/-- A keyword is its own keyword. -/
@[simp] theorem keyword_keyword (line : List Char) : keyword (keyword line) = keyword line :=
  List.takeWhile_eq_self_iff.mpr fun c hc => by
    rw [endsKeyword_of_mem_keyword hc, Bool.not_false]

@[simp] theorem trim_keyword (line : List Char) : trim (keyword line) = keyword line := by
  have hblank : ∀ c ∈ keyword line, isBlank c = false := fun c hc =>
    (Bool.or_eq_false_iff.mp (endsKeyword_of_mem_keyword hc)).1
  rw [trim_eq_self_iff]
  exact ⟨fun c hc => hblank c (List.mem_of_mem_head? hc),
    fun c hc => hblank c (List.mem_of_getLast? hc)⟩

/-- What ends a keyword does not change it. -/
theorem keyword_append {line rest : List Char} (h : ∀ c ∈ rest, endsKeyword c = true) :
    keyword (line ++ rest) = keyword line := by
  apply takeWhile_append_of_head?
  intro c hc
  rw [h c (List.mem_of_mem_head? hc), Bool.not_true]

/-! ### Keywords -/

/-- The part of a line in front of its first blank. -/
def firstWord (line : List Char) : List Char :=
  line.takeWhile (!isBlank ·)

/-- What stands behind a blank does not change the first word. -/
theorem firstWord_append {gap : List Char} (hgap : IsRun isBlank gap) (line rest : List Char) :
    firstWord (line ++ (gap ++ rest)) = firstWord line := by
  apply takeWhile_append_of_head?
  intro c hc
  rw [hgap.of_mem_head? hc, Bool.not_true]

/-- No letter of a word is a blank, in upper case or in lower case. -/
theorem isBlank_of_sameLetters {cs word : List Char} (hword : IsRun (!isBlank ·) word)
    (h : sameLetters cs word = true) : ∀ c ∈ cs, isBlank c = false := by
  intro c hc
  have hlower : c.toLower ∈ lower word := beq_iff_eq.mp h ▸ List.mem_map_of_mem hc
  obtain ⟨d, hd, heq⟩ := List.mem_map.mp hlower
  rw [← isBlank_toLower, ← heq, isBlank_toLower]
  simpa using hword.all d hd

/-- A keyword opens a line only as its first word. -/
theorem stripKeyword?_eq_none {word line : List Char} (hword : IsRun (!isBlank ·) word)
    (h : sameLetters (firstWord line) word = false) : stripKeyword? word line = none := by
  rw [stripKeyword?]
  apply if_neg
  rw [Bool.and_eq_true]
  rintro ⟨hsame, hrest⟩
  have hfirst : firstWord line = line.take word.length := by
    have hsplit := @takeWhile_run (!isBlank ·) (line.take word.length) (line.drop word.length)
    rw [List.take_append_drop] at hsplit
    apply hsplit
    · intro c hc
      rw [isBlank_of_sameLetters hword hsame c hc, Bool.not_false]
    · intro c hc
      cases hdrop : line.drop word.length with
      | nil =>
          rw [hdrop] at hc
          cases hc
      | cons d rest =>
          rw [hdrop] at hc hrest
          cases hc
          simpa using hrest
  rw [hfirst, hsame] at h
  cases h

/-- A keyword opens a line if it is its first word. -/
theorem isSome_stripKeyword? {word : List Char} (hword : IsRun (!isBlank ·) word)
    (line : List Char) :
    (stripKeyword? word line).isSome = sameLetters (firstWord line) word := by
  cases h : sameLetters (firstWord line) word with
  | false => rw [stripKeyword?_eq_none hword h, Option.isSome_none]
  | true =>
      have hlength : (firstWord line).length = word.length := by
        have hletters := congrArg List.length (beq_iff_eq.mp h)
        rwa [lower, lower, List.length_map, List.length_map] at hletters
      have htake : line.take word.length = firstWord line := by
        rw [← hlength]
        exact (List.prefix_iff_eq_take.mp (List.takeWhile_prefix _)).symm
      have hdrop : line.drop word.length = line.dropWhile (!isBlank ·) := by
        rw [← hlength]
        exact drop_length_takeWhile _ line
      have hrest : ((line.drop word.length).isEmpty ||
          (line.drop word.length).head?.any isBlank) = true := by
        rw [hdrop]
        cases hbehind : line.dropWhile (!isBlank ·) with
        | nil => rfl
        | cons c rest =>
            have hc := List.head?_dropWhile_not (!isBlank ·) line
            rw [hbehind] at hc
            simpa using hc
      rw [stripKeyword?, htake, h, hrest]
      rfl

/-! ### Labels -/

/-- Quotes are left alone unless they stand at both ends. -/
theorem unquoteWith?_eq_none_iff {q : Char} {cs : List Char} :
    unquoteWith? q cs = none ↔ ∀ inner, cs ≠ q :: inner ++ [q] := by
  constructor
  · rintro h inner rfl
    simp [unquoteWith?, List.getLast?_cons] at h
  · intro h
    rw [unquoteWith?, if_neg]
    intro hq
    simp only [Bool.and_eq_true, decide_eq_true_eq, beq_iff_eq] at hq
    obtain ⟨⟨hlength, hhead⟩, hlast⟩ := hq
    cases cs with
    | nil => cases hhead
    | cons c cs =>
        have hcs : cs ≠ [] := fun e => by simp [e] at hlength
        rw [List.getLast?_cons_of_ne_nil hcs] at hlast
        apply h cs.dropLast
        rw [List.cons_append, List.dropLast_append_getLast? q hlast, Option.some.inj hhead]

/-- A trimmed label stays as it is if it has no pair of quotes around it. -/
theorem unquote_eq_self {cs : List Char} (htrim : trim cs = cs)
    (hquotes : ∀ q ∈ ['"', '\''], ∀ inner, cs ≠ q :: inner ++ [q]) : unquote cs = cs := by
  have hnone : ∀ q ∈ ['"', '\''], unquoteWith? q cs = none :=
    fun q hq => unquoteWith?_eq_none_iff.mpr (hquotes q hq)
  simp only [unquote, htrim, hnone '"' (by simp), hnone '\'' (by simp), Option.or_none,
    Option.getD_none]

/-- A text stays as it is if there is no line break tag in it. -/
theorem normalizeBreaks_eq_self {cs : List Char} (h : ∀ tag ∈ breakTags, ¬ tag <:+: cs) :
    normalizeBreaks cs = cs := by
  have hfold : ∀ tags ⊆ breakTags,
      tags.foldl (fun cs tag => replaceAll tag ['\n'] cs) cs = cs := by
    intro tags
    induction tags with
    | nil => exact fun _ => rfl
    | cons tag tags ih =>
        intro hsub
        rw [List.cons_subset] at hsub
        rw [List.foldl_cons, replaceAll_eq_self (h tag hsub.1), ih hsub.2]
  exact hfold breakTags (List.Subset.refl _)

/-- A line break tag does not vanish. -/
theorem normalizeBreaks_eq_nil_iff {cs : List Char} : normalizeBreaks cs = [] ↔ cs = [] := by
  have hput : ['\n'] ≠ [] := List.cons_ne_nil _ _
  simp only [normalizeBreaks, breakTags, List.foldl_cons, List.foldl_nil,
    replaceAll_eq_nil_iff hput]

end Whiteboard.Text
