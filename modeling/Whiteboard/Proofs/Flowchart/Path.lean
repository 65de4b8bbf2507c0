import Whiteboard.Flowchart.Statement
import Whiteboard.Proofs.Flowchart.Written

/-!
Paths as whole lines.

A written path begins with an id and ends with an id or a bracket, so that trimming leaves it alone,
and the id is followed by a space or a bracket, so that no keyword is found in front of it unless
the id itself is that keyword. Hence a written path is read back as the path it was written for.
-/

namespace Whiteboard.Flowchart

open Text

def writePath (first : Reference) (hops : List Hop) : List Char :=
  first.write ++ hops.flatMap Hop.write

/-- The words that make another statement of a line if they stand in front. -/
def reservedWords : List (List Char) :=
  headerKeywords ++ "subgraph".toList :: ignoredKeywords

/-! ### The ends of a line -/

theorem endsKeyword_eq_false {c : Char} :
    endsKeyword c = false ↔ isBlank c = false ∧ c ≠ ';' := by
  rw [endsKeyword, Bool.or_eq_false_iff, beq_eq_false_iff_ne]

/-- A keyword does not end inside an id. -/
theorem IsId.endsKeyword {id : List Char} (h : IsId id) {c : Char} (hc : c ∈ id) :
    endsKeyword c = false := by
  rcases h.mem hc with hchar | rfl
  · exact endsKeyword_eq_false.mpr ⟨isBlank_of_isIdChar hchar, ne_of_isIdChar hchar rfl⟩
  · decide

/-- The last character of a text is one that is not trimmed off a line. -/
def EndsSolid (cs : List Char) : Prop :=
  ∃ c ∈ cs.getLast?, endsKeyword c = false

theorem EndsSolid.append {b : List Char} (h : EndsSolid b) (a : List Char) :
    EndsSolid (a ++ b) := by
  obtain ⟨c, hc, hsolid⟩ := h
  refine ⟨c, ?_, hsolid⟩
  rw [List.getLast?_append, Option.mem_def.mp hc]
  rfl

/-- A line with solid ends is not trimmed. -/
theorem trimLine_eq_self {line : List Char} (hhead : ∀ c ∈ line.head?, isBlank c = false)
    (hlast : EndsSolid line) : trimLine line = line := by
  obtain ⟨c, hc, hsolid⟩ := hlast
  obtain ⟨hblank, hsemicolon⟩ := endsKeyword_eq_false.mp hsolid
  have hend : ∀ d ∈ line.getLast?, isBlank d = false := by
    intro d hd
    rwa [Option.mem_unique hd hc]
  have hdrop : line.reverse.dropWhile (· == ';') = line.reverse := by
    rw [← List.head?_reverse] at hc
    obtain ⟨tail, htail⟩ := List.head?_eq_some_iff.mp hc
    rw [htail, List.dropWhile_cons_of_neg (by simpa using hsemicolon)]
  rw [trimLine, trim_eq_self_iff.mpr ⟨hhead, hend⟩, hdrop, List.reverse_reverse,
    trimEnd_eq_self_iff.mpr hend]

/-- What is left of the end of a line behind something that is not trimmed off. -/
def lineEnd (rest : List Char) : List Char :=
  trimEnd ((trimEnd rest).reverse.dropWhile (· == ';')).reverse

theorem lineEnd_isPrefix (rest : List Char) : lineEnd rest <+: rest :=
  (trimEnd_isPrefix _).trans ((List.rdropWhile_prefix _ _).trans (trimEnd_isPrefix rest))

/-- Trimming a line leaves what stands behind its first blanks up to a solid character. -/
theorem trimLine_append (front : List Char) {solid : List Char}
    (hhead : ∃ c ∈ solid.head?, isBlank c = false) (hlast : EndsSolid solid) (rest : List Char) :
    trimLine (front ++ (solid ++ rest)) = trimStart front ++ (solid ++ lineEnd rest) := by
  have hstart : trimStart (front ++ (solid ++ rest)) = trimStart front ++ (solid ++ rest) := by
    apply dropWhile_append_of_head?
    obtain ⟨c, hc, hblank⟩ := hhead
    intro d hd
    rw [List.head?_append, Option.mem_def.mp hc] at hd
    cases hd
    exact hblank
  obtain ⟨c, hc, hsolid⟩ := hlast.append (trimStart front)
  obtain ⟨hblank, hsemicolon⟩ := endsKeyword_eq_false.mp hsolid
  have hend : ∀ d ∈ (trimStart front ++ solid).getLast?, isBlank d = false := by
    intro d hd
    rwa [Option.mem_unique hd hc]
  have hend' : ∀ d ∈ (trimStart front ++ solid).getLast?, (d == ';') = false := by
    intro d hd
    rw [Option.mem_unique hd hc]
    exact beq_false_of_ne hsemicolon
  have htrim : ∀ rest, trimEnd (trimStart front ++ solid ++ rest) =
      trimStart front ++ solid ++ trimEnd rest := rdropWhile_append_of_getLast? hend
  calc
    trimLine (front ++ (solid ++ rest))
        = trimEnd ((trimStart front ++ solid ++ trimEnd rest).rdropWhile (· == ';')) := by
          rw [trimLine, trim, hstart, ← List.append_assoc, htrim]
          rfl
    _ = trimEnd (trimStart front ++ solid ++ (trimEnd rest).rdropWhile (· == ';')) := by
          rw [rdropWhile_append_of_getLast? hend']
    _ = trimStart front ++ (solid ++ lineEnd rest) := by
          rw [htrim, List.append_assoc]
          rfl

/-- A reference ends in what is not trimmed. -/
theorem Reference.Writable.endsSolid {r : Reference} (h : r.Writable) : EndsSolid r.write := by
  rw [Reference.write, Reference.behind]
  cases r.definition with
  | none =>
      obtain ⟨c, tail, hid, -⟩ := h.isId.head
      have hne : r.id.toList ≠ [] := hid ▸ List.cons_ne_nil c tail
      rw [Option.elim_none, List.append_nil]
      exact ⟨_, List.getLast?_eq_some_getLast hne, h.isId.endsKeyword (List.getLast_mem hne)⟩
  | some d =>
      have hclosing : EndsSolid (bracket d.shape).closing := by
        cases d.shape <;> exact ⟨_, rfl, by decide⟩
      exact (hclosing.append _).append _

/-- A path ends in what is not trimmed. -/
theorem endsSolid_writePath {first : Reference} {hops : List Hop} (hfirst : first.Writable)
    (hhops : ∀ p ∈ hops, p.Writable) : EndsSolid (writePath first hops) := by
  rcases List.eq_nil_or_concat' hops with rfl | ⟨init, p, rfl⟩
  · rw [writePath, List.flatMap_nil, List.append_nil]
    exact hfirst.endsSolid
  · have hp : p.Writable := hhops p (List.mem_append_right init (List.mem_singleton_self p))
    rw [writePath, List.flatMap_append, List.flatMap_singleton, Hop.write, List.append_cons _ ' ']
    exact ((hp.target.endsSolid.append _).append _).append _

/-! ### The front of a line -/

/-- What stands behind an id is in none of the words that make another statement. -/
theorem not_mem_lower_of_mem_borders {y : Char} (hy : y ∈ borders) :
    ∀ w ∈ "end".toList :: reservedWords, y.toLower ∉ lower w := by
  rcases mem_borders.mp hy with rfl | rfl | rfl | rfl <;> decide

/-- No reserved word reaches over the border behind an id, and neither does the word that closes a
subgraph. -/
theorem sameLetters_of_mem_borders {line w : List Char} (hw : w ∈ "end".toList :: reservedWords)
    {y : Char} (hy : y ∈ borders) (hline : y ∈ line) : sameLetters line w = false := by
  rw [sameLetters, beq_eq_false_iff_ne]
  intro heq
  apply not_mem_lower_of_mem_borders hy w hw
  rw [← heq]
  exact List.mem_map_of_mem hline

section Border

variable {id ys : List Char} {y : Char}

/-- A reserved word opens a line only if it is the whole id. -/
theorem stripKeyword?_of_isId (hid : IsId id) (hy : y ∈ borders) {w : List Char}
    (hw : w ∈ reservedWords) (hword : sameLetters id w = false) :
    stripKeyword? w (id ++ y :: ys) = none := by
  rw [stripKeyword?]
  apply if_neg
  rw [Bool.and_eq_true, not_and]
  intro hsame
  rcases Nat.lt_trichotomy w.length id.length with hlt | heq | hgt
  · -- the word ends inside the id, where no blank can follow it
    rw [List.drop_append_of_le_length hlt.le, List.drop_eq_getElem_cons hlt]
    have hblank := (endsKeyword_eq_false.mp (hid.endsKeyword (List.getElem_mem hlt))).1
    simp only [List.cons_append, List.isEmpty_cons, List.head?_cons, Option.any_some, hblank,
      Bool.or_self, Bool.false_eq_true, not_false_eq_true]
  · rw [heq, List.take_left, hword] at hsame
    cases hsame
  · -- the word reaches over the border, which is no part of any word
    have hborder : y ∈ (id ++ y :: ys).take w.length := by
      rw [List.take_append, List.take_cons (by omega)]
      exact List.mem_append_right _ List.mem_cons_self
    rw [sameLetters_of_mem_borders (List.mem_cons_of_mem _ hw) hy hborder] at hsame
    cases hsame

/-- An id that is none of the words that open a chart makes no header. -/
theorem header?_of_isId (hid : IsId id) (hy : y ∈ borders)
    (hword : ∀ w ∈ reservedWords, sameLetters id w = false) : header? (id ++ y :: ys) = none := by
  have hkeyword : ∀ w ∈ headerKeywords,
      sameLetters ((id ++ y :: ys).takeWhile (!endsKeyword ·)) w = false := by
    intro w hw
    have hreserved : w ∈ reservedWords := List.mem_append_left _ hw
    have hids : ∀ c ∈ id, (!endsKeyword c) = true := by
      intro c hc
      rw [hid.endsKeyword hc, Bool.not_false]
    rw [List.takeWhile_append_of_pos hids]
    by_cases hspace : endsKeyword y
    · rw [List.takeWhile_cons_of_neg (by simp [hspace]), List.append_nil]
      exact hword w hreserved
    · rw [List.takeWhile_cons_of_pos (by simp [hspace])]
      exact sameLetters_of_mem_borders (List.mem_cons_of_mem _ hreserved) hy (by simp)
  have hheader : isHeaderKeyword ((id ++ y :: ys).takeWhile (!endsKeyword ·)) = false := by
    rw [isHeaderKeyword, List.any_eq_false]
    exact fun w hw => by simp [hkeyword w hw]
  simp [header?, splitHeader, hheader]

/-- A line that goes on behind an id which is no keyword is read as a path. -/
theorem ofLine?_of_isId (hid : IsId id) (hy : y ∈ borders)
    (hword : ∀ w ∈ reservedWords, sameLetters id w = false) (hlast : EndsSolid (id ++ y :: ys)) :
    Statement.ofLine? (id ++ y :: ys) = path? (id ++ y :: ys) := by
  have hhead : ∀ c ∈ (id ++ y :: ys).head?, isBlank c = false := by
    obtain ⟨c, tail, rfl, hc⟩ := hid.head
    intro d hd
    cases hd
    exact isBlank_of_isIdChar hc
  have hend : sameLetters (id ++ y :: ys) "end".toList = false :=
    sameLetters_of_mem_borders List.mem_cons_self hy (by simp)
  have hstrip : ∀ w ∈ reservedWords, stripKeyword? w (id ++ y :: ys) = none :=
    fun w hw => stripKeyword?_of_isId hid hy hw (hword w hw)
  have hsubgraph : stripKeyword? "subgraph".toList (id ++ y :: ys) = none :=
    hstrip _ (List.mem_append_right _ List.mem_cons_self)
  have hignored :
      (ignoredKeywords.any fun w => (stripKeyword? w (id ++ y :: ys)).isSome) = false := by
    rw [List.any_eq_false]
    intro w hw
    rw [hstrip w (List.mem_append_right _ (List.mem_cons_of_mem _ hw))]
    exact Bool.false_ne_true
  rw [Statement.ofLine?]
  simp only [trimLine_eq_self hhead hlast, header?_of_isId hid hy hword, hend, hsubgraph, hignored,
    Bool.false_eq_true, if_false]

end Border

/-! ### Whole paths -/

/-- A path is read as it was written. -/
theorem path?_writePath {first : Reference} {hops : List Hop} (hfirst : first.Writable)
    (hhops : ∀ p ∈ hops, p.Writable) :
    path? (writePath first hops) = some (.path first hops) := by
  have hfront := reference?_write hfirst (apart_flatMap_write hops)
  have hgap : skipGap [] = [] := rfl
  simp only [path?, writePath, hfront, chain_write hhops, Option.bind_eq_bind, Option.bind_some]
  simp [hgap]

/-- A path that goes on is an id and a border before the rest. -/
theorem writePath_eq (first : Reference) {hops : List Hop} (hne : hops ≠ []) :
    ∃ y ∈ borders, ∃ ys, writePath first hops = first.id.toList ++ y :: ys := by
  obtain ⟨y, ys, hbehind⟩ : ∃ y ys,
      first.behind ++ hops.flatMap Hop.write = y :: ys := by
    apply List.exists_cons_of_ne_nil
    cases hops with
    | nil => exact absurd rfl hne
    | cons p hops => simp [Hop.write]
  refine ⟨y, first.head?_behind (apart_flatMap_write hops) y ?_, ys, ?_⟩
  · rw [hbehind]
    rfl
  · rw [writePath, Reference.write, List.append_assoc, hbehind]

/-- The edges of a path lead from each of its references to the next. -/
theorem edgesFrom_eq_zipWith (first : Reference) (hops : List Hop) :
    edgesFrom first.id hops =
      List.zipWith (fun r p => p.edge r.id) (first :: hops.map Hop.target) hops := by
  induction hops generalizing first with
  | nil => rfl
  | cons p hops ih => rw [edgesFrom, ih p.target, List.map_cons, List.zipWith_cons_cons]

/-- A path that is written out as a line is read back as that path: the same references from left
to right, and for each hop one edge from the reference before it, with the label of the hop and the
heads and the stroke of its connector. -/
theorem read_writePath {first : Reference} {hops : List Hop} (hne : hops ≠ [])
    (hfirst : first.Writable) (hhops : ∀ p ∈ hops, p.Writable)
    (hword : ∀ w ∈ reservedWords, sameLetters first.id.toList w = false) :
    Statement.ofLine? (writePath first hops) = some (.path first hops) ∧
      (Statement.path first hops).references = first :: hops.map Hop.target ∧
      (Statement.path first hops).edges =
        List.zipWith
          (fun r p =>
            { source := r.id
              target := p.target.id
              label := p.label
              startHead := p.connector.startHead
              endHead := p.connector.endHead
              stroke := some p.connector.stroke })
          (first :: hops.map Hop.target) hops := by
  refine ⟨?_, rfl, edgesFrom_eq_zipWith first hops⟩
  have hpath := path?_writePath hfirst hhops
  have hlast := endsSolid_writePath hfirst hhops
  obtain ⟨y, hy, ys, hline⟩ := writePath_eq first hne
  rw [hline] at hpath hlast ⊢
  rw [ofLine?_of_isId hfirst.isId hy hword hlast, hpath]

/-- A node whose label holds quotes, a line break and the brackets of its own shape. -/
def store : Reference where
  id := "my-store"
  definition := some ⟨.cylinder, "\"log\"\n)]"⟩

/-- Two hops from `store`, the first with a label and to a node in brackets. -/
def storeHops : List Hop :=
  [{ connector := ⟨.absent, .closed, .solid⟩
     label := some "on error; retry"
     target := { id := "Q2", definition := some ⟨.stadium, "--> end"⟩ } },
   { connector := ⟨.closed, .closed, .dashed⟩
     target := { id := "end" } }]

/-- The path from `store` along `storeHops`, written and read. -/
theorem read_writePath_store :
    writePath store storeHops =
        "my-store[(\"\\\"log\\\"\\n)]\")] -->|on error; retry| Q2([\"--> end\"]) <-.-> end".toList ∧
      Statement.ofLine? (writePath store storeHops) = some (.path store storeHops) ∧
      (Statement.path store storeHops).edges =
        [⟨"my-store", "Q2", some "on error; retry", .absent, .closed, some .solid⟩,
         ⟨"Q2", "end", none, .closed, .closed, some .dashed⟩] := by
  have hstore : store.Writable :=
    ⟨.char rfl (.hyphen rfl (.char rfl (.char rfl (.char rfl (.char rfl (.single rfl)))))),
      by decide⟩
  have hlabel : Barrable "on error; retry".toList := by
    refine ⟨by decide, by decide, by decide, by decide, ?_⟩
    intro q hq inner hquoted
    have hhead : some 'o' = some q := congrArg List.head? hquoted
    cases hhead
    revert hq
    decide
  have hhops : ∀ p ∈ storeHops, p.Writable := by
    rw [storeHops, List.forall_mem_cons, List.forall_mem_singleton]
    constructor
    · refine ⟨by decide, ?_, ⟨.char rfl (.single rfl), by decide⟩⟩
      rintro text ⟨⟩
      exact hlabel
    · exact ⟨by decide, nofun, ⟨.char rfl (.char rfl (.single rfl)), by decide⟩⟩
  have hread := read_writePath (by decide) hstore hhops (by decide)
  exact ⟨by decide, hread.1, hread.2.2⟩

end Whiteboard.Flowchart
