import Whiteboard.Flowchart.Chart
import Whiteboard.Proofs.Checked.Reading
import Whiteboard.Proofs.Flowchart.Chart

/-!
Reading a flowchart by positions.

A line is cut at offsets and read by a cursor (`statement_eq`). The lines are added up with the
position of the open subgraph, which is the last one kept as long as one is open (`Tracks`), so
that a mention finds the subgraph it belongs to (`chart_eq`).
-/

namespace Whiteboard.Checked

open Text Flowchart

/-! ### Lines -/

def Cursor.new (line : List Char) : Cursor :=
  ⟨line, 0⟩

theorem Cursor.new_eq (line : List Char) : Cursor.new line = Cursor.facing line line := by
  simp [new, facing]

namespace Flowchart

def header (line : List Char) : Attempt (Option Direction) := do
  let (keyword, rest) ← splitHeader line
  if isHeaderKeyword keyword then
    let (direction, _) ← (Cursor.new rest).direction
    pure (some (direction.getD .td))
  else pure none

def titled (cs : List Char) : Attempt (Option (List Char × List Char)) :=
  match run? isTitleIdChar cs with
  | none => pure none
  | some (id, rest) =>
    match strip? ['['] (trimStart rest) with
    | none => pure none
    | some rest =>
      if rest.getLast? == some ']' && !rest.dropLast.contains '\n' then do
        let title ← unquote rest.dropLast
        pure (some (id, title))
      else pure none

def subgraph (cs : List Char) : Attempt Statement := do
  match ← titled cs with
  | some (id, label) => pure (.subgraph (String.ofList id) (String.ofList label))
  | none =>
    let title := String.ofList (← unquote cs)
    pure (.subgraph title title)

def path (line : List Char) : Attempt (Option Statement) := do
  match ← (Cursor.new line).reference with
  | (none, _) => pure none
  | (some first, c) =>
    let (hops, c) ← c.chain
    if hops.isEmpty then
      let c ← c.skip isGap
      pure (if c.isAtEnd then some (.path first []) else none)
    else pure (some (.path first hops))

def statement (line : List Char) : Attempt (Option Statement) := do
  let line := trimLine line
  match ← header line with
  | some d => pure (some (.header d))
  | none =>
    if sameLetters line "end".toList then pure (some .close)
    else
      match ← stripKeyword? "subgraph".toList line with
      | some rest => return some (← subgraph rest)
      | none =>
        if ← ignoredKeywords.anyM fun keyword => return (← stripKeyword? keyword line).isSome then
          pure none
        else path line

variable {line cs : List Char}

theorem header_eq (line : List Char) : header line = pure (Flowchart.header? line) := by
  rw [header, splitHeader_eq, pure_bind, Flowchart.header?]
  dsimp only
  split
  · rw [Cursor.new_eq, Cursor.direction_facing (List.suffix_refl _), Cursor.answer_bind]
    cases direction? (Text.splitHeader line).2 <;> rfl
  · rfl

theorem titled_eq (cs : List Char) : titled cs = pure (titled? cs) := by
  rw [titled, titled?]
  cases run? isTitleIdChar cs with
  | none => rfl
  | some pair =>
      obtain ⟨id, rest⟩ := pair
      simp only [Option.bind_eq_bind, Option.bind_some]
      cases strip? ['['] (trimStart rest) with
      | none => rfl
      | some rest =>
          simp only [unquote_eq, pure_bind, Option.bind_some]
          split <;> rfl

theorem subgraph_eq (cs : List Char) : subgraph cs = pure (subgraphOf cs) := by
  rw [subgraph, titled_eq, pure_bind, subgraphOf]
  cases titled? cs with
  | some pair => rfl
  | none => simp [unquote_eq]

theorem path_eq (line : List Char) : path line = pure (path? line) := by
  rw [path, Cursor.new_eq, Cursor.reference_facing (List.suffix_refl line), Cursor.answer_bind,
    path?]
  cases href : reference? line with
  | none => rfl
  | some pair =>
      obtain ⟨first, rest⟩ := pair
      have hrest := (reference?_suffix href).1
      have hchain := (chain_suffix rest).trans hrest
      simp only [Reading.found, Option.bind_eq_bind, Option.bind_some]
      rw [Cursor.chain_facing hrest, Cursor.answer_bind]
      dsimp only
      cases hhops : (chain rest).1 with
      | nil =>
          rw [if_pos (by rfl), Cursor.skipGap_facing hchain, pure_bind,
            Cursor.isAtEnd_facing ((skipGap_suffix _).trans hchain)]
          cases skipGap (chain rest).2 <;> rfl
      | cons hop hops => rfl

theorem statement_eq (line : List Char) : statement line = pure (Statement.ofLine? line) := by
  unfold statement Statement.ofLine?
  simp only [header_eq, stripKeyword?_eq, subgraph_eq, path_eq, pure_bind, List.anyM_pure]
  cases Flowchart.header? (trimLine line) with
  | some d => rfl
  | none =>
      dsimp only
      split
      · rfl
      · cases Text.stripKeyword? "subgraph".toList (trimLine line) with
        | some rest => rfl
        | none =>
            dsimp only
            split <;> rfl

/-! ### Charts -/

/-- A chart read so far, and the position of the subgraph that is open outside all others. -/
abbrev Progress := Chart × Option Nat

/-- The chart after one more mention of a node, which joins the open subgraph. -/
def addReference (c : Chart) (outermost : Option Nat) (r : Reference) : Attempt Chart :=
  match outermost with
  | none => pure { c with nodes := mention c.nodes r }
  | some i => do
    let g ← read c.subgraphs i
    let subgraphs ← write c.subgraphs i (g.addMember r.id)
    pure { c with nodes := mention c.nodes r, subgraphs }

def add (p : Progress) (s : Statement) : Attempt Progress :=
  let (c, outermost) := p
  match s with
  | .header d => pure ({ c with direction := c.direction.or (some d) }, outermost)
  | .subgraph id label =>
    let depth := c.depth + 1
    if depth = 1 then do
      let subgraphs := c.subgraphs ++ [{ id, label }]
      let last ← difference subgraphs.length 1
      pure ({ c with depth, subgraphs }, some last)
    else pure ({ c with depth }, outermost)
  | .close =>
    let depth := c.depth - 1
    pure ({ c with depth }, if depth = 0 then none else outermost)
  | .path first hops => do
    let c ← (first :: hops.map Hop.target).foldlM (addReference · outermost) c
    pure ({ c with edges := c.edges ++ edgesFrom first.id hops }, outermost)

def addLine (p : Progress) (line : List Char) : Attempt Progress := do
  match ← statement line with
  | some s => add p s
  | none => pure p

def chart (body : List Char) : Attempt Chart := do
  let (c, _) ← (significantLines body).foldlM addLine ({}, none)
  pure c

/-- The open subgraph is the last one, as long as one is open. -/
structure Tracks (c : Chart) (outermost : Option Nat) : Prop where
  eq_last : outermost = if c.depth = 0 then none else some (c.subgraphs.length - 1)
  nonempty : c.depth ≠ 0 → c.subgraphs ≠ []

variable {c : Chart} {outermost : Option Nat}

/-- A mention joins the last subgraph. -/
theorem addReference_eq (h : Tracks c outermost) (r : Reference) :
    addReference c outermost r = pure (c.addReference r) ∧
      Tracks (c.addReference r) outermost := by
  by_cases hdepth : c.depth = 0
  · have hnone : outermost = none := by rw [h.eq_last, if_pos hdepth]
    subst hnone
    have hadd : c.addReference r = { c with nodes := mention c.nodes r } := by
      simp [Chart.addReference, hdepth]
    rw [hadd]
    exact ⟨rfl, ⟨h.eq_last, h.nonempty⟩⟩
  · obtain ⟨gs, g, hgs⟩ := (List.eq_nil_or_concat' c.subgraphs).resolve_left (h.nonempty hdepth)
    have hlast : outermost = some gs.length := by
      rw [h.eq_last, if_neg hdepth, hgs]
      simp
    have hadd : c.addReference r =
        { c with nodes := mention c.nodes r, subgraphs := gs ++ [g.addMember r.id] } := by
      simp [Chart.addReference, hdepth, hgs, changeLast_concat]
    have hread : read (gs ++ [g]) gs.length = pure g := read_of_getElem? (by simp)
    have hwrite : write (gs ++ [g]) gs.length (g.addMember r.id) =
        pure (gs ++ [g.addMember r.id]) := by
      rw [write_of_lt (by simp)]
      simp
    refine ⟨?_, ⟨?_, ?_⟩⟩
    · rw [hadd, hlast, addReference, hgs, hread, pure_bind, hwrite, pure_bind]
    · rw [hadd, hlast]
      simp [hdepth]
    · rw [hadd]
      simp

/-- Mentions never miss the subgraph they are put in. -/
theorem foldlM_addReference (h : Tracks c outermost) (rs : List Reference) :
    rs.foldlM (addReference · outermost) c = pure (rs.foldl Chart.addReference c) ∧
      Tracks (rs.foldl Chart.addReference c) outermost := by
  induction rs generalizing c with
  | nil => exact ⟨rfl, h⟩
  | cons r rs ih =>
      obtain ⟨hadd, htracks⟩ := addReference_eq h r
      rw [List.foldlM_cons, hadd, pure_bind]
      exact ih htracks

/-- What one statement preserves. -/
theorem add_eq (h : Tracks c outermost) (s : Statement) :
    ∃ outermost', add (c, outermost) s = pure (c.add s, outermost') ∧
      Tracks (c.add s) outermost' := by
  cases s with
  | header d => exact ⟨outermost, rfl, ⟨h.eq_last, h.nonempty⟩⟩
  | subgraph id label =>
      by_cases hdepth : c.depth = 0
      · refine ⟨some c.subgraphs.length, ?_, ⟨?_, ?_⟩⟩
        · simp [add, Chart.add, hdepth, difference]
        · simp [Chart.add, hdepth]
        · simp [Chart.add, hdepth]
      · refine ⟨outermost, ?_, ⟨?_, ?_⟩⟩
        · simp [add, Chart.add, hdepth]
        · simp [Chart.add, hdepth, h.eq_last]
        · simpa [Chart.add, hdepth] using h.nonempty hdepth
  | close =>
      refine ⟨if c.depth - 1 = 0 then none else outermost, rfl, ⟨?_, fun hopen => ?_⟩⟩
      · by_cases hdepth : c.depth - 1 = 0
        · simp [Chart.add, hdepth]
        · have hopen : c.depth ≠ 0 := by omega
          simp [Chart.add, hdepth, h.eq_last, hopen]
      · have hdepth : c.depth - 1 ≠ 0 := hopen
        exact h.nonempty (by omega)
  | path first hops =>
      obtain ⟨hfold, htracks⟩ := foldlM_addReference h (first :: hops.map Hop.target)
      refine ⟨outermost, ?_, ⟨htracks.eq_last, htracks.nonempty⟩⟩
      rw [add, hfold]
      rfl

/-- The progress that belongs to a chart. -/
def Progress.IsOf (p : Progress) (c : Chart) : Prop :=
  p.1 = c ∧ Tracks c p.2

/-- What one line preserves. -/
theorem addLine_eq {p : Progress} (line : List Char) (h : p.IsOf c) :
    ∃ p', addLine p line = pure p' ∧
      Progress.IsOf p' ((Statement.ofLine? line).elim c c.add) := by
  obtain ⟨rfl, htracks⟩ := h
  rw [addLine, statement_eq, pure_bind]
  cases Statement.ofLine? line with
  | none => exact ⟨p, rfl, rfl, htracks⟩
  | some s =>
      obtain ⟨outermost', hadd, htracks⟩ := add_eq htracks s
      exact ⟨_, hadd, rfl, htracks⟩

/-- A chart is read without an overrun. -/
theorem chart_eq (body : List Char) :
    chart body = pure (Chart.ofStatements (statements body)) := by
  have hstart : Progress.IsOf ({}, none) {} := ⟨rfl, rfl, fun h => absurd rfl h⟩
  obtain ⟨⟨c, outermost⟩, hfold, hchart, -⟩ :=
    foldlM_simulates addLine_eq hstart (significantLines body)
  rw [chart, hfold, pure_bind, Chart.ofStatements, statements, foldl_filterMap_elim]
  exact congrArg pure hchart

end Flowchart

end Whiteboard.Checked
