/-
Reading the pieces of a flowchart line.

Each reader takes the rest of a line and gives what it read with the rest behind it; one that may
fail gives an option. A reader's rest is always a suffix of what it was given, and a reader that
succeeds with an id, a reference or a hop has read at least one character, which is why a chain of
hops ends.
-/

import Whiteboard.Diagram.Basic
import Whiteboard.Text.Line

namespace Whiteboard.Flowchart

open Text

/-! ### Gaps, ids and directions -/

/-- Spaces, tabs and semicolons separate the pieces of a line. -/
def isGap (c : Char) : Bool :=
  c == ' ' || c == '\t' || c == ';'

def skipGap (cs : List Char) : List Char :=
  cs.dropWhile isGap

def isIdChar (c : Char) : Bool :=
  c.isAlphanum || c == '_'

/-- What continues an id: id characters, and hyphens with an id character behind them. -/
def idTail : List Char → List Char × List Char
  | [] => ([], [])
  | c :: cs =>
    if isIdChar c || (c == '-' && cs.head?.any isIdChar) then
      let (tail, rest) := idTail cs
      (c :: tail, rest)
    else ([], c :: cs)

/-- The id at the front of a line. A hyphen belongs to it only if an id character follows, so that
an arrow behind an id stays whole. -/
def id? : List Char → Option (List Char × List Char)
  | [] => none
  | c :: cs =>
    if isIdChar c then
      let (tail, rest) := idTail cs
      some (c :: tail, rest)
    else none

/-- The direction that the word at the front of a line stands for. -/
def direction? (cs : List Char) : Option (Direction × List Char) :=
  (Direction.ofToken? (cs.takeWhile Char.isAlpha)).map fun d => (d, cs.dropWhile Char.isAlpha)

/-! ### Labels -/

/-- The text of a quoted label behind its opening quote. A backslash takes the next character as it
is, an `n` as a line feed; a label without a closing quote goes to the end of the line. -/
def quotedTail : List Char → List Char × List Char
  | [] => ([], [])
  | '"' :: cs => ([], cs)
  | '\\' :: c :: cs =>
    let (text, rest) := quotedTail cs
    ((if c == 'n' then '\n' else c) :: text, rest)
  | c :: cs =>
    let (text, rest) := quotedTail cs
    (c :: text, rest)

/-- The text of the quoted label at the front of a line. -/
def quoted? : List Char → Option (List Char × List Char)
  | '"' :: cs => some (quotedTail cs)
  | _ => none

/-- The label of a node, quoted or plain, up to its closing bracket. -/
def label (closing cs : List Char) : List Char × List Char :=
  let cs := skipGap cs
  match quoted? cs with
  | some (text, rest) => (normalizeBreaks text, skipGap rest)
  | none =>
    let (text, rest) := upTo closing cs
    (normalizeBreaks (trim text), rest)

/-! ### References to nodes -/

/-- A pair of brackets around a label and the shape it stands for. -/
structure Bracket where
  opening : List Char
  closing : List Char
  shape : Shape
deriving DecidableEq, Repr

/-- The brackets, doubled ones before the single ones they begin with. -/
def brackets : List Bracket :=
  [⟨['(', '('], [')', ')'], .ellipse⟩,
   ⟨['(', '['], [']', ')'], .stadium⟩,
   ⟨['[', '('], [')', ']'], .cylinder⟩,
   ⟨['{', '{'], ['}', '}'], .hexagon⟩,
   ⟨['[', '['], [']', ']'], .rectangle⟩,
   ⟨['('], [')'], .stadium⟩,
   ⟨['{'], ['}'], .diamond⟩,
   ⟨['['], [']'], .rectangle⟩,
   ⟨['>'], [']'], .rectangle⟩]

/-- What brackets say of a node. -/
structure Definition where
  shape : Shape
  label : String
deriving DecidableEq, Repr

/-- The bracketed label at the front of a line. The closing bracket may be missing. -/
def definition? (cs : List Char) : Option (Definition × List Char) :=
  brackets.findSome? fun b => do
    let rest ← strip? b.opening cs
    let (text, rest) := label b.closing rest
    some (⟨b.shape, String.ofList text⟩, (strip? b.closing rest).getD rest)

/-- A mention of a node, with what its brackets say if it has any. -/
structure Reference where
  id : String
  definition : Option Definition := none
deriving DecidableEq, Repr

/-- The reference at the front of a line, behind a gap. -/
def reference? (cs : List Char) : Option (Reference × List Char) := do
  let (id, rest) ← id? (skipGap cs)
  match definition? rest with
  | some (d, rest) => some (⟨String.ofList id, some d⟩, rest)
  | none => some (⟨String.ofList id, none⟩, rest)

/-! ### Connectors -/

structure Connector where
  startHead : Head
  endHead : Head
  stroke : Stroke
deriving DecidableEq, Repr

/-- The written connectors, longer ones before those they begin with. -/
def connectors : List (List Char × Connector) :=
  [("<-.->".toList, ⟨.closed, .closed, .dashed⟩),
   ("<==>".toList, ⟨.closed, .closed, .thick⟩),
   ("<-->".toList, ⟨.closed, .closed, .solid⟩),
   ("-.->".toList, ⟨.absent, .closed, .dashed⟩),
   ("==>".toList, ⟨.absent, .closed, .thick⟩),
   ("-->".toList, ⟨.absent, .closed, .solid⟩),
   ("--o".toList, ⟨.absent, .dot, .solid⟩),
   ("--x".toList, ⟨.absent, .cross, .solid⟩),
   ("-.-".toList, ⟨.absent, .absent, .dashed⟩),
   ("===".toList, ⟨.absent, .absent, .thick⟩),
   ("---".toList, ⟨.absent, .absent, .solid⟩)]

/-- The first of some tokens that stands at the front of a line, with what it stands for. -/
def token? (tokens : List (List Char × α)) (cs : List Char) : Option (α × List Char) :=
  tokens.findSome? fun (token, a) => (strip? token cs).map fun rest => (a, rest)

/-- The connector at the front of a line, behind a gap. -/
def connector? (cs : List Char) : Option (Connector × List Char) :=
  token? connectors (skipGap cs)

/-- The label between bars at the front of a line, behind a gap. The second bar may be missing. -/
def barLabel? (cs : List Char) : Option (List Char × List Char) :=
  match skipGap cs with
  | '|' :: cs =>
    some (normalizeBreaks (unquote (cs.takeWhile (· != '|'))), (cs.dropWhile (· != '|')).drop 1)
  | _ => none

/-- A connector written around its label: what opens it and what may close it, with the connector
that each closing stands for. -/
structure InlineForm where
  opening : List Char
  closings : List (List Char × Connector)
deriving DecidableEq, Repr

/-- The connectors that may be written around a label. -/
def inlineForms : List InlineForm :=
  [⟨['-', '-'], [("-->".toList, ⟨.absent, .closed, .solid⟩),
      ("---".toList, ⟨.absent, .absent, .solid⟩)]⟩,
   ⟨['-', '.'], [(".->".toList, ⟨.absent, .closed, .dashed⟩),
      (".-".toList, ⟨.absent, .absent, .dashed⟩)]⟩,
   ⟨['=', '='], [("==>".toList, ⟨.absent, .closed, .thick⟩),
      ("===".toList, ⟨.absent, .absent, .thick⟩)]⟩]

/-- The text up to the first place where one of the closings stands, the connector that closing
stands for, and what follows it. -/
def closedBy? (closings : List (List Char × Connector)) :
    List Char → Option (List Char × Connector × List Char)
  | [] => none
  | c :: cs =>
    match token? closings (c :: cs) with
    | some (k, rest) => some ([], k, rest)
    | none => (closedBy? closings cs).map fun (text, k, rest) => (c :: text, k, rest)

/-- The connector written around its label at the front of a line, behind a gap. A blank must follow
what opens it. -/
def inlineLabel? (cs : List Char) : Option ((Connector × List Char) × List Char) :=
  inlineForms.findSome? fun form => do
    let rest ← strip? form.opening (skipGap cs)
    if rest.head?.any isBlank then
      let (text, k, rest) ← closedBy? form.closings rest
      some ((k, normalizeBreaks (unquote text)), rest)
    else none

/-! ### Chains -/

/-- A connector, its label if it has one, and the node it leads to. -/
structure Hop where
  connector : Connector
  label : Option String := none
  target : Reference
deriving DecidableEq, Repr

/-- A connector with its label, in either way of writing it. An empty label is none. -/
def link? (cs : List Char) : Option ((Connector × Option String) × List Char) :=
  match connector? cs with
  | some (k, rest) =>
    match barLabel? rest with
    | some (text, rest) => some ((k, labelOf text), rest)
    | none => some ((k, none), rest)
  | none => (inlineLabel? cs).map fun ((k, text), rest) => ((k, labelOf text), rest)
where
  labelOf (text : List Char) : Option String :=
    if text.isEmpty then none else some (String.ofList text)

def hop? (cs : List Char) : Option (Hop × List Char) := do
  let ((connector, label), rest) ← link? cs
  let (target, rest) ← reference? rest
  some ({ connector, label, target }, rest)

/-! ### Every reader leaves a suffix -/

/-- Readers leave an end of what they were given. -/
theorem skipGap_suffix (cs : List Char) : skipGap cs <:+ cs :=
  List.dropWhile_suffix isGap

theorem strip?_suffix {token cs rest : List Char} (h : strip? token cs = some rest) :
    rest <:+ cs :=
  ⟨token, (strip?_eq_some.1 h).symm⟩

theorem idTail_append (cs : List Char) : (idTail cs).1 ++ (idTail cs).2 = cs := by
  induction cs with
  | nil => rfl
  | cons c cs ih =>
    unfold idTail
    split
    · simpa using ih
    · rfl

/-- An id that is read is not empty. -/
theorem id?_append {cs id rest : List Char} (h : id? cs = some (id, rest)) :
    id ++ rest = cs ∧ id ≠ [] := by
  cases cs with
  | nil => simp [id?] at h
  | cons c cs =>
    simp only [id?] at h
    split at h
    · simp only [Option.some.injEq, Prod.mk.injEq] at h
      obtain ⟨rfl, rfl⟩ := h
      exact ⟨by simpa using idTail_append cs, by simp⟩
    · cases h

theorem quotedTail_suffix (cs : List Char) : (quotedTail cs).2 <:+ cs := by
  fun_induction quotedTail cs with
  | case1 => exact List.suffix_refl _
  | case2 cs => exact List.suffix_cons _ _
  | case3 c cs text rest h ih =>
    rw [h] at ih
    exact ih.trans ((List.suffix_cons c cs).trans (List.suffix_cons _ _))
  | case4 c cs _ _ text rest h ih =>
    rw [h] at ih
    exact ih.trans (List.suffix_cons _ _)

theorem quoted?_suffix {cs text rest : List Char} (h : quoted? cs = some (text, rest)) :
    rest <:+ cs := by
  unfold quoted? at h
  split at h
  · rename_i cs
    simp only [Option.some.injEq] at h
    have := quotedTail_suffix cs
    rw [h] at this
    exact this.trans (List.suffix_cons _ _)
  · cases h

theorem label_suffix (closing cs : List Char) : (label closing cs).2 <:+ cs := by
  unfold label
  simp only
  split
  · rename_i text rest h
    exact (skipGap_suffix rest).trans ((quoted?_suffix h).trans (skipGap_suffix cs))
  · exact List.IsSuffix.trans ⟨_, (eq_append_upTo closing (skipGap cs)).symm⟩ (skipGap_suffix cs)

theorem definition?_suffix {cs rest : List Char} {d : Definition}
    (h : definition? cs = some (d, rest)) : rest <:+ cs := by
  obtain ⟨b, -, hb⟩ := List.exists_of_findSome?_eq_some h
  simp only [Option.bind_eq_bind, Option.bind_eq_some_iff, Option.some.injEq, Prod.mk.injEq] at hb
  obtain ⟨r, hr, -, rfl⟩ := hb
  have h₁ := (label_suffix b.closing r).trans (strip?_suffix hr)
  cases hc : strip? b.closing (label b.closing r).2 with
  | none => simpa using h₁
  | some r' => exact (strip?_suffix hc).trans h₁

/-- A reference takes at least one character off the line. -/
theorem reference?_suffix {cs rest : List Char} {r : Reference}
    (h : reference? cs = some (r, rest)) : rest <:+ cs ∧ rest.length < cs.length := by
  simp only [reference?, Option.bind_eq_bind, Option.bind_eq_some_iff, Prod.exists] at h
  obtain ⟨id, r₁, h₁, h₂⟩ := h
  obtain ⟨e₁, hid⟩ := id?_append h₁
  have hgap := skipGap_suffix cs
  have hs : rest <:+ r₁ := by
    split at h₂
    · rename_i d r₂ hd
      cases h₂
      exact definition?_suffix hd
    · cases h₂
      exact List.suffix_refl _
  have hr₁ : r₁ <:+ cs := List.IsSuffix.trans ⟨id, e₁⟩ hgap
  refine ⟨hs.trans hr₁, ?_⟩
  have l₁ := hs.length_le
  have l₂ := hgap.length_le
  have l₃ := congrArg List.length e₁
  have l₄ := List.length_pos_iff.2 hid
  simp only [List.length_append] at l₃
  omega

theorem token?_suffix {tokens : List (List Char × α)} {cs rest : List Char} {a : α}
    (h : token? tokens cs = some (a, rest)) : rest <:+ cs := by
  obtain ⟨⟨token, b⟩, -, hb⟩ := List.exists_of_findSome?_eq_some h
  simp only [Option.map_eq_some_iff, Prod.mk.injEq] at hb
  obtain ⟨r, hr, -, rfl⟩ := hb
  exact strip?_suffix hr

theorem connector?_suffix {cs rest : List Char} {k : Connector}
    (h : connector? cs = some (k, rest)) : rest <:+ cs :=
  (token?_suffix h).trans (skipGap_suffix cs)

theorem barLabel?_suffix {cs text rest : List Char} (h : barLabel? cs = some (text, rest)) :
    rest <:+ cs := by
  unfold barLabel? at h
  split at h
  · rename_i r hr
    simp only [Option.some.injEq, Prod.mk.injEq] at h
    obtain ⟨-, rfl⟩ := h
    have hgap := skipGap_suffix cs
    rw [hr] at hgap
    exact (List.drop_suffix _ _).trans
      ((List.dropWhile_suffix _).trans ((List.suffix_cons _ _).trans hgap))
  · cases h

theorem closedBy?_suffix {closings : List (List Char × Connector)} {cs text rest : List Char}
    {k : Connector} (h : closedBy? closings cs = some (text, k, rest)) : rest <:+ cs := by
  induction cs generalizing text with
  | nil => simp [closedBy?] at h
  | cons c cs ih =>
    rw [closedBy?] at h
    split at h
    · rename_i hk
      cases h
      exact token?_suffix hk
    · simp only [Option.map_eq_some_iff, Prod.mk.injEq, Prod.exists] at h
      obtain ⟨t, k', r, ht, -, rfl, rfl⟩ := h
      exact (ih ht).trans (List.suffix_cons _ _)

theorem inlineLabel?_suffix {cs text rest : List Char} {k : Connector}
    (h : inlineLabel? cs = some ((k, text), rest)) : rest <:+ cs := by
  obtain ⟨form, -, hf⟩ := List.exists_of_findSome?_eq_some h
  simp only [Option.bind_eq_bind, Option.bind_eq_some_iff] at hf
  obtain ⟨r, hr, hf⟩ := hf
  split at hf
  · simp only [Option.bind_eq_some_iff, Prod.exists, Option.some.injEq, Prod.mk.injEq] at hf
    obtain ⟨t, k', r', ht, -, rfl⟩ := hf
    exact (closedBy?_suffix ht).trans ((strip?_suffix hr).trans (skipGap_suffix cs))
  · cases hf

theorem link?_suffix {cs rest : List Char} {k : Connector × Option String}
    (h : link? cs = some (k, rest)) : rest <:+ cs := by
  unfold link? at h
  split at h
  · rename_i k' r hk
    have hs := connector?_suffix hk
    split at h
    · rename_i text r' hb
      cases h
      exact (barLabel?_suffix hb).trans hs
    · cases h
      exact hs
  · simp only [Option.map_eq_some_iff, Prod.mk.injEq, Prod.exists] at h
    obtain ⟨k', t, r, ht, -, rfl⟩ := h
    exact inlineLabel?_suffix ht

/-- A hop takes at least one character off the line. -/
theorem hop?_suffix {cs rest : List Char} {p : Hop} (h : hop? cs = some (p, rest)) :
    rest <:+ cs ∧ rest.length < cs.length := by
  simp only [hop?, Option.bind_eq_bind, Option.bind_eq_some_iff, Prod.exists, Option.some.injEq,
    Prod.mk.injEq] at h
  obtain ⟨k, l, r, h₁, t, r', h₂, -, rfl⟩ := h
  have hl := link?_suffix h₁
  obtain ⟨hr, hlt⟩ := reference?_suffix h₂
  exact ⟨hr.trans hl, Nat.lt_of_lt_of_le hlt hl.length_le⟩

/-- The hops at the front of a line, as many as follow one another, and what stands behind them. -/
def chain (cs : List Char) : List Hop × List Char :=
  match _h : hop? cs with
  | none => ([], cs)
  | some (p, rest) =>
    let (hops, rest) := chain rest
    (p :: hops, rest)
termination_by cs.length
decreasing_by exact (hop?_suffix _h).2

/-- A chain leaves an end of the line. -/
theorem chain_suffix (cs : List Char) : (chain cs).2 <:+ cs := by
  fun_induction chain cs with
  | case1 cs => exact List.suffix_refl _
  | case2 cs p rest h hops rest' hc ih =>
    rw [hc] at ih
    exact ih.trans (hop?_suffix h).1

end Whiteboard.Flowchart
