import Whiteboard.Flowchart.Reading
import Whiteboard.Proofs.Checked.Text

/-!
A cursor in a flowchart line.

A cursor is a line and a position in it. It looks at the characters at and behind its position,
moves on, and takes pieces of the line between two of its positions. A cursor that is `facing` a
rest of its line sees and passes over what stands at the front of that rest, and no move takes it
out of the line.
-/

namespace Whiteboard.Checked

open Text Flowchart Flowchart.Reading

structure Cursor where
  line : List Char
  position : Nat

namespace Cursor

variable {line rest cs taken token closing : List Char} {ch : Char} {α : Type}

/-! ### Moving over a line -/

def isAtEnd (c : Cursor) : Bool :=
  c.line.length ≤ c.position

def advance (c : Cursor) (n : Nat) : Cursor :=
  { c with position := c.position + n }

def seesAt (line : List Char) : (position : Nat) → (token : List Char) → Attempt Bool
  | _, [] => pure true
  | i, t :: token =>
    if line.length ≤ i then pure false
    else do
      let ch ← read line i
      if ch = t then seesAt line (i + 1) token else pure false

def sees (c : Cursor) (token : List Char) : Attempt Bool :=
  seesAt c.line c.position token

def take (c : Cursor) (token : List Char) : Attempt (Bool × Cursor) := do
  if ← c.sees token then pure (true, c.advance token.length) else pure (false, c)

def skip (p : Char → Bool) (c : Cursor) : Attempt Cursor :=
  if _h : c.position < c.line.length then do
    let ch ← read c.line c.position
    if p ch then skip p (c.advance 1) else pure c
  else pure c
termination_by c.line.length - c.position
decreasing_by
  simp only [advance]
  omega

/-- Moves to the next place where a text stands, or to the end of the line. -/
def skipTo (closing : List Char) (c : Cursor) : Attempt Cursor :=
  if _h : c.position < c.line.length then do
    if ← c.sees closing then pure c else skipTo closing (c.advance 1)
  else pure c
termination_by c.line.length - c.position
decreasing_by
  simp only [advance]
  omega

def upTo (c stop : Cursor) : Attempt (List Char) :=
  piece c.line c.position stop.position

/-! ### Ids and directions -/

/-- Moves over what continues an id. A look behind the next character may find nothing. -/
def skipId (c : Cursor) : Attempt Cursor :=
  if _h : c.position < c.line.length then do
    let ch ← read c.line c.position
    let joins := ch == '-' && c.line[c.position + 1]?.any isIdChar
    if isIdChar ch || joins then skipId (c.advance 1) else pure c
  else pure c
termination_by c.line.length - c.position
decreasing_by
  simp only [advance]
  omega

def id (c : Cursor) : Attempt (Option String × Cursor) :=
  if c.isAtEnd then pure (none, c)
  else do
    let ch ← read c.line c.position
    if isIdChar ch then
      let stop ← (c.advance 1).skipId
      let id ← c.upTo stop
      pure (some (String.ofList id), stop)
    else pure (none, c)

def direction (c : Cursor) : Attempt (Option Direction × Cursor) := do
  let stop ← c.skip Char.isAlpha
  let word ← c.upTo stop
  match Direction.ofToken? word with
  | some d => pure (some d, stop)
  | none => pure (none, c)

/-! ### Labels -/

def quotedTail (c : Cursor) : Attempt (List Char × Cursor) :=
  if _h : c.position < c.line.length then do
    let ch ← read c.line c.position
    if ch = '"' then pure ([], c.advance 1)
    else if ch = '\\' ∧ c.position + 1 < c.line.length then do
      let next ← read c.line (c.position + 1)
      let (text, stop) ← quotedTail (c.advance 2)
      pure ((if next == 'n' then '\n' else next) :: text, stop)
    else do
      let (text, stop) ← quotedTail (c.advance 1)
      pure (ch :: text, stop)
  else pure ([], c)
termination_by c.line.length - c.position
decreasing_by
  all_goals
    simp only [advance]
    omega

def isAtQuote (c : Cursor) : Attempt Bool :=
  if c.position < c.line.length then return (← read c.line c.position) == '"' else pure false

def quoted (c : Cursor) : Attempt (Option String × Cursor) := do
  if ← c.isAtQuote then
    let (text, stop) ← (c.advance 1).quotedTail
    pure (some (String.ofList text), stop)
  else pure (none, c)

def label (closing : List Char) (c : Cursor) : Attempt (String × Cursor) := do
  let c ← c.skip isGap
  if ← c.isAtQuote then
    let (text, stop) ← (c.advance 1).quotedTail
    let stop ← stop.skip isGap
    pure (String.ofList (normalizeBreaks text), stop)
  else
    let stop ← c.skipTo closing
    let text ← c.upTo stop
    pure (String.ofList (normalizeBreaks (trim text)), stop)

/-! ### References to nodes -/

/-- The definition in the first of some brackets that open here. -/
def definitionIn : List Bracket → Cursor → Attempt (Option Definition × Cursor)
  | [], c => pure (none, c)
  | b :: bs, c => do
    let (opens, inside) ← c.take b.opening
    if opens then
      let (label, stop) ← inside.label b.closing
      let (_, stop) ← stop.take b.closing
      pure (some ⟨b.shape, label⟩, stop)
    else definitionIn bs inside

def definition (c : Cursor) : Attempt (Option Definition × Cursor) :=
  definitionIn brackets c

def reference (c : Cursor) : Attempt (Option Reference × Cursor) := do
  let c ← c.skip isGap
  match ← c.id with
  | (none, c) => pure (none, c)
  | (some id, c) =>
    let (definition, stop) ← c.definition
    pure (some ⟨id, definition⟩, stop)

/-! ### Connectors -/

/-- What the first of some tokens that stands here stands for. -/
def tokenOf : List (List Char × α) → Cursor → Attempt (Option α × Cursor)
  | [], c => pure (none, c)
  | (token, a) :: tokens, c => do
    let (stands, stop) ← c.take token
    if stands then pure (some a, stop) else tokenOf tokens stop

def connector (c : Cursor) : Attempt (Option Connector × Cursor) := do
  let c ← c.skip isGap
  c.tokenOf connectors

def barLabel (c : Cursor) : Attempt (Option String × Cursor) := do
  let c ← c.skip isGap
  let (opens, start) ← c.take ['|']
  if opens then
    let stop ← start.skip (· != '|')
    let text ← start.upTo stop
    let (_, stop) ← stop.take ['|']
    pure (some (String.ofList (normalizeBreaks (← unquote text))), stop)
  else pure (none, c)

/-- The text between a cursor and the next place where one of some closings stands. -/
def closedBy (closings : List (List Char × Connector)) (start c : Cursor) :
    Attempt (Option (List Char × Connector) × Cursor) :=
  if _h : c.position < c.line.length then do
    match ← c.tokenOf closings with
    | (some k, stop) => do
      let text ← start.upTo c
      pure (some (text, k), stop)
    | (none, _) => closedBy closings start (c.advance 1)
  else pure (none, c)
termination_by c.line.length - c.position
decreasing_by
  simp only [advance]
  omega

/-- The connector and label in the first of some forms that is written here. A look behind the two
characters that open it may find nothing. -/
def inlineLabelIn : List InlineForm → Cursor → Attempt (Option (Connector × String) × Cursor)
  | [], c => pure (none, c)
  | form :: forms, c => do
    let spaced := c.line[c.position + 2]?.any isBlank
    let opens ← c.sees form.opening
    if opens && spaced then
      let start := c.advance 2
      match ← closedBy form.closings start start with
      | (some (text, k), stop) =>
        pure (some (k, String.ofList (normalizeBreaks (← unquote text))), stop)
      | (none, _) => inlineLabelIn forms c
    else inlineLabelIn forms c

def inlineLabel (c : Cursor) : Attempt (Option (Connector × String) × Cursor) := do
  let c ← c.skip isGap
  c.inlineLabelIn inlineForms

/-! ### Chains -/

/-- A connector with its label, in either way of writing it. -/
def link (c : Cursor) : Attempt (Option (Connector × Option String) × Cursor) := do
  match ← c.connector with
  | (some k, c) =>
    let (label, c) ← c.barLabel
    pure (some (k, label.filter (!·.isEmpty)), c)
  | (none, c) =>
    match ← c.inlineLabel with
    | (some (k, label), c) => pure (some (k, (some label).filter (!·.isEmpty)), c)
    | (none, c) => pure (none, c)

/-- The hops from here on, each of which must move the cursor on. -/
def chain (c : Cursor) : Attempt (List Hop × Cursor) := do
  match ← c.link with
  | (none, _) => pure ([], c)
  | (some (connector, label), next) =>
    match ← next.reference with
    | (none, _) => pure ([], c)
    | (some target, next) =>
      if _h : next.line.length - next.position < c.line.length - c.position then do
        let (hops, stop) ← chain next
        pure ({ connector, label, target } :: hops, stop)
      else throw .standstill
termination_by c.line.length - c.position

/-! ### Readings -/

/-- The answer of a reading here, and where it leaves the cursor. -/
def run : (r : Reading) → Cursor → Attempt (r.Answer × Cursor)
  | .atEnd, c => pure (c.isAtEnd, c)
  | .sees token, c => return (← c.sees token, c)
  | .take token, c => c.take token
  | .gap, c => return ((), ← c.skip isGap)
  | .id, c => c.id
  | .direction, c => c.direction
  | .quoted, c => c.quoted
  | .label closing, c => c.label closing
  | .definition, c => c.definition
  | .reference, c => c.reference
  | .connector, c => c.connector
  | .barLabel, c => c.barLabel
  | .inlineLabel, c => c.inlineLabel
  | .chain, c => c.chain

/-! ### A cursor and the rest of its line -/

def facing (line rest : List Char) : Cursor :=
  ⟨line, line.length - rest.length⟩

@[simp] theorem line_facing (line rest : List Char) : (facing line rest).line = line := rfl

theorem getElem?_facing (h : rest <:+ line) (k : Nat) :
    (line)[(facing line rest).position + k]? = rest[k]? := by
  obtain ⟨before, rfl⟩ := h
  simp [facing, List.getElem?_append_right]

theorem facing_lt (h : ch :: cs <:+ line) : (facing line (ch :: cs)).position < line.length := by
  have := h.length_le
  simp only [facing, List.length_cons] at this ⊢
  omega

theorem not_facing_nil_lt : ¬ (facing line []).position < line.length := by
  simp [facing]

/-- A cursor in front of a character reads that character. -/
theorem read_facing (h : ch :: cs <:+ line) :
    read line (facing line (ch :: cs)).position = pure ch :=
  read_of_getElem? (getElem?_facing h 0)

/-- Moving over some text leaves the cursor behind it. -/
theorem advance_facing (h : taken ++ cs <:+ line) :
    (facing line (taken ++ cs)).advance taken.length = facing line cs := by
  have := h.length_le
  simp only [facing, advance, List.length_append, mk.injEq, true_and] at this ⊢
  omega

theorem advance_facing_cons (h : ch :: cs <:+ line) :
    (facing line (ch :: cs)).advance 1 = facing line cs :=
  advance_facing (show [ch] ++ cs <:+ line from h)

/-- The piece between two cursors is the text between them. -/
theorem upTo_facing (h : rest <:+ line) (hcut : taken ++ cs = rest) :
    (facing line rest).upTo (facing line cs) = pure taken := by
  subst hcut
  obtain ⟨before, rfl⟩ := h
  have hstart : (before ++ (taken ++ cs)).length - (taken ++ cs).length = before.length := by simp
  have hstop : (before ++ (taken ++ cs)).length - cs.length = (before ++ taken).length := by
    simp
    omega
  have hpiece := piece_append before taken cs
  rwa [List.append_assoc, ← hstart, ← hstop] at hpiece

theorem suffix_of_cons (h : ch :: cs <:+ line) : cs <:+ line :=
  (List.suffix_cons ch cs).trans h

/-- An answer, and the cursor before the rest that it leaves. -/
def answer (line : List Char) (found : α × List Char) : Attempt (α × Cursor) :=
  pure (found.1, facing line found.2)

/-- What is done with an answer is done behind what was read for it. -/
theorem answer_bind {β : Type} (found : α × List Char) (f : α × Cursor → Attempt β) :
    answer line found >>= f = f (found.1, facing line found.2) := rfl

/-! ### Moves of a cursor before a rest -/

theorem seesAt_facing (h : rest <:+ line) :
    seesAt line (facing line rest).position token = pure (strip? token rest).isSome := by
  induction token generalizing rest with
  | nil => rfl
  | cons t token ih =>
      cases rest with
      | nil => rw [seesAt, if_pos (Nat.le_of_not_lt not_facing_nil_lt)]; rfl
      | cons ch cs =>
          have hnext := ih (suffix_of_cons h)
          rw [← advance_facing_cons h] at hnext
          rw [seesAt, if_neg (Nat.not_le_of_lt (facing_lt h)), read_facing h, pure_bind, strip?]
          by_cases hch : ch = t
          · rw [if_pos hch, if_pos hch.symm]
            exact hnext
          · rw [if_neg hch, if_neg (Ne.symm hch)]
            rfl

/-- A text stands at the cursor if the rest of the line starts with it. -/
theorem sees_facing (h : rest <:+ line) :
    (facing line rest).sees token = pure (strip? token rest).isSome :=
  seesAt_facing h

/-- A text that stands at the front is moved over. -/
theorem take_facing (h : rest <:+ line) :
    (facing line rest).take token =
      answer line (match strip? token rest with
        | some rest => (true, rest)
        | none => (false, rest)) := by
  rw [take, sees_facing h, pure_bind]
  cases hstrip : strip? token rest with
  | none => rfl
  | some rest' =>
      obtain rfl := strip?_eq_some.mp hstrip
      rw [advance_facing h]
      rfl

/-- Skipping a class of characters never leaves the line. -/
theorem skip_facing (p : Char → Bool) (h : rest <:+ line) :
    (facing line rest).skip p = pure (facing line (rest.dropWhile p)) := by
  induction rest with
  | nil =>
      rw [skip, line_facing, dif_neg not_facing_nil_lt]
      rfl
  | cons ch cs ih =>
      rw [skip, line_facing, dif_pos (facing_lt h), read_facing h, pure_bind]
      by_cases hp : p ch = true
      · rw [if_pos hp, advance_facing_cons h, ih (suffix_of_cons h), List.dropWhile_cons_of_pos hp]
      · rw [if_neg hp, List.dropWhile_cons_of_neg hp]

theorem skipGap_facing (h : rest <:+ line) :
    (facing line rest).skip isGap = pure (facing line (skipGap rest)) :=
  skip_facing isGap h

theorem isSome_strip? (token cs : List Char) : (strip? token cs).isSome = token.isPrefixOf cs := by
  rw [Bool.eq_iff_iff, List.isPrefixOf_iff_prefix, ← not_iff_not, ← strip?_eq_none_iff]
  simp

/-- Moving to a text stops in front of its first occurrence, or at the end of the line. -/
theorem skipTo_facing (h : rest <:+ line) :
    (facing line rest).skipTo closing = pure (facing line (Text.upTo closing rest).2) := by
  induction rest with
  | nil =>
      rw [skipTo, line_facing, dif_neg not_facing_nil_lt]
      rfl
  | cons ch cs ih =>
      rw [skipTo, line_facing, dif_pos (facing_lt h), sees_facing h, pure_bind, Text.upTo,
        isSome_strip?]
      by_cases hclosing : closing.isPrefixOf (ch :: cs) = true
      · rw [if_pos hclosing, if_pos hclosing]
      · rw [if_neg hclosing, if_neg hclosing, advance_facing_cons h, ih (suffix_of_cons h)]

/-- The look behind a hyphen stays inside the line or finds nothing. -/
theorem skipId_facing (h : rest <:+ line) :
    (facing line rest).skipId = pure (facing line (idTail rest).2) := by
  induction rest with
  | nil =>
      rw [skipId, line_facing, dif_neg not_facing_nil_lt]
      rfl
  | cons ch cs ih =>
      have hnext : (line)[(facing line (ch :: cs)).position + 1]? = cs.head? := by
        rw [getElem?_facing h]
        cases cs <;> rfl
      rw [skipId, line_facing, dif_pos (facing_lt h), read_facing h, pure_bind, idTail, hnext]
      by_cases hid : (isIdChar ch || ch == '-' && cs.head?.any isIdChar) = true
      · rw [if_pos hid, if_pos hid, advance_facing_cons h, ih (suffix_of_cons h)]
      · rw [if_neg hid, if_neg hid]

theorem isAtEnd_facing (h : rest <:+ line) : (facing line rest).isAtEnd = rest.isEmpty := by
  cases rest with
  | nil => simp [isAtEnd, facing]
  | cons ch cs => exact decide_eq_false (Nat.not_le_of_lt (facing_lt h))

end Cursor

end Whiteboard.Checked
