import Whiteboard.Proofs.Checked.Text
import Whiteboard.Sequence.Conversation

/-!
Reading a sequence diagram with its keywords and quotes cut by offsets (`statement_eq`).
-/

namespace Whiteboard.Checked.Sequence

open Text Whiteboard.Sequence

def declare (kind : Kind) (rest : List Char) : Attempt (Option Statement) := do
  let (id, otherName) ←
    match cut? " as ".toList rest with
    | some (id, otherName) => do
      let otherName ← unquote otherName
      pure (trim id, some (String.ofList otherName))
    | none => pure (trim rest, none)
  pure (if id.isEmpty then none else some (.declare kind (String.ofList id) otherName))

def statement (line : List Char) : Attempt (Option Statement) := do
  let line := trim line
  let behind (keyword : List Char) : Attempt (Option (List Char)) := stripKeyword? keyword line
  if sameLetters line "sequenceDiagram".toList then pure none
  else
    match ← declarations.findSomeM? fun d => return (← behind d.1).map fun rest => (d.2, rest) with
    | some (kind, rest) => declare kind rest
    | none =>
      match ← mentions.findSomeM? behind with
      | some rest => pure (mention? rest)
      | none =>
        if ← ignoredKeywords.anyM fun keyword => return (← behind keyword).isSome then pure none
        else pure ((message? line).map .message)

def addLine (c : Conversation) (line : List Char) : Attempt Conversation := do
  match ← statement line with
  | some s => pure (c.add s)
  | none => pure c

def conversation (body : List Char) : Attempt Conversation :=
  (significantLines body).foldlM addLine {}

theorem declare_eq (kind : Kind) (rest : List Char) :
    declare kind rest = pure (declare? kind rest) := by
  rw [declare, declare?]
  cases cut? " as ".toList rest with
  | none => rfl
  | some pair => simp [unquote_eq]

theorem statement_eq (line : List Char) : statement line = pure (Statement.ofLine? line) := by
  unfold statement Statement.ofLine?
  simp only [stripKeyword?_eq, declare_eq, pure_bind, List.anyM_pure, List.findSomeM?_pure]
  split
  · rfl
  · cases declarations.findSome? fun d =>
        (Text.stripKeyword? d.1 (trim line)).map fun rest => (d.2, rest) with
    | some pair => rfl
    | none =>
        dsimp only
        cases mentions.findSome? fun keyword => Text.stripKeyword? keyword (trim line) with
        | some rest => rfl
        | none =>
            dsimp only
            split <;> rfl

theorem addLine_eq (c : Conversation) (line : List Char) :
    addLine c line = pure ((Statement.ofLine? line).elim c c.add) := by
  rw [addLine, statement_eq, pure_bind]
  cases Statement.ofLine? line <;> rfl

/-- A conversation is read without an overrun. -/
theorem conversation_eq (body : List Char) :
    conversation body = pure (Conversation.ofStatements (statements body)) := by
  rw [conversation, foldlM_eq_pure addLine_eq, Conversation.ofStatements, statements,
    foldl_filterMap_elim]

end Whiteboard.Checked.Sequence
