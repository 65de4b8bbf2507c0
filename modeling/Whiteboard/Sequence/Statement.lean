/-
Sequence statements: what one line of a sequence diagram says.

A line declares a participant or an actor, mentions one, or is a message: a sender, an arrow, a
receiver and perhaps a text behind a colon. The sender ends at the first place where an arrow stands
with a receiver behind it. A sign for activation before the receiver is passed over. Lines that only
structure the diagram say nothing.
-/

import Whiteboard.Diagram.Basic
import Whiteboard.Text.Line

namespace Whiteboard.Sequence

open Text

/-- An arrow as it is written, and how it is drawn. -/
structure Arrow where
  token : List Char
  head : Head
  stroke : Stroke
deriving DecidableEq, Repr

/-- The arrows in the order in which they are tried. -/
def arrows : List Arrow :=
  [⟨"-->>".toList, .closed, .dashed⟩,
   ⟨"->>".toList, .closed, .solid⟩,
   ⟨"-->".toList, .chevron, .dashed⟩,
   ⟨"->".toList, .chevron, .solid⟩,
   ⟨"--x".toList, .cross, .dashed⟩,
   ⟨"-x".toList, .cross, .solid⟩,
   ⟨"--)".toList, .chevron, .dashed⟩,
   ⟨"-)".toList, .chevron, .solid⟩]

structure Message where
  sender : String
  receiver : String
  text : String
  head : Head
  stroke : Stroke
deriving DecidableEq, Repr

inductive Kind where
  | participant | actor
deriving DecidableEq, Repr

inductive Statement where
  | declare (kind : Kind) (id : String) (otherName : Option String)
  /-- Names a participant and draws nothing. -/
  | mention (id : String)
  | message (m : Message)
deriving DecidableEq, Repr

/-! ### Messages -/

/-- The text behind the receiver: none, or what stands behind a colon and blanks on one line. -/
def text? : List Char → Option (List Char)
  | [] => some []
  | _ :: cs =>
    let text := trimStart cs
    if text.contains '\n' then none else some text

/-- The receiver without a sign for activation, unless it is nothing but that sign. -/
def dropSign : List Char → List Char
  | c :: d :: cs => if c == '+' || c == '-' then d :: cs else c :: d :: cs
  | cs => cs

/-- The receiver and the text that stand behind an arrow. -/
def receiver? (cs : List Char) : Option (List Char × List Char) :=
  let receiver := cs.takeWhile (· != ':')
  if receiver.isEmpty then none
  else (text? (cs.drop receiver.length)).map fun text => (dropSign receiver, text)

/-- A message cut into its parts. -/
structure Parts where
  sender : List Char
  arrow : Arrow
  receiver : List Char
  text : List Char
deriving DecidableEq, Repr

/-- The parts of a message whose arrow stands here. -/
def arrowAt? (cs : List Char) : Option Parts :=
  arrows.findSome? fun arrow => do
    let rest ← strip? arrow.token cs
    let (receiver, text) ← receiver? rest
    some { sender := [], arrow, receiver, text }

/-- The parts of a message: the sender has at least one character, stands on one line, and is as
short as an arrow behind it allows. -/
def parts? : List Char → Option Parts
  | [] => none
  | c :: cs =>
    if c == '\n' then none
    else
      match arrowAt? (trimStart cs) with
      | some p => some { p with sender := [c] }
      | none => (parts? cs).map fun p => { p with sender := c :: p.sender }

def message? (line : List Char) : Option Message := do
  let p ← parts? line
  let sender := trim p.sender
  let receiver := trim p.receiver
  if sender.isEmpty || receiver.isEmpty then none
  else
    some
      { sender := String.ofList sender
        receiver := String.ofList receiver
        text := String.ofList (trim p.text)
        head := p.arrow.head
        stroke := p.arrow.stroke }

/-! ### Reading a line -/

def declarations : List (List Char × Kind) :=
  [("participant".toList, .participant), ("actor".toList, .actor)]

def mentions : List (List Char) :=
  ["activate".toList, "deactivate".toList]

/-- The words that open a line which draws nothing. -/
def ignoredKeywords : List (List Char) :=
  ["note".toList, "loop".toList, "alt".toList, "else".toList, "opt".toList, "par".toList,
   "and".toList, "critical".toList, "option".toList, "break".toList, "rect".toList, "end".toList,
   "autonumber".toList, "title".toList, "box".toList, "destroy".toList, "create".toList]

/-- A declaration from what stands behind its keyword: an id, and perhaps ` as ` and an alias. -/
def declare? (kind : Kind) (rest : List Char) : Option Statement :=
  let (id, otherName) :=
    match cut? " as ".toList rest with
    | some (id, otherName) => (trim id, some (String.ofList (unquote otherName)))
    | none => (trim rest, none)
  if id.isEmpty then none else some (.declare kind (String.ofList id) otherName)

def mention? (rest : List Char) : Option Statement :=
  if rest.isEmpty then none else some (.mention (String.ofList rest))

def Statement.ofLine? (line : List Char) : Option Statement :=
  let line := trim line
  let behind (keyword : List Char) : Option (List Char) := stripKeyword? keyword line
  if sameLetters line "sequenceDiagram".toList then none
  else
    match declarations.findSome? fun (keyword, kind) => (behind keyword).map fun r => (kind, r) with
    | some (kind, rest) => declare? kind rest
    | none =>
      match mentions.findSome? behind with
      | some rest => mention? rest
      | none =>
        if ignoredKeywords.any fun keyword => (behind keyword).isSome then none
        else (message? line).map .message

end Whiteboard.Sequence
