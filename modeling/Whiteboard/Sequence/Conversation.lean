/-
Conversations: what the statements of a sequence diagram add up to.

Participants stand in the order of their first appearance, declared or not. The last alias given to
a participant is its label, and one ever declared as an actor stays one.
-/

import Whiteboard.Sequence.Statement
import Whiteboard.Style.Resolve

namespace Whiteboard.Sequence

/-- One who takes part in a conversation. -/
structure Participant where
  id : String
  label : String
  isActor : Bool := false
deriving DecidableEq, Repr

namespace Participant

def bare (id : String) : Participant :=
  { id, label := id }

def declared (kind : Kind) (otherName : Option String) (p : Participant) : Participant :=
  { p with label := otherName.getD p.label, isActor := p.isActor || kind == .actor }

def shape (p : Participant) : Shape :=
  if p.isActor then .ellipse else .rectangle

/-- The node of a participant. An actor without a style of its own is a user. -/
def node (m : Overrides) (p : Participant) : Node where
  id := p.id
  label := p.label
  shape := p.shape
  style := (m.styleOf p.id p.label p.shape).or (if p.isActor then some .user else none)

end Participant

/-- Changes the first participant with an id, who joins as the last one if there is none. -/
def change (id : String) (f : Participant → Participant) : List Participant → List Participant
  | [] => [f (.bare id)]
  | p :: ps => if p.id == id then f p :: ps else p :: change id f ps

def join (id : String) (ps : List Participant) : List Participant :=
  change id (fun p => p) ps

/-- The edge of a message. A message without a text has no label. -/
def Message.edge (m : Message) : Edge where
  source := m.sender
  target := m.receiver
  label := if m.text.isEmpty then none else some m.text
  endHead := m.head
  stroke := some m.stroke

/-- What the statements read so far add up to. -/
structure Conversation where
  participants : List Participant := []
  messages : List Message := []
deriving DecidableEq, Repr

namespace Conversation

def add (c : Conversation) : Statement → Conversation
  | .declare kind id otherName =>
    { c with participants := change id (·.declared kind otherName) c.participants }
  | .mention id => { c with participants := join id c.participants }
  | .message m =>
    { participants := join m.receiver (join m.sender c.participants)
      messages := c.messages ++ [m] }

def ofStatements (statements : List Statement) : Conversation :=
  statements.foldl add {}

/-- The diagram of a conversation, with the styles that a directive asks for. -/
def toDiagram (c : Conversation) (directive : Directive) (text : String) : Diagram where
  dialect := .sequence
  nodes := c.participants.map (·.node directive.overrides)
  edges := c.messages.map (·.edge)
  directive
  text

end Conversation

def statements (body : List Char) : List Statement :=
  (Text.significantLines body).filterMap Statement.ofLine?

end Whiteboard.Sequence
