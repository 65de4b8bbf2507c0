/-
Charts: what the statements of a flowchart add up to.

Nodes stand in the order of their first mention; a definition in brackets changes shape and label of
a node mentioned before, a bare mention never does. The first header gives the direction. Only a
subgraph opened outside all others is kept, and every node mentioned before its end, at any depth,
becomes its member.
-/

import Whiteboard.Flowchart.Statement
import Whiteboard.Style.Resolve

namespace Whiteboard.Flowchart

def Reference.node (r : Reference) : Node :=
  match r.definition with
  | some d => { id := r.id, label := d.label, shape := d.shape }
  | none => .bare r.id

/-- A node with shape and label as a later mention gives them. -/
def Reference.redefine (r : Reference) (n : Node) : Node :=
  match r.definition with
  | some d => { n with shape := d.shape, label := d.label }
  | none => n

/-- The nodes after a mention: a new node comes last, the first node with the id is redefined. -/
def mention : List Node → Reference → List Node
  | [], r => [r.node]
  | n :: nodes, r => if n.id == r.id then r.redefine n :: nodes else n :: mention nodes r

/-- Applies a change to the last of some subgraphs. -/
def changeLast (f : Subgraph → Subgraph) : List Subgraph → List Subgraph
  | [] => []
  | [g] => [f g]
  | g :: gs => g :: changeLast f gs

/-- What the statements read so far add up to. -/
structure Chart where
  /-- The direction of the first header. -/
  direction : Option Direction := none
  nodes : List Node := []
  edges : List Edge := []
  subgraphs : List Subgraph := []
  /-- How many subgraphs are open. The outermost of them is the last one kept. -/
  depth : Nat := 0
deriving DecidableEq, Repr

namespace Chart

def addReference (c : Chart) (r : Reference) : Chart :=
  { c with
    nodes := mention c.nodes r
    subgraphs :=
      if c.depth = 0 then c.subgraphs else changeLast (·.addMember r.id) c.subgraphs }

def add (c : Chart) : Statement → Chart
  | .header d => { c with direction := c.direction.or (some d) }
  | .subgraph id label =>
    { c with
      depth := c.depth + 1
      subgraphs := if c.depth = 0 then c.subgraphs ++ [{ id, label }] else c.subgraphs }
  | .close => { c with depth := c.depth - 1 }
  | .path first hops =>
    let c := (first :: hops.map Hop.target).foldl addReference c
    { c with edges := c.edges ++ edgesFrom first.id hops }

def ofStatements (statements : List Statement) : Chart :=
  statements.foldl add {}

/-- The diagram of a chart, with the styles that a directive asks for. -/
def toDiagram (c : Chart) (directive : Directive) (text : String) : Diagram :=
  Diagram.restyle
    { dialect := .flowchart
      direction := c.direction.getD .td
      nodes := c.nodes
      edges := c.edges
      subgraphs := c.subgraphs
      directive
      text }

end Chart

def statements (body : List Char) : List Statement :=
  (Text.significantLines body).filterMap Statement.ofLine?

end Whiteboard.Flowchart
