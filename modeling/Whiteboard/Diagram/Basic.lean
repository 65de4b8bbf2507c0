/-
Diagrams: what every dialect is read into.

A diagram is an ordered list of nodes, an ordered list of edges that name their ends by node id, a
list of subgraphs, and the presentation directive found in the text. Nothing here demands that ids
are distinct or that an edge's ends exist: `Diagram.resolvedEdges` are the edges whose ends do.
-/

import Whiteboard.Diagram.Category

namespace Whiteboard

inductive Dialect where
  | flowchart | sequence | entityRelation
deriving DecidableEq, Repr

/-- The direction in which the ranks of a flowchart advance. -/
inductive Direction where
  | td | tb | bt | lr | rl
deriving DecidableEq, Repr, Inhabited

namespace Direction

def all : List Direction :=
  [.td, .tb, .bt, .lr, .rl]

def token : Direction → String
  | .td => "TD"
  | .tb => "TB"
  | .bt => "BT"
  | .lr => "LR"
  | .rl => "RL"

/-- The direction two letters stand for, in either case. -/
def ofToken? (word : List Char) : Option Direction :=
  all.find? fun d => d.token.toList == word.map Char.toUpper

/-- Ranks advance along the x axis. -/
def isHorizontal : Direction → Bool
  | .lr | .rl => true
  | .td | .tb | .bt => false

/-- Ranks advance against their axis. -/
def isReversed : Direction → Bool
  | .bt | .rl => true
  | .td | .tb | .lr => false

end Direction

inductive Shape where
  | rectangle | cylinder | stadium | hexagon | ellipse | diamond
deriving DecidableEq, Repr, Inhabited

inductive Head where
  /-- Nothing. -/
  | absent
  /-- A filled triangle. -/
  | closed
  /-- Two strokes. -/
  | chevron
  /-- A circle. -/
  | dot
  /-- A cross bar. -/
  | cross
deriving DecidableEq, Repr, Inhabited

/-- How the line of an edge is drawn. -/
inductive Stroke where
  | solid | dashed | thick
deriving DecidableEq, Repr

structure Node where
  id : String
  /-- The text inside, its lines separated by line feeds. -/
  label : String
  shape : Shape := .rectangle
  style : Option Category := none
deriving DecidableEq, Repr

namespace Node

def bare (id : String) : Node :=
  { id, label := id }

def isMultiline (n : Node) : Bool :=
  n.label.toList.contains '\n'

end Node

/-- An edge between two node ids. -/
structure Edge where
  source : String
  target : String
  label : Option String := none
  startHead : Head := .absent
  endHead : Head := .closed
  stroke : Option Stroke := none
deriving DecidableEq, Repr

namespace Edge

def isDashed (e : Edge) : Bool :=
  e.stroke == some .dashed

def isSelfLoop (e : Edge) : Bool :=
  e.source == e.target

end Edge

structure Subgraph where
  id : String
  label : String
  /-- Ids of the members in the order of their first mention, each once. -/
  members : List String := []
  style : Option Category := none
deriving DecidableEq, Repr

namespace Subgraph

/-- Puts an id at the end of the members unless it is one already. -/
def addMember (g : Subgraph) (id : String) : Subgraph :=
  if g.members.contains id then g else { g with members := g.members ++ [id] }

end Subgraph

/-- Categories given to ids, at most one to each. -/
abbrev Overrides := List (String × Category)

namespace Overrides

/-- Gives `id` a category in the place of any it had. -/
def insert (m : Overrides) (id : String) (c : Category) : Overrides :=
  m.filter (·.1 != id) ++ [(id, c)]

def get? (m : Overrides) (id : String) : Option Category :=
  List.lookup id m

end Overrides

/-- What a text says about its presentation. -/
structure Directive where
  theme : Option String := none
  overrides : Overrides := []
deriving DecidableEq, Repr

structure Diagram where
  dialect : Dialect
  direction : Direction := .td
  nodes : List Node := []
  edges : List Edge := []
  subgraphs : List Subgraph := []
  directive : Directive := {}
  /-- The text the diagram was read from. -/
  text : String := ""
deriving DecidableEq, Repr

namespace Diagram

def node? (d : Diagram) (id : String) : Option Node :=
  d.nodes.find? (·.id == id)

def hasNode (d : Diagram) (id : String) : Bool :=
  d.nodes.any (·.id == id)

/-- The edges whose two ends both name a node. -/
def resolvedEdges (d : Diagram) : List Edge :=
  d.edges.filter fun e => d.hasNode e.source && d.hasNode e.target

end Diagram

end Whiteboard
