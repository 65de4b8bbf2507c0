/-
Schemas: what the lines of an entity-relationship diagram add up to.

Entities stand in the order of their first mention. A line is read by what is open: inside the block
of an entity it can only add an attribute to that entity or close the block, outside it can only be
a relationship or the opening of a block.
-/

import Whiteboard.Entity.Statement
import Whiteboard.Style.Resolve

namespace Whiteboard.Entity

/-- An entity with the attributes its blocks have given it so far. -/
structure Table where
  id : String
  /-- The last alias given to it. -/
  otherName : Option String := none
  attributes : List Attribute := []
deriving DecidableEq, Repr

namespace Table

/-- The name shown for an entity: its alias, else its id. -/
def name (e : Table) : String :=
  e.otherName.getD e.id

/-- The name of an entity and a line for each attribute. -/
def label (e : Table) : String :=
  "\n".intercalate (e.name :: e.attributes.map Attribute.display)

/-- The node of an entity. Its style goes by its name, and without any it is a database. -/
def node (m : Overrides) (e : Table) : Node where
  id := e.id
  label := e.label
  style := (m.styleOf e.id e.name .rectangle).or (some .db)

end Table

/-- Changes the first entity with an id, which comes last if it is new. -/
def change (id : String) (f : Table → Table) : List Table → List Table
  | [] => [f { id }]
  | e :: es => if e.id == id then f e :: es else e :: change id f es

def introduce (id : String) (es : List Table) : List Table :=
  change id (fun e => e) es

def Relationship.edge (r : Relationship) : Edge where
  source := r.left
  target := r.right
  label := r.caption
  endHead := .absent
  stroke := some (if r.identifying then .solid else .dashed)

/-- What the lines read so far add up to. -/
structure Schema where
  entities : List Table := []
  relationships : List Relationship := []
  /-- The entity whose block is open. -/
  inside : Option String := none
deriving DecidableEq, Repr

namespace Schema

def add (s : Schema) : Statement → Schema
  | .relationship r =>
    { s with
      entities := introduce r.right (introduce r.left s.entities)
      relationships := s.relationships ++ [r] }
  | .opening id otherName closed =>
    { s with
      entities := change id (fun e => { e with otherName := otherName.or e.otherName }) s.entities
      inside := if closed then none else some id }

/-- The schema after one more statement inside the block of the entity `id`. -/
def addInside (s : Schema) (id : String) : BlockStatement → Schema
  | .attribute a =>
    { s with
      entities := change id (fun e => { e with attributes := e.attributes ++ [a] }) s.entities }
  | .close => { s with inside := none }

/-- The schema after one more line. A header line changes nothing, not even inside a block. -/
def addLine (s : Schema) (line : List Char) : Schema :=
  if Text.sameLetters line "erDiagram".toList then s
  else
    match s.inside with
    | some id => ((BlockStatement.ofLine? line).map (s.addInside id)).getD s
    | none => ((Statement.ofLine? line).map s.add).getD s

def ofText (body : List Char) : Schema :=
  (Text.significantLines body).foldl addLine {}

/-- The diagram of a schema, with the styles that a directive asks for. -/
def toDiagram (s : Schema) (directive : Directive) (text : String) : Diagram where
  dialect := .entityRelation
  nodes := s.entities.map (·.node directive.overrides)
  edges := s.relationships.map (·.edge)
  directive
  text

end Schema

end Whiteboard.Entity
