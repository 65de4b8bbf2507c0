/-
Builders: drawings in the making.

A builder draws one thing of a diagram after the other. An element gets its id, its seeds and its
index token when it is made, so that whatever refers to it names it by the id that was drawn. Arrows
find their ends in a table of the shapes drawn before them, and shapes learn of their arrows when
all is drawn.
-/

import Std.Data.HashMap
import Whiteboard.Identity.Source
import Whiteboard.Scene.Reconcile
import Whiteboard.Scene.Stencil

namespace Whiteboard

structure Item (α : Type) where
  element : Element String α
  seed : Nat
  nonce : Nat
  /-- Compared as texts, the tokens of a scene are in the order from back to front. -/
  index : String
deriving DecidableEq, Repr

namespace Item

variable {α : Type}

/-- An item that refers back to the text of another one. -/
def holding (item text : Item α) : Item α :=
  { item with element := item.element.holding text.element.id }

def reconcile (items : List (Item α)) : List (Item α) :=
  items.zipWith (fun item element => { item with element })
    (Element.reconcile (items.map (·.element)))

end Item

/-- What has been drawn, and what is needed to go on. -/
structure Builder (g : Generator) (α : Type) where
  source : Source g
  /-- From back to front. -/
  items : Array (Item α) := #[]
  /-- The id of the shape last drawn for a node id. -/
  shapes : Std.HashMap String String := {}

namespace Builder

variable {g : Generator} {α : Type}

/-- Makes an element under a new id, with new seeds and the next index token. -/
def create (stencil : String → Element String α) : StateM (Builder g α) (Item α) :=
  modifyGet fun b =>
    let drawn := b.source.stamp
    ({ element := stencil drawn.1.id, seed := drawn.1.seed, nonce := drawn.1.nonce,
       index := drawn.1.index },
      { b with source := drawn.2 })

def push (item : Item α) : StateM (Builder g α) Unit :=
  modify fun b => { b with items := b.items.push item }

/-- Takes down the shape of a node id, in the place of an earlier one. -/
def enter (id shape : String) : StateM (Builder g α) Unit :=
  modify fun b => { b with shapes := b.shapes.insert id shape }

variable [Scalar α]

def frame (s : Settings α) (d : Diagram) (f : Frame α) : StateM (Builder g α) Unit := do
  if Stencil.isVisible f.rect then
    push (← create (Stencil.frame d f))
    push (← create (Stencil.title s f))

/-- Draws the shape of a node with its label, and the line under an entity's name. -/
def node (s : Settings α) (d : Diagram) (p : PlacedNode α) : StateM (Builder g α) Unit := do
  match d.node? p.id with
  | none => return
  | some n =>
    let shape ← create (Stencil.shape n p.rect)
    let label ← create (Stencil.label s n p.rect shape.element.id)
    enter n.id shape.element.id
    push (shape.holding label)
    push label
    if d.dialect == .entityRelation && n.isMultiline then
      push (← create (Stencil.separator s n p.rect))

def lifeline (l : Lifeline α) : StateM (Builder g α) Unit := do
  push (← create (Stencil.lifeline l))

/-- Draws the arrow of an edge from one shape to another with its label. -/
def arrow (s : Settings α) (dialect : Dialect) (e : RoutedEdge α) (h : 2 ≤ e.points.length)
    (source target : String) : StateM (Builder g α) Unit := do
  let arrow ← create (Stencil.arrow s e (Stencil.origin e.points h) source target)
  match Stencil.labelOf? e.edge with
  | none => push arrow
  | some content =>
    let label ← create
      (Stencil.arrowLabel s dialect content (Stencil.anchor e.points h) arrow.element.id)
    push (arrow.holding label)
    push label

/-- Draws an edge that has a route, if there are shapes at both its ends. -/
def connector (s : Settings α) (dialect : Dialect) (e : RoutedEdge α) :
    StateM (Builder g α) Unit := do
  if h : 2 ≤ e.points.length then
    let b ← get
    match b.shapes[e.edge.source]?, b.shapes[e.edge.target]? with
    | some source, some target => arrow s dialect e h source target
    | _, _ => return

def draw (s : Settings α) (d : Diagram) (l : Layout α) : StateM (Builder g α) Unit := do
  l.frames.forM (frame s d)
  l.nodes.forM (node s d)
  l.lifelines.forM lifeline
  l.edges.forM (connector s d.dialect)

end Builder

end Whiteboard
