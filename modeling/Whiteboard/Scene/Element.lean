/-
Elements: the figures of a whiteboard.

An element is drawn in a rectangle and may refer to others: an arrow to the shapes at its two ends,
a text to its container, and a shape or an arrow back to the arrows and texts bound to it. The type
of these references is a parameter, so that elements can be put together by number before they are
given ids; `Element.map` renames them.
-/

import Whiteboard.Diagram.Basic
import Whiteboard.Geometry.Basic
import Whiteboard.Style.Palette

namespace Whiteboard

inductive Role where
  | frame | frameTitle | shape | nodeLabel | separator | lifeline | connector | connectorLabel
deriving DecidableEq, Repr

/-- One end of an arrow, bound to a shape. -/
structure Binding (ι α : Type) where
  target : ι
  /-- The distance kept from the shape. -/
  gap : α
deriving DecidableEq, Repr

/-- What refers back from a shape or an arrow. -/
inductive BackReferenceKind where
  | arrow | text
deriving DecidableEq, Repr

/-- A reference from a shape or an arrow to what is bound to it. -/
structure BackReference (ι : Type) where
  id : ι
  kind : BackReferenceKind
deriving DecidableEq, Repr

/-- How a text is set in its box. -/
inductive Align where
  /-- From the top left corner. -/
  | left
  /-- In the middle of both axes. -/
  | center
deriving DecidableEq, Repr

/-- What is particular to an arrow. Its points are relative to its rectangle's corner. -/
structure Arrow (ι α : Type) where
  points : List (Point α)
  startBinding : Option (Binding ι α)
  endBinding : Option (Binding ι α)
  startHead : Head
  endHead : Head
deriving DecidableEq, Repr

/-- What is particular to a text. -/
structure Caption (ι α : Type) where
  text : String
  fontSize : α
  /-- The height of a line as a multiple of the font size. -/
  lineHeight : α
  align : Align
  container : Option ι
deriving DecidableEq, Repr

/-- The kind of an element with what is particular to it. -/
inductive Body (ι α : Type) where
  | rectangle
  | ellipse
  | diamond
  | line (points : List (Point α))
  | arrow (a : Arrow ι α)
  | text (t : Caption ι α)
deriving DecidableEq, Repr

structure Element (ι α : Type) where
  id : ι
  body : Body ι α
  rect : Rect α
  role : Role
  /-- The id of the node or subgraph it is drawn for. -/
  owner : Option String := none
  stroke : String
  background : String
  dashed : Bool := false
  strokeWidth : α
  /-- In percent. -/
  opacity : Nat := 100
  /-- Its corners are rounded. -/
  rounded : Bool := false
  bound : List (BackReference ι) := []
deriving DecidableEq, Repr

namespace Binding

def map (f : ι → κ) (b : Binding ι α) : Binding κ α :=
  { target := f b.target, gap := b.gap }

end Binding

namespace BackReference

def map (f : ι → κ) (r : BackReference ι) : BackReference κ :=
  { id := f r.id, kind := r.kind }

end BackReference

namespace Body

def map (f : ι → κ) : Body ι α → Body κ α
  | rectangle => .rectangle
  | ellipse => .ellipse
  | diamond => .diamond
  | line points => .line points
  | arrow a =>
    .arrow
      { points := a.points
        startBinding := a.startBinding.map (Binding.map f)
        endBinding := a.endBinding.map (Binding.map f)
        startHead := a.startHead
        endHead := a.endHead }
  | text t =>
    .text
      { text := t.text
        fontSize := t.fontSize
        lineHeight := t.lineHeight
        align := t.align
        container := t.container.map f }

end Body

namespace Element

def map (f : ι → κ) (e : Element ι α) : Element κ α :=
  { id := f e.id
    body := e.body.map f
    rect := e.rect
    role := e.role
    owner := e.owner
    stroke := e.stroke
    background := e.background
    dashed := e.dashed
    strokeWidth := e.strokeWidth
    opacity := e.opacity
    rounded := e.rounded
    bound := e.bound.map (BackReference.map f) }

/-- The bindings of an arrow, its start first. Other elements have none. -/
def bindings (e : Element ι α) : List (Binding ι α) :=
  match e.body with
  | .arrow a => a.startBinding.toList ++ a.endBinding.toList
  | _ => []

def text? (e : Element ι α) : Option String :=
  match e.body with
  | .text t => some t.text
  | _ => none

def isArrow (e : Element ι α) : Bool :=
  match e.body with
  | .arrow _ => true
  | _ => false

end Element

end Whiteboard
