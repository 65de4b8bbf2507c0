/-
Stencils: what the single elements of a drawing look like.

A stencil makes one element for an id: the frame of a subgraph or its title, the shape of a node,
its label or the line under an entity's name, a lifeline, an arrow or its label. It is told the ids
of the elements that it refers to, of whatever type ids are.
-/

import Whiteboard.Layout.Basic
import Whiteboard.Scene.Element
import Whiteboard.Settings

namespace Whiteboard

def Shape.figure {ι α : Type} : Shape → Body ι α
  | .ellipse => .ellipse
  | .diamond => .diamond
  | .rectangle | .cylinder | .stadium | .hexagon => .rectangle

/-- An element that refers back to a text it contains. -/
def Element.holding {ι α : Type} (text : ι) (e : Element ι α) : Element ι α :=
  { e with bound := e.bound ++ [{ id := text, kind := .text }] }

namespace Stencil

variable {ι α : Type} [Scalar α]

def figure (id : ι) (body : Body ι α) (rect : Rect α) (colors : Palette) (role : Role)
    (owner : Option String) : Element ι α :=
  { id, body, rect, role, owner, stroke := colors.stroke, background := colors.background,
    strokeWidth := 2 }

def ink : Palette :=
  ⟨Palette.ink, Palette.clear⟩

def text (s : Settings α) (id : ι) (content : String) (rect : Rect α) (align : Align)
    (container : Option ι) (role : Role) (owner : Option String) : Element ι α :=
  figure id
    (.text
      { text := content
        fontSize := s.fontSize
        lineHeight := s.lineHeight / s.fontSize
        align
        container })
    rect ink role owner

/-! ### Subgraphs -/

def frameOpacity : Nat := 40

/-- The distance of a title from the corner of its frame. -/
def titleInset : α := 10

/-- A frame is drawn unless its box has no width or no height. -/
def isVisible (r : Rect α) : Bool :=
  !(r.width ≤ 0) && !(r.height ≤ 0)

/-- The frame of a subgraph, in the colours of the first one that has its id. -/
def frame (d : Diagram) (f : Frame α) (id : ι) : Element ι α :=
  let style := (d.subgraphs.find? (·.id == f.id)).bind (·.style)
  { figure id .rectangle f.rect (Palette.ofStyle style) .frame (some f.id) with
    opacity := frameOpacity }

def title (s : Settings α) (f : Frame α) (id : ι) : Element ι α :=
  let size := s.textSize f.label
  let rect : Rect α := ⟨f.rect.x + titleInset, f.rect.y + titleInset, size.width, size.height⟩
  text s id f.label rect .left none .frameTitle (some f.id)

/-! ### Nodes -/

def shape (n : Node) (box : Rect α) (id : ι) : Element ι α :=
  { figure id n.shape.figure box (Palette.ofStyle n.style) .shape (some n.id) with
    rounded := n.shape == .stadium }

/-- The box of a node's label: centred, except that lines of text begin at the left padding. -/
def labelRect (s : Settings α) (n : Node) (box : Rect α) : Rect α :=
  let rect := Rect.around box.center (s.textSize n.label)
  if n.isMultiline then { rect with x := box.x + s.nodePaddingX } else rect

/-- The label of a node in the shape that contains it. -/
def label (s : Settings α) (n : Node) (box : Rect α) (container id : ι) : Element ι α :=
  text s id n.label (labelRect s n box) (if n.isMultiline then .left else .center)
    (some container) .nodeLabel (some n.id)

/-- The line across a box under the first line of its label. -/
def separator (s : Settings α) (n : Node) (box : Rect α) (id : ι) : Element ι α :=
  figure id (.line [⟨0, 0⟩, ⟨box.width, 0⟩])
    ⟨box.x, (labelRect s n box).y + s.lineHeight, box.width, 0⟩
    ⟨(Palette.ofStyle n.style).stroke, Palette.clear⟩ .separator (some n.id)

/-! ### Lifelines -/

def lifeline (l : Lifeline α) (id : ι) : Element ι α :=
  let length := l.bottom - l.top
  { figure id (.line [⟨0, 0⟩, ⟨0, length⟩]) ⟨l.x, l.top, 0, length⟩
      ⟨Palette.guide, Palette.clear⟩ .lifeline (some l.id) with
    dashed := true
    strokeWidth := 1 }

/-! ### Connectors -/

/-- The width and height of the box around the origin and some points. -/
def extent (points : List (Point α)) : Size α :=
  let xs := points.map Point.x
  let ys := points.map Point.y
  ⟨Scalar.greatest xs - xs.foldl Scalar.min 0, Scalar.greatest ys - ys.foldl Scalar.min 0⟩

/-- The arrow of an edge between two shapes, told the first point of its route. -/
def arrow (s : Settings α) (e : RoutedEdge α) (origin : Point α) (source target id : ι) :
    Element ι α :=
  let points := e.points.map fun p => (⟨p.x - origin.x, p.y - origin.y⟩ : Point α)
  let size := extent points
  { figure id
      (.arrow
        { points
          startBinding := some { target := source, gap := s.bindingGap }
          endBinding := some { target := target, gap := s.bindingGap }
          startHead := e.edge.startHead
          endHead := e.edge.endHead })
      ⟨origin.x, origin.y, size.width, size.height⟩ ink .connector none with
    dashed := e.edge.stroke == some .dashed
    strokeWidth := if e.edge.stroke == some .thick then 4 else 2 }

def labelOf? (e : Edge) : Option String :=
  e.label.filter (!·.isEmpty)

def messageLift : α := 4

def origin (points : List (Point α)) (h : 2 ≤ points.length) : Point α :=
  points.get ⟨0, by omega⟩

/-- The middle of the middle piece of a polyline. -/
def anchor (points : List (Point α)) (h : 2 ≤ points.length) : Point α :=
  let i := (points.length - 1) / 2
  let a := points.get ⟨i, by omega⟩
  let b := points.get ⟨i + 1, by omega⟩
  ⟨(a.x + b.x) / 2, (a.y + b.y) / 2⟩

/-- The label of a connector around a point of its arrow; that of a message is above its line. -/
def arrowLabel (s : Settings α) (dialect : Dialect) (content : String) (p : Point α)
    (container id : ι) : Element ι α :=
  let rect := Rect.around p (s.textSize content)
  let rect :=
    if dialect == .sequence then { rect with y := rect.y - (rect.height / 2 + messageLift) }
    else rect
  text s id content rect .center (some container) .connectorLabel none

end Stencil

end Whiteboard
