/-
Settings: the lengths a drawing is made with, and the size of texts and nodes under them.

A text is as wide as its longest line and as high as it has lines, at a fixed width for a character
and a fixed height for a line. A node leaves room around its label, and a diamond or an ellipse is
larger by a factor so that the label fits inside it.
-/

import Whiteboard.Diagram.Basic
import Whiteboard.Geometry.Basic

namespace Whiteboard

/-- What a drawing is made with. -/
structure Settings (α : Type) where
  charWidth : α
  lineHeight : α
  fontSize : α
  nodePaddingX : α
  nodePaddingY : α
  minNodeWidth : α
  minNodeHeight : α
  /-- Between neighbours of one rank. -/
  nodeGap : α
  /-- Between ranks. -/
  rankGap : α
  /-- Around the members of a subgraph. -/
  framePadding : α
  /-- Above the members of a subgraph, for its title. -/
  titleHeight : α
  /-- Between participants. -/
  columnGap : α
  /-- Between messages. -/
  messageSpacing : α
  /-- Between the cells of an entity grid. -/
  gridGap : α
  gridMaxColumns : Nat
  /-- The sideways shift of relationships. -/
  edgeOffset : α
  /-- Between the tip of an arrow and what it is bound to. -/
  bindingGap : α
  /-- A direction that takes the place of the one a flowchart asks for. -/
  direction : Option Direction
  /-- The seed of ids and of everything random. -/
  seed : UInt64
deriving DecidableEq, Repr

namespace Settings

variable {α : Type} [Scalar α]

def standard : Settings α where
  charWidth := 9
  lineHeight := 25
  fontSize := 20
  nodePaddingX := 20
  nodePaddingY := 15
  minNodeWidth := 120
  minNodeHeight := 60
  nodeGap := 60
  rankGap := 100
  framePadding := 30
  titleHeight := 30
  columnGap := 80
  messageSpacing := 60
  gridGap := 120
  gridMaxColumns := 4
  edgeOffset := 12
  bindingGap := 8
  direction := none
  seed := 1

def textSize (s : Settings α) (text : String) : Size α :=
  let lines := text.toList.splitOn '\n'
  let longest := lines.foldl (fun n line => Nat.max n line.length) 0
  ⟨Scalar.ofNat longest * s.charWidth, Scalar.ofNat lines.length * s.lineHeight⟩

/-- The factor by which a shape that tapers is larger than a rectangle around the same label. -/
def taper : α :=
  Scalar.ofNat 14 / Scalar.ofNat 10

def nodeSize (s : Settings α) (n : Node) : Size α :=
  let text := s.textSize n.label
  let width := Scalar.max (text.width + 2 * s.nodePaddingX) s.minNodeWidth
  let height := Scalar.max (text.height + 2 * s.nodePaddingY) s.minNodeHeight
  match n.shape with
  | .diamond | .ellipse => ⟨width * taper, height * taper⟩
  | .rectangle | .cylinder | .stadium | .hexagon => ⟨width, height⟩

end Settings

end Whiteboard
