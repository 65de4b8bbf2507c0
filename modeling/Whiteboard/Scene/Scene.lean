/-
Scenes: finished drawings.

A scene is what a builder has drawn for a diagram, with the references of shapes to their arrows
filled in.
-/

import Whiteboard.Layout.Arrange
import Whiteboard.Scene.Builder

namespace Whiteboard

/-- A finished drawing, from back to front. -/
structure Scene (α : Type) where
  items : List (Item α)
deriving DecidableEq, Repr

namespace Scene

variable {α : Type}

def elements (s : Scene α) : List (Element String α) :=
  s.items.map (·.element)

/-- The ids of the texts in a scene with what they say. -/
def texts (s : Scene α) : List (String × String) :=
  s.elements.filterMap fun e => e.text?.map fun text => (e.id, text)

def withRole (s : Scene α) (role : Role) : List (Element String α) :=
  s.elements.filter (·.role == role)

def shapeFor? (s : Scene α) (id : String) : Option (Element String α) :=
  (s.withRole .shape).find? (·.owner == some id)

def arrows (s : Scene α) : List (Element String α) :=
  s.elements.filter (·.isArrow)

variable [Scalar α]

/-- The scene of a diagram under a layout, with identities from a generator. -/
def draw (g : Generator) (s : Settings α) (d : Diagram) (l : Layout α) : Scene α :=
  let start : Builder g α := { source := .ofSeed g s.seed }
  { items := Item.reconcile (Builder.draw s d l start).2.items.toList }

def ofDiagram (g : Generator) (s : Settings α) (d : Diagram) : Scene α :=
  draw g s d (Layout.ofDiagram s d)

end Scene

end Whiteboard
