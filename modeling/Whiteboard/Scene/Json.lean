/-
Scenes as JSON, for a whiteboard to open.

Every element has its id and kind first, then what is particular to the kind, then what all elements
have. Behind the elements their texts are listed once more.
-/

import Whiteboard.Json
import Whiteboard.Scene.Scene

namespace Whiteboard

open Json

/-! ### Parts of an element -/

/-- The end of an arrow as whiteboards name it. -/
def Head.marker? : Head → Option String
  | .absent => none
  | .closed => some "triangle"
  | .chevron => some "arrow"
  | .dot => some "dot"
  | .cross => some "bar"

def Align.names : Align → String × String
  | .left => ("left", "top")
  | .center => ("center", "middle")

def Body.kind : Body ι α → String
  | .rectangle => "rectangle"
  | .ellipse => "ellipse"
  | .diamond => "diamond"
  | .line _ => "line"
  | .arrow _ => "arrow"
  | .text _ => "text"

def BackReferenceKind.name : BackReferenceKind → String
  | .arrow => "arrow"
  | .text => "text"

/-- The place of a binding between the corners of the side it is at: always the middle. -/
def Binding.focus : Nat := 0

def Element.roundness : Nat := 3

def Caption.typeface : Nat := 1

def Point.toJson (p : Point Float) : Json :=
  array [number p.x, number p.y]

def Binding.toJson (b : Binding String Float) : Json :=
  object
    [("elementId", string b.target),
     ("focus", number (Float.ofNat Binding.focus)),
     ("gap", number b.gap)]

def BackReference.toJson (r : BackReference String) : Json :=
  object [("id", string r.id), ("type", string r.kind.name)]

/-- What is particular to the kind of an element. -/
def Body.fields : Body String Float → List (String × Json)
  | .rectangle | .ellipse | .diamond => []
  | .line points => [("points", array (points.map Point.toJson))]
  | .arrow a =>
    [("points", array (a.points.map Point.toJson)),
     ("startBinding", (a.startBinding.map Binding.toJson).getD null),
     ("endBinding", (a.endBinding.map Binding.toJson).getD null),
     ("startArrowhead", ofString? a.startHead.marker?),
     ("endArrowhead", ofString? a.endHead.marker?)]
  | .text t =>
    [("text", string t.text),
     ("originalText", string t.text),
     ("fontSize", number t.fontSize),
     ("fontFamily", natural Caption.typeface),
     ("textAlign", string t.align.names.1),
     ("verticalAlign", string t.align.names.2),
     ("lineHeight", number t.lineHeight),
     ("containerId", ofString? t.container)]

def Item.toJson (item : Item Float) : Json :=
  let e := item.element
  object
    ([("id", string e.id), ("type", string e.body.kind)] ++ e.body.fields ++
      [("x", number e.rect.x),
       ("y", number e.rect.y),
       ("width", number e.rect.width),
       ("height", number e.rect.height),
       ("angle", number 0),
       ("strokeColor", string e.stroke),
       ("backgroundColor", string e.background),
       ("fillStyle", string "solid"),
       ("strokeWidth", number e.strokeWidth),
       ("strokeStyle", string (if e.dashed then "dashed" else "solid")),
       ("roughness", natural 1),
       ("opacity", natural e.opacity),
       ("roundness", if e.rounded then object [("type", natural Element.roundness)] else null),
       ("seed", natural item.seed),
       ("version", natural 1),
       ("versionNonce", natural item.nonce),
       ("isDeleted", bool false),
       ("groupIds", array []),
       ("boundElements", array (e.bound.map BackReference.toJson)),
       ("index", string item.index)])

def Scene.textEntry (t : String × String) : Json :=
  object [("id", string t.1), ("text", string t.2)]

def Scene.toJson (s : Scene Float) : Json :=
  object
    [("elements", array (s.items.map Item.toJson)),
     ("texts", array (s.texts.map textEntry))]

end Whiteboard
