/-
Colours: a stroke and a background for each style category, and a neutral pair for a node without
one.
-/

import Whiteboard.Diagram.Category

namespace Whiteboard

/-- The colours of a figure, as hexadecimal triples. -/
structure Palette where
  stroke : String
  background : String
deriving DecidableEq, Repr

namespace Palette

def neutral : Palette :=
  ⟨"#1e1e1e", "#ffffff"⟩

def ofCategory : Category → Palette
  | .db => ⟨"#1971c2", "#a5d8ff"⟩
  | .cache => ⟨"#e8590c", "#ffd8a8"⟩
  | .queue => ⟨"#f08c00", "#ffec99"⟩
  | .service => ⟨"#2f9e44", "#b2f2bb"⟩
  | .ui => ⟨"#6741d9", "#d0bfff"⟩
  | .gateway => ⟨"#0c8599", "#99e9f2"⟩
  | .external => ⟨"#868e96", "#e9ecef"⟩
  | .ai => ⟨"#c2255c", "#fcc2d7"⟩
  | .storage => ⟨"#5c940d", "#d8f5a2"⟩
  | .user => ⟨"#364fc7", "#bac8ff"⟩
  | .orchestrator => ⟨"#9c36b5", "#eebefa"⟩

def ofStyle (style : Option Category) : Palette :=
  (style.map ofCategory).getD neutral

def ink : String := "#1e1e1e"

def guide : String := "#495057"

/-- The background of a figure that shows what lies under it. -/
def clear : String := "transparent"

end Palette

end Whiteboard
