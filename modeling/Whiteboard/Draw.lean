/-
Drawing: from a text to the scene of its diagram, and to that scene as JSON.

Nothing but the text and the settings decides what is drawn. Drawing fails only where the text names
no diagram language.
-/

import Whiteboard.Document
import Whiteboard.Scene.Json

namespace Whiteboard.Document

def draw {α : Type} [Scalar α] (g : Generator) (s : Settings α) (text : String) :
    Except Error (Scene α) :=
  (parse text).map (Scene.ofDiagram g s)

/-- The scene of the diagram that a text describes, as JSON. -/
def drawJson (g : Generator) (s : Settings Float) (format : Json.Format) (text : String) :
    Except Error String :=
  (draw g s text).map fun scene => scene.toJson.toText format

end Whiteboard.Document
