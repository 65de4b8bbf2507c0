/-
Reconciling: letting shapes know the arrows that are bound to them.

An arrow knows its ends when it is made; `reconcile` adds to every element a back-reference for each
arrow bound to its id, in the order of the arrows and never twice. Nothing else changes, whatever
ids repeat or are missing.
-/

import Whiteboard.Scene.Element

namespace Whiteboard.Element

variable {ι α : Type} [DecidableEq ι]

/-- The element is bound to an id at one of its ends. -/
def bindsTo (e : Element ι α) (id : ι) : Bool :=
  e.bindings.any (·.target == id)

/-- The ids of the elements bound to an id, in the order of their first appearance, each once. -/
def boundTo (es : List (Element ι α)) (id : ι) : List ι :=
  ((es.filter (·.bindsTo id)).map (·.id)).eraseDups

/-- Puts a back-reference to an arrow at the end, unless something refers back to that id already.
-/
def addArrow (refs : List (BackReference ι)) (arrow : ι) : List (BackReference ι) :=
  if refs.any (·.id == arrow) then refs else refs ++ [{ id := arrow, kind := .arrow }]

def reconcile (es : List (Element ι α)) : List (Element ι α) :=
  es.map fun e => { e with bound := (boundTo es e.id).foldl addArrow e.bound }

end Whiteboard.Element
