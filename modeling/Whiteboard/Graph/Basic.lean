/-
The graph of a diagram.

Its vertices are the distinct node ids in diagram order, numbered from zero; its arcs are the edges
between two different known ids, in diagram order and as often as they occur. An edge from a node to
itself or to an unknown id is no arc.
-/

import Whiteboard.Diagram.Basic

namespace Whiteboard

/-- A directed graph on the numbers below `n`, with parallel arcs. -/
structure Graph (n : Nat) where
  arcs : List (Fin n × Fin n)
deriving DecidableEq, Repr

namespace Graph

variable {n : Nat}

/-- The ends of the arcs that leave a vertex, the last arc first. -/
def successors (g : Graph n) (u : Fin n) : List (Fin n) :=
  ((g.arcs.filter (·.1 == u)).map Prod.snd).reverse

/-- No arc enters the vertex. -/
def isRoot (g : Graph n) (v : Fin n) : Bool :=
  !g.arcs.any (·.2 == v)

def roots (g : Graph n) : List (Fin n) :=
  (List.finRange n).filter g.isRoot

/-- The vertices of a list that an arc from the list enters. -/
def peel (g : Graph n) (vs : List (Fin n)) : List (Fin n) :=
  vs.filter fun v => g.arcs.any fun (a, b) => b == v && vs.contains a

/-- What is left of a list of vertices after peeling it some number of times. -/
def peelTimes (g : Graph n) : Nat → List (Fin n) → List (Fin n)
  | 0, vs => vs
  | k + 1, vs => g.peelTimes k (g.peel vs)

/-- The graph has no directed cycle: peeling it `n` times leaves nothing. -/
def isAcyclic (g : Graph n) : Bool :=
  (g.peelTimes n (List.finRange n)).isEmpty

end Graph

namespace Diagram

/-- The node ids in the order of their first occurrence, each once. -/
def nodeIds (d : Diagram) : List String :=
  d.nodes.foldl (fun ids n => if ids.contains n.id then ids else ids ++ [n.id]) []

def vertex? (d : Diagram) (id : String) : Option (Fin d.nodeIds.length) :=
  d.nodeIds.findFinIdx? (· == id)

/-- The arc that an edge stands for, if it is one. -/
def arc? (d : Diagram) (e : Edge) : Option (Fin d.nodeIds.length × Fin d.nodeIds.length) :=
  if e.isSelfLoop then none
  else
    match d.vertex? e.source, d.vertex? e.target with
    | some u, some v => some (u, v)
    | _, _ => none

def graph (d : Diagram) : Graph d.nodeIds.length where
  arcs := d.edges.filterMap d.arc?

end Diagram

end Whiteboard
