/-
Flowchart statements: what one line of a flowchart says.

A line is a header, the beginning or the end of a subgraph, or a path: a reference to a node with
any number of hops from it. A reference without a hop is a statement only if it is the whole line;
what stands behind the last hop of a longer path is passed over. Lines about styling and interaction
say nothing.
-/

import Whiteboard.Flowchart.Scan

namespace Whiteboard.Flowchart

open Text

inductive Statement where
  | header (direction : Direction)
  | subgraph (id label : String)
  /-- The end of the innermost open subgraph. -/
  | close
  /-- A node and the hops from it, each from the node the one before leads to. -/
  | path (first : Reference) (hops : List Hop)
deriving DecidableEq, Repr

def Hop.edge (source : String) (p : Hop) : Edge where
  source
  target := p.target.id
  label := p.label
  startHead := p.connector.startHead
  endHead := p.connector.endHead
  stroke := some p.connector.stroke

def edgesFrom (source : String) : List Hop → List Edge
  | [] => []
  | p :: hops => p.edge source :: edgesFrom p.target.id hops

namespace Statement

def references : Statement → List Reference
  | path first hops => first :: hops.map Hop.target
  | _ => []

def edges : Statement → List Edge
  | path first hops => edgesFrom first.id hops
  | _ => []

end Statement

/-! ### Reading a line -/

def headerKeywords : List (List Char) :=
  ["flowchart".toList, "flowchart-elk".toList, "graph".toList]

def isHeaderKeyword (word : List Char) : Bool :=
  headerKeywords.any (sameLetters word)

/-- The words that open a line about styling or interaction. -/
def ignoredKeywords : List (List Char) :=
  ["classDef".toList, "class".toList, "style".toList, "linkStyle".toList, "click".toList,
   "direction".toList]

/-- The direction a header line gives: top down unless it names another. -/
def header? (line : List Char) : Option Direction :=
  let (keyword, rest) := splitHeader line
  if isHeaderKeyword keyword then some (((direction? rest).map Prod.fst).getD .td) else none

/-- The characters of an id in front of a bracketed subgraph title. -/
def isTitleIdChar (c : Char) : Bool :=
  c.isAlphanum || c == '_' || c == '-'

def titled? (cs : List Char) : Option (List Char × List Char) := do
  let (id, rest) ← run? isTitleIdChar cs
  let rest ← strip? ['['] (trimStart rest)
  if rest.getLast? == some ']' && !rest.dropLast.contains '\n' then
    some (id, unquote rest.dropLast)
  else none

/-- What the line `subgraph` with this behind it says. A title without an id is the id, too. -/
def subgraphOf (cs : List Char) : Statement :=
  match titled? cs with
  | some (id, label) => .subgraph (String.ofList id) (String.ofList label)
  | none =>
    let title := String.ofList (unquote cs)
    .subgraph title title

/-- The path that a line begins with. A path without hops must be the whole line. -/
def path? (line : List Char) : Option Statement := do
  let (first, rest) ← reference? line
  let (hops, rest) := chain rest
  if hops.isEmpty && !(skipGap rest).isEmpty then none else some (.path first hops)

/-- A line without blanks around it and semicolons at its end. -/
def trimLine (line : List Char) : List Char :=
  trimEnd ((trim line).reverse.dropWhile (· == ';')).reverse

def Statement.ofLine? (line : List Char) : Option Statement :=
  let line := trimLine line
  match header? line with
  | some d => some (.header d)
  | none =>
    if sameLetters line "end".toList then some .close
    else
      match stripKeyword? "subgraph".toList line with
      | some rest => some (subgraphOf rest)
      | none =>
        if ignoredKeywords.any fun keyword => (stripKeyword? keyword line).isSome then none
        else path? line

end Whiteboard.Flowchart
