import Whiteboard.Diagram.Basic
import Whiteboard.Proofs.Roster

/-!
What a diagram records of the statements it was read from.

Statements name nodes and draw edges between nodes they name. A diagram records them if its nodes
are what has been named, in the order of the first mention, and its edges are what has been drawn,
in the order of the statements.
-/

namespace Whiteboard

def Diagram.ids (d : Diagram) : List String :=
  d.nodes.map (·.id)

/-- Where ids are distinct, the node found for the id of a node is that node. -/
theorem Diagram.node?_of_mem {d : Diagram} (hids : d.ids.Nodup) {n : Node} (hn : n ∈ d.nodes) :
    d.node? n.id = some n :=
  Roster.find?_key_eq Node.id hids hn

/-- A diagram records what some statements name and draw. -/
structure Diagram.Records (d : Diagram) (names : List String) (edges : List Edge) : Prop where
  /-- The ids are the names, each at its first mention. -/
  ids_eq : d.ids = names.eraseDups
  ids_nodup : d.ids.Nodup
  /-- Every edge is there, in order, and nothing else. -/
  edges_eq : d.edges = edges
  ends_mem : ∀ e ∈ d.edges, e.source ∈ d.ids ∧ e.target ∈ d.ids
  members_nodup : ∀ g ∈ d.subgraphs, g.members.Nodup
  members_mem : ∀ g ∈ d.subgraphs, ∀ id ∈ g.members, id ∈ d.ids

/-- Both ends of some edges are among some names. -/
def Named (names : List String) (edges : List Edge) : Prop :=
  ∀ e ∈ edges, e.source ∈ names ∧ e.target ∈ names

/-- Statements that name the ends of their edges do so together. -/
theorem Named.flatMap {σ : Type} {names : σ → List String} {edges : σ → List Edge}
    (h : ∀ s, Named (names s) (edges s)) (ss : List σ) :
    Named (ss.flatMap names) (ss.flatMap edges) := by
  intro e he
  obtain ⟨s, hs, he⟩ := List.mem_flatMap.mp he
  obtain ⟨hsource, htarget⟩ := h s e he
  exact ⟨List.mem_flatMap.mpr ⟨s, hs, hsource⟩, List.mem_flatMap.mpr ⟨s, hs, htarget⟩⟩

/-- A diagram with the right nodes and edges records them, if its subgraphs do not come between. -/
theorem Diagram.records_of_named {d : Diagram} {names : List String} {edges : List Edge}
    (hids : d.ids = names.eraseDups) (hedges : d.edges = edges) (named : Named names edges)
    (hmembers : ∀ g ∈ d.subgraphs, g.members.Nodup ∧ ∀ id ∈ g.members, id ∈ d.ids) :
    d.Records names edges where
  ids_eq := hids
  ids_nodup := by
    rw [hids]
    exact Roster.eraseDups_nodup names
  edges_eq := hedges
  ends_mem e he := by
    rw [hedges] at he
    rw [hids, List.mem_eraseDups, List.mem_eraseDups]
    exact named e he
  members_nodup g hg := (hmembers g hg).1
  members_mem g hg := (hmembers g hg).2

end Whiteboard
