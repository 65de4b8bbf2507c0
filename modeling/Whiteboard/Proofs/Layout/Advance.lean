import Whiteboard.Proofs.Layout.Order
import Whiteboard.Proofs.Layout.Stack

/-!
Flowcharts advance along their edges.

In a flowchart without cycles, the node that an edge points to lies beyond the one it comes from
(`edges_advance`): its rank is greater, and so its row comes later in the stack.
-/

namespace Whiteboard.Layout

/-- A placed node has the rank of its id. -/
theorem rank_stack {s : Settings Rat} {direction : Direction} {d : Diagram} {p : PlacedNode Rat}
    (hp : p ∈ (Layered.Stack.ofDiagram s direction d).nodes) : p.rank = d.rank p.id := by
  obtain ⟨c, hc, -, hid, hrank, -⟩ := Layered.Stack.exists_cell hp
  obtain ⟨n, -, rfl⟩ := List.mem_map.mp hc
  rw [hid, hrank]
  rfl

/-- The boxes at the ends of an edge are separated by the gap between ranks, in the direction of the
chart, if its edges between different nodes lead from no node back to itself. Both boxes exist. -/
theorem edges_advance (s : Settings Rat) (d : Diagram) (hd : d.dialect = .flowchart)
    (acyclic : d.Acyclic) (hgap : 0 ≤ s.rankGap) (e : Edge) (he : e ∈ d.resolvedEdges)
    (hne : e.source ≠ e.target) :
    (∃ p ∈ (ofDiagram s d).nodes, p.id = e.source) ∧
      (∃ q ∈ (ofDiagram s d).nodes, q.id = e.target) ∧
      ∀ p ∈ (ofDiagram s d).nodes, p.id = e.source →
        ∀ q ∈ (ofDiagram s d).nodes, q.id = e.target →
          Rect.Beyond (s.direction.getD d.direction) s.rankGap p.rect q.rect := by
  have follows := follows_ofDiagram s d
  obtain ⟨hsource, htarget⟩ := Diagram.hasNode_of_mem_resolvedEdges he
  refine ⟨follows.exists_box hsource, follows.exists_box htarget, ?_⟩
  intro p hp hpid q hq hqid
  have hlayout : ofDiagram s d = Layered.layout s (s.direction.getD d.direction) d := by
    rw [ofDiagram, hd]
  rw [hlayout] at hp hq
  have hlt : p.rank < q.rank := by
    rw [rank_stack hp, rank_stack hq, hpid, hqid]
    exact d.rank_lt_of_edge acyclic he hne
  exact (Layered.Stack.regular_ofDiagram s _ d).beyond_of_rank_lt hgap hp hq hlt

/-- A chart with two ways from its first node to its last. -/
def shortcut : Diagram where
  dialect := .flowchart
  direction := .bt
  nodes := [.bare "a", .bare "b", .bare "c"]
  edges :=
    [{ source := "a", target := "b" }, { source := "b", target := "c" },
      { source := "a", target := "c" }]

theorem acyclic_shortcut : shortcut.Acyclic := by
  refine Diagram.acyclic_of_numbering
    (fun id => if id = "a" then 0 else if id = "b" then 1 else 2) ?_
  rintro a b ⟨e, he, rfl, rfl, -⟩
  have hmem : e ∈ shortcut.edges := List.mem_of_mem_filter he
  rcases hmem with _ | ⟨_, _ | ⟨_, _ | ⟨_, ⟨⟩⟩⟩⟩ <;> decide

/-- The boxes of `shortcut` advance from rank to rank. -/
theorem shortcut_advances :
    let nodes := (ofDiagram (.standard : Settings Rat) shortcut).nodes
    (∃ p ∈ nodes, p.id = "a") ∧ (∃ q ∈ nodes, q.id = "c") ∧
      ∀ p ∈ nodes, p.id = "a" → ∀ q ∈ nodes, q.id = "c" → Rect.Beyond .bt 100 p.rect q.rect :=
  edges_advance .standard shortcut rfl acyclic_shortcut (by decide)
    { source := "a", target := "c" } (by decide) (by decide)

end Whiteboard.Layout
