import Whiteboard.Proofs.Diagram.Node
import Whiteboard.Proofs.Graph.Ranking
import Whiteboard.Proofs.Roster

/-!
The ranks of node ids.

The vertices of a diagram's graph are its distinct node ids and the arcs are its resolved edges
between two different ones (`arc_iff`), so what is known of the ranks of a graph is known of the
ranks of node ids: in a diagram without cycles, every edge leads to a greater rank
(`rank_lt_of_edge`).
-/

namespace Whiteboard.Diagram

variable {d : Diagram}

/-- An edge between two different nodes leads from one id to another. -/
def Precedes (d : Diagram) (a b : String) : Prop :=
  ∃ e ∈ d.resolvedEdges, e.source = a ∧ e.target = b ∧ a ≠ b

/-- The edges between different nodes lead from no id back to itself. -/
def Acyclic (d : Diagram) : Prop :=
  ∀ id, ¬ Relation.TransGen d.Precedes id id

/-- Edges that lead to greater numbers lead from no id back to itself. -/
theorem acyclic_of_numbering (number : String → Nat)
    (h : ∀ a b, d.Precedes a b → number a < number b) : d.Acyclic := by
  have hlt : ∀ a b, Relation.TransGen d.Precedes a b → number a < number b := by
    intro a b hab
    induction hab with
    | single hab => exact h _ _ hab
    | tail _ hbc ih => exact Nat.lt_trans ih (h _ _ hbc)
  intro id hcycle
  exact Nat.lt_irrefl _ (hlt id id hcycle)

def rank (d : Diagram) (id : String) : Nat :=
  (d.ranks.lookup id).getD 0

/-! ### Vertices -/

theorem nodeIds_eq (d : Diagram) : d.nodeIds = (d.nodes.map (·.id)).eraseDups := by
  have hstep : ∀ (ids : List String) (n : Node),
      (if ids.contains n.id then ids else ids ++ [n.id]) = Roster.enroll ids n.id := by
    intro ids n
    simp only [Roster.enroll, List.contains_iff_mem]
  unfold nodeIds
  simp only [hstep]
  rw [← List.foldl_map]
  exact Roster.foldl_enroll [] _

/-- Every id has one vertex. -/
theorem nodeIds_nodup (d : Diagram) : d.nodeIds.Nodup := by
  rw [nodeIds_eq]
  exact Roster.eraseDups_nodup _

/-- Exactly the nodes of a diagram have vertices. -/
theorem mem_nodeIds {id : String} : id ∈ d.nodeIds ↔ d.hasNode id = true := by
  rw [nodeIds_eq, List.mem_eraseDups, List.mem_map, hasNode_iff]

theorem length_nodeIds_le (d : Diagram) : d.nodeIds.length ≤ d.nodes.length := by
  have hsubset : d.nodeIds ⊆ d.nodes.map (·.id) := by
    intro id h
    rw [nodeIds_eq] at h
    exact List.mem_eraseDups.mp h
  have hle := ((nodeIds_nodup d).subperm hsubset).length_le
  rwa [List.length_map] at hle

/-- The vertex of an id is the one that bears it. -/
theorem vertex?_eq_some {id : String} {v : Fin d.nodeIds.length} :
    d.vertex? id = some v ↔ d.nodeIds[v] = id := by
  rw [vertex?, List.findFinIdx?_eq_some_iff]
  constructor
  · rintro ⟨h, -⟩
    exact beq_iff_eq.mp h
  · intro h
    refine ⟨beq_iff_eq.mpr h, fun j hj hid => ?_⟩
    have heq : d.nodeIds[j] = d.nodeIds[v] := (beq_iff_eq.mp hid).trans h.symm
    have hval := (List.Nodup.getElem_inj_iff (nodeIds_nodup d)).mp heq
    omega

theorem exists_vertex {id : String} (h : d.hasNode id = true) :
    ∃ v : Fin d.nodeIds.length, d.nodeIds[v] = id := by
  obtain ⟨i, hi, hid⟩ := List.getElem_of_mem (mem_nodeIds.mpr h)
  exact ⟨⟨i, hi⟩, hid⟩

/-! ### Arcs -/

/-- An edge is an arc if it joins two different nodes. -/
theorem arc?_eq_some {e : Edge} {u v : Fin d.nodeIds.length} :
    d.arc? e = some (u, v) ↔
      e.source ≠ e.target ∧ d.nodeIds[u] = e.source ∧ d.nodeIds[v] = e.target := by
  unfold arc? Edge.isSelfLoop
  by_cases hloop : e.source = e.target
  · simp [hloop]
  · rw [if_neg (by simpa using hloop)]
    constructor
    · intro h
      split at h
      · rename_i a b ha hb
        cases h
        exact ⟨hloop, vertex?_eq_some.mp ha, vertex?_eq_some.mp hb⟩
      · cases h
    · rintro ⟨-, hu, hv⟩
      rw [vertex?_eq_some.mpr hu, vertex?_eq_some.mpr hv]

/-- The arcs are the resolved edges between two different ids. -/
theorem arc_iff {u v : Fin d.nodeIds.length} :
    d.graph.Arc u v ↔ d.Precedes d.nodeIds[u] d.nodeIds[v] := by
  have hnode : ∀ w : Fin d.nodeIds.length, d.hasNode d.nodeIds[w] = true := fun w =>
    mem_nodeIds.mp (List.getElem_mem w.isLt)
  unfold Graph.Arc graph Precedes resolvedEdges
  simp only [List.mem_filterMap, List.mem_filter, Bool.and_eq_true]
  constructor
  · rintro ⟨e, he, harc⟩
    obtain ⟨hne, hu, hv⟩ := arc?_eq_some.mp harc
    refine ⟨e, ⟨he, ?_, ?_⟩, hu.symm, hv.symm, ?_⟩
    · rw [← hu]
      exact hnode u
    · rw [← hv]
      exact hnode v
    · rw [hu, hv]
      exact hne
  · rintro ⟨e, ⟨he, -⟩, hu, hv, hne⟩
    refine ⟨e, he, arc?_eq_some.mpr ⟨?_, hu.symm, hv.symm⟩⟩
    rw [hu, hv]
    exact hne

/-- A diagram without cycles has a graph without cycles. -/
theorem Acyclic.graph (acyclic : d.Acyclic) : d.graph.Acyclic := by
  intro u cycle
  have hlift : ∀ v, Relation.TransGen d.graph.Arc u v →
      Relation.TransGen d.Precedes d.nodeIds[u] d.nodeIds[v] := by
    intro v h
    induction h with
    | single arc => exact .single (arc_iff.mp arc)
    | tail _ arc ih => exact ih.tail (arc_iff.mp arc)
  exact acyclic _ (hlift u cycle)

/-! ### Ranks -/

/-- A look-up by different keys finds the value at the same position. -/
theorem lookup_zip {keys : List String} {values : List Nat} (h : keys.Nodup) {i : Nat}
    (hk : i < keys.length) (hv : i < values.length) :
    (keys.zip values).lookup keys[i] = some values[i] := by
  induction keys generalizing values i with
  | nil => exact absurd hk (Nat.not_lt_zero i)
  | cons key keys ih =>
      obtain ⟨hkey, hkeys⟩ := List.nodup_cons.mp h
      cases values with
      | nil => exact absurd hv (Nat.not_lt_zero i)
      | cons value values =>
          cases i with
          | zero => simp
          | succ i =>
              have hi : i < keys.length := Nat.lt_of_succ_lt_succ hk
              have hne : (keys[i] == key) = false := by
                rw [beq_eq_false_iff_ne]
                intro heq
                exact hkey (heq ▸ List.getElem_mem hi)
              simpa [List.lookup_cons, hne] using ih hkeys hi (Nat.lt_of_succ_lt_succ hv)

/-- The rank of a node id is that of its vertex. -/
theorem rank_eq (v : Fin d.nodeIds.length) : d.rank d.nodeIds[v] = d.graph.ranks.get v := by
  have hlength : v < d.graph.ranks.toList.length := by simp
  unfold rank ranks
  rw [Fin.getElem_fin, lookup_zip (nodeIds_nodup d) v.isLt hlength, Option.getD_some,
    Vector.getElem_toList]
  rfl

/-- No rank reaches the number of nodes. -/
theorem rank_lt_length {id : String} (h : d.hasNode id = true) : d.rank id < d.nodes.length := by
  obtain ⟨v, rfl⟩ := exists_vertex h
  have hle := d.graph.rank_le_limit v
  have hlength := length_nodeIds_le d
  have hv := v.isLt
  unfold Graph.Ranking.limit at hle
  rw [rank_eq]
  omega

/-- Without cycles, every edge between different nodes leads to a greater rank. -/
theorem rank_lt_of_edge (acyclic : d.Acyclic) {e : Edge} (he : e ∈ d.resolvedEdges)
    (hne : e.source ≠ e.target) : d.rank e.source < d.rank e.target := by
  obtain ⟨hsource, htarget⟩ := hasNode_of_mem_resolvedEdges he
  obtain ⟨u, hu⟩ := exists_vertex hsource
  obtain ⟨v, hv⟩ := exists_vertex htarget
  have arc : d.graph.Arc u v := by
    rw [arc_iff, hu, hv]
    exact ⟨e, he, rfl, rfl, hne⟩
  rw [← hu, ← hv, rank_eq, rank_eq]
  exact Graph.rank_lt_of_arc acyclic.graph arc

end Whiteboard.Diagram
