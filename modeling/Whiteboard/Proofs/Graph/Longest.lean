import Mathlib.Order.Bounds.Basic
import Whiteboard.Proofs.Graph.NodeRank

/-!
How far down a node stands.

A node is `Reached` by walks from the roots, and its rank is the length of one of them, or zero. It
is the greatest such length if there are no cycles (`Acyclic.isGreatest_rank`), so the order in
which nodes and edges are written does not matter then.

With cycles that is not so. A vertex that has been raised to the limit is passed over when its turn
comes, even if it has waited in the queue since it stood lower. What it would have raised from there
keeps its rank, as in `tangle`. What holds of every diagram is that a rank is no less than the
length of a walk that leaves no vertex at the limit (`rank_longest`).
-/

namespace Whiteboard.Diagram

variable {d d' : Diagram} {k : Nat} {a b id : String} {p q : String → Prop}

/-- A node id that no edge between different nodes leads to. -/
def IsRoot (d : Diagram) (id : String) : Prop :=
  d.hasNode id = true ∧ ∀ a, ¬ d.Precedes a id

/-- Some number of edges between different nodes lead from one id to another, each of them from an
id of a kind. -/
inductive Walk (d : Diagram) (p : String → Prop) : Nat → String → String → Prop
  | nil (a : String) : Walk d p 0 a a
  | snoc {k : Nat} {a b c : String} (walk : Walk d p k a b) (leaves : p b)
      (edge : d.Precedes b c) : Walk d p (k + 1) a c

/-- A walk of some length from a root, which leaves ids of a kind only, ends at the id. -/
def ReachedBy (d : Diagram) (p : String → Prop) (k : Nat) (id : String) : Prop :=
  ∃ r, d.IsRoot r ∧ d.Walk p k r id

/-- A walk of some length from a root ends at the id. -/
def Reached (d : Diagram) (k : Nat) (id : String) : Prop :=
  d.ReachedBy (fun _ => True) k id

def limit (d : Diagram) : Nat :=
  d.nodeIds.length - 1

/-- A rank below the greatest one. -/
def BelowLimit (d : Diagram) (id : String) : Prop :=
  d.rank id < d.limit

/-- Both ends of an edge that counts are nodes. -/
theorem hasNode_of_precedes (h : d.Precedes a b) : d.hasNode a = true ∧ d.hasNode b = true := by
  obtain ⟨e, he, rfl, rfl, -⟩ := h
  exact hasNode_of_mem_resolvedEdges he

/-- A walk is one of every wider kind. -/
theorem Walk.imp (himp : ∀ a b, d.Precedes a b → p a → q a) (walk : d.Walk p k a b) :
    d.Walk q k a b := by
  induction walk with
  | nil a => exact .nil a
  | snoc _ leaves edge ih => exact ih.snoc (himp _ _ edge leaves) edge

/-! ### From vertices to ids -/

theorem isRoot_iff {v : Fin d.nodeIds.length} : d.IsRoot (d.nodeIds.get v) ↔ v ∈ d.graph.roots := by
  rw [Graph.mem_roots]
  constructor
  · rintro ⟨-, hroot⟩ u arc
    exact hroot _ (arc_iff.mp arc)
  · intro hroot
    refine ⟨mem_nodeIds.mp (List.getElem_mem v.isLt), fun a ha => ?_⟩
    obtain ⟨u, rfl⟩ := exists_vertex (hasNode_of_precedes ha).1
    exact hroot u (arc_iff.mpr ha)

/-- A walk between numbers is one between node ids. -/
theorem walk_of_graph {u v : Fin d.nodeIds.length} (walk : Graph.Walk d.graph k u v) :
    d.Walk (fun _ => True) k (d.nodeIds.get u) (d.nodeIds.get v) := by
  induction walk with
  | nil u => exact .nil _
  | snoc _ arc ih => exact ih.snoc trivial (arc_iff.mp arc)

/-- What is reached among numbers is reached among node ids. -/
theorem reached_of_graph {v : Fin d.nodeIds.length} (h : d.graph.Reached k v) :
    d.Reached k (d.nodeIds.get v) := by
  obtain ⟨r, hr, walk⟩ := h
  exact ⟨_, isRoot_iff.mpr hr, walk_of_graph walk⟩

/-! ### Ranks are lengths of walks -/

/-- No rank is beyond the limit. -/
theorem rank_le_limit (hid : d.hasNode id = true) : d.rank id ≤ d.limit := by
  obtain ⟨v, rfl⟩ := exists_vertex hid
  rw [rank_eq]
  exact d.graph.rank_le_limit v

/-- A rank other than zero is the length of a walk from a root. -/
theorem reached_rank (hid : d.hasNode id = true) (h : d.rank id ≠ 0) :
    d.Reached (d.rank id) id := by
  obtain ⟨v, rfl⟩ := exists_vertex hid
  rw [rank_eq] at h ⊢
  exact reached_of_graph (d.graph.reached_rank v h)

/-- An edge from an id that roots have been found to reach leads to a greater rank, unless the limit
is in the way. -/
theorem rank_lt_of_precedes (h : d.Precedes a b) (active : d.IsRoot a ∨ d.rank a ≠ 0)
    (hbelow : d.BelowLimit a) : d.rank a < d.rank b := by
  obtain ⟨ha, hb⟩ := hasNode_of_precedes h
  obtain ⟨u, rfl⟩ := exists_vertex ha
  obtain ⟨v, rfl⟩ := exists_vertex hb
  unfold BelowLimit limit at hbelow
  rw [rank_eq] at active hbelow ⊢
  rw [rank_eq]
  have active : u ∈ d.graph.roots ∨ d.graph.ranks.get u ≠ 0 := active.imp_left isRoot_iff.mp
  rcases Graph.Ranking.settled_finish d.graph (arc_iff.mpr h) active with hlimit | hle
  · unfold Graph.Ranking.limit at hlimit
    omega
  · exact hle

/-- A rank is no less than the length of a walk that leaves no id at the limit. -/
theorem le_rank_of_reachedBy (h : d.ReachedBy d.BelowLimit k id) : k ≤ d.rank id := by
  obtain ⟨r, hr, walk⟩ := h
  induction walk with
  | nil r => exact Nat.zero_le _
  | @snoc k r b c walk below edge ih =>
      have hle := ih hr
      have active : d.IsRoot b ∨ d.rank b ≠ 0 := by
        cases walk with
        | nil => exact .inl hr
        | snoc => exact .inr (by omega)
      have hlt := rank_lt_of_precedes edge active below
      omega

/-! ### Diagrams without cycles -/

/-- Every id in a diagram without cycles is reached. -/
theorem Acyclic.exists_reached (acyclic : d.Acyclic) (hid : d.hasNode id = true) :
    ∃ k, d.Reached k id := by
  obtain ⟨v, rfl⟩ := exists_vertex hid
  obtain ⟨r, hr, k, walk⟩ := Graph.exists_walk_of_acyclic acyclic.graph v
  exact ⟨k, reached_of_graph ⟨r, hr, walk⟩⟩

/-- Without cycles the limit is never in the way. -/
theorem Acyclic.le_rank (acyclic : d.Acyclic) (h : d.Reached k id) : k ≤ d.rank id := by
  obtain ⟨r, hr, walk⟩ := h
  refine le_rank_of_reachedBy ⟨r, hr, walk.imp fun a b hab _ => ?_⟩
  have hle := rank_le_limit (hasNode_of_precedes hab).2
  obtain ⟨e, he, rfl, rfl, hne⟩ := hab
  exact Nat.lt_of_lt_of_le (rank_lt_of_edge acyclic he hne) hle

/-- Without cycles, ranks are the lengths of the longest walks from roots. -/
theorem Acyclic.isGreatest_rank (acyclic : d.Acyclic) (hid : d.hasNode id = true) :
    IsGreatest {k | d.Reached k id} (d.rank id) := by
  refine ⟨?_, fun k hk => acyclic.le_rank hk⟩
  by_cases hzero : d.rank id = 0
  · obtain ⟨k, hk⟩ := acyclic.exists_reached hid
    have hle := acyclic.le_rank hk
    have heq : k = d.rank id := by omega
    exact heq ▸ hk
  · exact reached_rank hid hzero

/-! ### The order of nodes and edges -/

/-- Two diagrams that differ in the order of nodes and edges. -/
structure Reordered (d d' : Diagram) : Prop where
  nodes : d'.nodes.Perm d.nodes
  edges : d'.edges.Perm d.edges

theorem Reordered.hasNode_eq (h : Reordered d d') (id : String) : d'.hasNode id = d.hasNode id := by
  rw [Bool.eq_iff_iff, hasNode_iff, hasNode_iff]
  simp only [h.nodes.mem_iff]

/-- The order of nodes and edges does not matter to what leads where. -/
theorem Reordered.precedes_eq (h : Reordered d d') : d'.Precedes = d.Precedes := by
  funext a b
  unfold Precedes resolvedEdges
  simp only [List.mem_filter, h.edges.mem_iff, h.hasNode_eq]

/-- The order of nodes and edges does not matter to what is reached. -/
theorem Reordered.reached_iff (h : Reordered d d') : d'.Reached k id ↔ d.Reached k id := by
  have hroot : ∀ r, d'.IsRoot r ↔ d.IsRoot r := by
    intro r
    rw [IsRoot, IsRoot, h.hasNode_eq, h.precedes_eq]
  have hwalk : ∀ r, d'.Walk (fun _ => True) k r id ↔ d.Walk (fun _ => True) k r id := by
    intro r
    constructor
    · intro walk
      induction walk with
      | nil a => exact .nil a
      | snoc _ leaves edge ih => exact ih.snoc leaves (h.precedes_eq ▸ edge)
    · intro walk
      induction walk with
      | nil a => exact .nil a
      | snoc _ leaves edge ih => exact ih.snoc leaves (h.precedes_eq ▸ edge)
  unfold Reached ReachedBy
  simp only [hroot, hwalk]

/-- Without cycles, the order in which nodes and edges are written does not change a rank. -/
theorem Reordered.rank_eq (h : Reordered d d') (acyclic : d.Acyclic) (hid : d.hasNode id = true) :
    d'.rank id = d.rank id := by
  have acyclic' : d'.Acyclic := by
    unfold Acyclic
    rw [h.precedes_eq]
    exact acyclic
  have hgreatest := acyclic'.isGreatest_rank (h.hasNode_eq id ▸ hid)
  simp only [h.reached_iff] at hgreatest
  exact hgreatest.unique (acyclic.isGreatest_rank hid)

/-! ### What a rank is -/

/-- The rank of a node is within the limit, and is zero or the length of a walk from a root; so it
is zero if no root reaches the node. It is no less than the length of any walk from a root that
leaves no node at the limit. Without cycles there are no other walks: the rank is the greatest
length of a walk from a root, whatever the order of nodes and edges. -/
theorem rank_longest (d : Diagram) (id : String) (hid : d.hasNode id = true) :
    d.rank id ≤ d.limit ∧
      (d.rank id = 0 ∨ d.Reached (d.rank id) id) ∧
      (∀ k, d.ReachedBy d.BelowLimit k id → k ≤ d.rank id) ∧
      (d.Acyclic →
        IsGreatest {k | d.Reached k id} (d.rank id) ∧
          ∀ d', Reordered d d' → d'.rank id = d.rank id) := by
  refine ⟨rank_le_limit hid, ?_, fun k hk => le_rank_of_reachedBy hk, fun acyclic => ⟨?_, ?_⟩⟩
  · by_cases hzero : d.rank id = 0
    · exact .inl hzero
    · exact .inr (reached_rank hid hzero)
  · exact acyclic.isGreatest_rank hid
  · exact fun d' h => h.rank_eq acyclic hid

/-- Two nodes under a root that lead to each other. -/
def tangle : Diagram where
  dialect := .flowchart
  nodes := [.bare "R", .bare "A", .bare "B"]
  edges :=
    [{ source := "R", target := "A" }, { source := "A", target := "B" },
      { source := "B", target := "A" }, { source := "R", target := "B" }]

theorem isRoot_tangle : tangle.IsRoot "R" := by
  refine ⟨by decide, ?_⟩
  rintro a ⟨e, he, -, htarget, -⟩
  have hmem : e ∈ tangle.edges := List.mem_of_mem_filter he
  rcases hmem with _ | ⟨_, _ | ⟨_, _ | ⟨_, _ | ⟨_, ⟨⟩⟩⟩⟩⟩ <;> exact absurd htarget (by decide)

/-- The edges of `tangle`. -/
theorem precedes_tangle {e : Edge} (he : e ∈ tangle.resolvedEdges) (hne : e.source ≠ e.target) :
    tangle.Precedes e.source e.target :=
  ⟨e, he, rfl, rfl, hne⟩

/-- The walk to `A` by way of `B` leaves no node at the limit, so `A` stands below `B`. -/
theorem rank_tangle :
    tangle.hasNode "A" = true ∧ tangle.rank "B" = 1 ∧ tangle.limit = 2 ∧
      tangle.ReachedBy tangle.BelowLimit 2 "A" ∧ tangle.rank "A" = 2 := by
  have hnode : tangle.hasNode "A" = true := by decide
  have hroot : tangle.rank "R" = 0 := by decide +kernel
  have hrank : tangle.rank "B" = 1 := by decide +kernel
  have hlimit : tangle.limit = 2 := by decide +kernel
  have first : tangle.Precedes "R" "B" :=
    precedes_tangle (e := { source := "R", target := "B" }) (by decide) (by decide)
  have second : tangle.Precedes "B" "A" :=
    precedes_tangle (e := { source := "B", target := "A" }) (by decide) (by decide)
  have walk : tangle.ReachedBy tangle.BelowLimit 2 "A" := by
    refine ⟨"R", isRoot_tangle, ((Walk.nil "R").snoc ?_ first).snoc ?_ second⟩
    · unfold BelowLimit
      rw [hroot, hlimit]
      omega
    · unfold BelowLimit
      rw [hrank, hlimit]
      omega
  obtain ⟨hle, -, hreached, -⟩ := rank_longest tangle "A" hnode
  have hge := hreached 2 walk
  rw [hlimit] at hle
  exact ⟨hnode, hrank, hlimit, walk, by omega⟩

/-- Every rank is the greatest length, within the limit, of a walk from a root, or zero if there are
no such walks. -/
def RanksLongest (d : Diagram) : Prop :=
  ∀ id, d.hasNode id = true →
    ((∃ k, d.Reached k id) → IsGreatest {k | k ≤ d.limit ∧ d.Reached k id} (d.rank id)) ∧
      ((∀ k, ¬ d.Reached k id) → d.rank id = 0)

/-- The walk to `B` by way of `A` is as long, but `A` is raised to the limit while it waits in the
queue, and `B` is left at rank one. -/
theorem tangle_falls_short : ¬ tangle.RanksLongest := by
  intro longest
  have hnode : tangle.hasNode "B" = true := by decide
  have hrank : tangle.rank "B" = 1 := by decide +kernel
  have hlimit : tangle.limit = 2 := by decide +kernel
  have first : tangle.Precedes "R" "A" :=
    precedes_tangle (e := { source := "R", target := "A" }) (by decide) (by decide)
  have second : tangle.Precedes "A" "B" :=
    precedes_tangle (e := { source := "A", target := "B" }) (by decide) (by decide)
  have reached : tangle.Reached 2 "B" :=
    ⟨"R", isRoot_tangle, ((Walk.nil "R").snoc trivial first).snoc trivial second⟩
  have hge : 2 ≤ tangle.rank "B" :=
    ((longest "B" hnode).1 ⟨2, reached⟩).2 ⟨hlimit.ge, reached⟩
  omega

end Whiteboard.Diagram
