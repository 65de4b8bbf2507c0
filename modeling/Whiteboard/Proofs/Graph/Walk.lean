import Mathlib.Data.Finset.Card
import Mathlib.Data.Fintype.Card
import Mathlib.Logic.Relation
import Whiteboard.Graph.Basic

/-!
Walks in a graph.

In a graph without cycles every arc leads to a vertex with more ancestors (`depth_lt_of_arc`). So no
walk has as many arcs as the graph has vertices (`Walk.length_lt`), and going backwards from any
vertex ends at a root (`exists_walk_of_acyclic`).
-/

namespace Whiteboard.Graph

variable {n : Nat} {g : Graph n}

/-- An arc leads from one vertex to another. -/
def Arc (g : Graph n) (u v : Fin n) : Prop :=
  (u, v) ∈ g.arcs

/-- Some number of arcs lead from one vertex to another. -/
inductive Walk (g : Graph n) : Nat → Fin n → Fin n → Prop
  | nil (u : Fin n) : Walk g 0 u u
  | snoc {k : Nat} {u v w : Fin n} (walk : Walk g k u v) (arc : g.Arc v w) : Walk g (k + 1) u w

/-- No vertex is reached from itself. -/
def Acyclic (g : Graph n) : Prop :=
  ∀ u, ¬ Relation.TransGen g.Arc u u

theorem mem_successors {u v : Fin n} : v ∈ g.successors u ↔ g.Arc u v := by
  simp only [successors, List.mem_reverse, List.mem_map, List.mem_filter, beq_iff_eq, Arc]
  constructor
  · rintro ⟨⟨a, b⟩, ⟨hmem, rfl⟩, rfl⟩
    exact hmem
  · intro h
    exact ⟨(u, v), ⟨h, rfl⟩, rfl⟩

theorem mem_roots {v : Fin n} : v ∈ g.roots ↔ ∀ u, ¬ g.Arc u v := by
  simp only [roots, isRoot, List.mem_filter, List.mem_finRange, true_and, Bool.not_eq_true',
    List.any_eq_false, beq_iff_eq, Prod.forall, Arc]
  constructor
  · intro h u hu
    exact h u v hu rfl
  · rintro h u w hu rfl
    exact h u hu

/-! ### Depths -/

open Classical in
/-- The number of vertices from which a vertex is reached. -/
noncomputable def depth (g : Graph n) (v : Fin n) : Nat :=
  (Finset.univ.filter fun u => Relation.TransGen g.Arc u v).card

/-- An arc leads to a vertex that is reached from more vertices. -/
theorem depth_lt_of_arc (acyclic : g.Acyclic) {u v : Fin n} (arc : g.Arc u v) :
    g.depth u < g.depth v := by
  classical
  refine Finset.card_lt_card (Finset.ssubset_iff_subset_ne.mpr ⟨?_, ?_⟩)
  · intro w hw
    have hwu := (Finset.mem_filter.mp hw).2
    exact Finset.mem_filter.mpr ⟨Finset.mem_univ w, hwu.tail arc⟩
  · intro heq
    have hu : u ∈ Finset.univ.filter fun w => Relation.TransGen g.Arc w v :=
      Finset.mem_filter.mpr ⟨Finset.mem_univ u, .single arc⟩
    rw [← heq] at hu
    exact acyclic u (Finset.mem_filter.mp hu).2

/-- No more than all other vertices lead to a vertex. -/
theorem depth_lt (acyclic : g.Acyclic) (v : Fin n) : g.depth v < n := by
  classical
  have hv : v ∉ Finset.univ.filter fun u => Relation.TransGen g.Arc u v := by
    intro h
    exact acyclic v (Finset.mem_filter.mp h).2
  have hlt := Finset.card_lt_univ_of_notMem hv
  rw [Fintype.card_fin] at hlt
  exact hlt

/-- A walk is no longer than the depth it gains. -/
theorem Walk.add_depth_le (acyclic : g.Acyclic) {k : Nat} {u v : Fin n} (walk : Walk g k u v) :
    k + g.depth u ≤ g.depth v := by
  induction walk with
  | nil u => omega
  | snoc walk arc ih =>
      have hlt := depth_lt_of_arc acyclic arc
      omega

/-- Without cycles, a walk has fewer arcs than there are vertices. -/
theorem Walk.length_lt (acyclic : g.Acyclic) {k : Nat} {u v : Fin n} (walk : Walk g k u v) :
    k < n := by
  have hle := walk.add_depth_le acyclic
  have hlt := depth_lt acyclic v
  omega

/-- Without cycles, every vertex is reached from a root. -/
theorem exists_walk_of_acyclic (acyclic : g.Acyclic) (v : Fin n) :
    ∃ r ∈ g.roots, ∃ k, Walk g k r v := by
  induction h : g.depth v using Nat.strong_induction_on generalizing v with
  | _ depth ih =>
      by_cases hv : v ∈ g.roots
      · exact ⟨v, hv, 0, .nil v⟩
      · rw [mem_roots] at hv
        push Not at hv
        obtain ⟨u, arc⟩ := hv
        obtain ⟨r, hr, k, walk⟩ := ih _ (h ▸ depth_lt_of_arc acyclic arc) u rfl
        exact ⟨r, hr, k + 1, walk.snoc arc⟩

end Whiteboard.Graph
