import Whiteboard.Proofs.Checked.Basic
import Whiteboard.Proofs.Graph.Run

/-!
Working off ranks by positions.

The vertices are numbers, and the ranks stand in a list at these numbers. Every number that is
queued is one of a vertex, and the queue is empty within the number of steps that it is given
(`ranks_eq`).
-/

namespace Whiteboard.Checked

/-- The ranks so far, and the vertices still to be worked off. -/
structure Ranking where
  rank : List Nat
  queue : List Nat

namespace Ranking

def raise (next : Nat) (r : Ranking) (v : Nat) : Attempt Ranking := do
  let old ← read r.rank v
  if old < next then
    let rank ← write r.rank v next
    pure { rank, queue := r.queue ++ [v] }
  else pure r

def workOff (limit : Nat) (successors : Nat → List Nat) (u : Nat) (r : Ranking) :
    Attempt Ranking := do
  let next := (← read r.rank u) + 1
  if limit < next then pure r else (successors u).foldlM (raise next) r

/-- Works off the whole queue in no more than some number of steps. -/
def finish (limit : Nat) (successors : Nat → List Nat) : (steps : Nat) → Ranking → Attempt Ranking
  | _, ⟨rank, []⟩ => pure ⟨rank, []⟩
  | 0, ⟨_, _ :: _⟩ => throw .standstill
  | steps + 1, ⟨rank, u :: queue⟩ => do
    let r ← workOff limit successors u ⟨rank, queue⟩
    finish limit successors steps r

end Ranking

def arcsOf {n : Nat} (g : Graph n) : List (Nat × Nat) :=
  g.arcs.map fun arc => (arc.1.val, arc.2.val)

def successors (arcs : List (Nat × Nat)) (u : Nat) : List Nat :=
  ((arcs.filter (·.1 == u)).map Prod.snd).reverse

def ranks (d : Diagram) : Attempt (List (String × Nat)) := do
  let n := d.nodeIds.length
  let arcs := arcsOf d.graph
  let roots := (List.range n).filter fun v => !arcs.any (·.2 == v)
  let steps := roots.length + (n - roots.length) * (n - 1)
  let r ← Ranking.finish (n - 1) (successors arcs) steps ⟨List.replicate n 0, roots⟩
  (List.range n).mapM fun v => do
    let id ← read d.nodeIds v
    let rank ← read r.rank v
    pure (id, rank)

variable {n k : Nat} {g : Graph n} {r s : Graph.Ranking n}

def Ranking.of (r : Graph.Ranking n) : Ranking :=
  ⟨r.rank.toList, r.queue.map Fin.val⟩

/-- Numbers have the same successors as the vertices they stand for. -/
theorem successors_eq (g : Graph n) (u : Fin n) :
    successors (arcsOf g) u.val = (g.successors u).map Fin.val := by
  have hfilter : (fun arc : Nat × Nat => arc.1 == u.val) ∘ (fun arc : Fin n × Fin n =>
      (arc.1.val, arc.2.val)) = fun arc => arc.1 == u := by
    funext arc
    simp [Fin.ext_iff]
  simp only [successors, arcsOf, Graph.successors, List.filter_map, hfilter, List.map_map,
    List.map_reverse]
  rfl

theorem roots_eq (g : Graph n) :
    ((List.range n).filter fun v => !(arcsOf g).any (·.2 == v)) = g.roots.map Fin.val := by
  have hroot : (fun v => !(arcsOf g).any (·.2 == v)) ∘ Fin.val = g.isRoot := by
    funext v
    simp only [Function.comp_apply, arcsOf, List.any_map, Graph.isRoot, Fin.ext_iff, beq_eq_decide,
      Function.comp_def]
  rw [Graph.roots, ← List.map_coe_finRange_eq_range, List.filter_map, hroot]

namespace Ranking

/-- Raising the number of a vertex finds its rank. -/
theorem raise_of (next : Nat) (r : Graph.Ranking n) (v : Fin n) :
    raise next (.of r) v.val = pure (.of (r.raise next v)) := by
  have hread : read r.rank.toList v.val = pure r.rank[v] :=
    read_of_getElem? (by simp)
  rw [raise, of, hread, pure_bind, Graph.Ranking.raise]
  split
  · rw [write_of_lt (by simp)]
    simp [of, Vector.toList_set]
  · rfl

theorem foldlM_raise_of (next : Nat) (vs : List (Fin n)) (r : Graph.Ranking n) :
    (vs.map Fin.val).foldlM (raise next) (.of r) = pure (.of (vs.foldl (.raise next) r)) := by
  induction vs generalizing r with
  | nil => rfl
  | cons v vs ih =>
      rw [List.map_cons, List.foldlM_cons, raise_of, pure_bind, ih]
      rfl

/-- One step of the queue finds the rank of its vertex and all ranks behind its arcs. -/
theorem workOff_of {u : Fin n} {queue : List (Fin n)} (hqueue : r.queue = u :: queue)
    (step : r.step? g = some s) :
    workOff (n - 1) (successors (arcsOf g)) u.val ⟨r.rank.toList, queue.map Fin.val⟩ =
      pure (.of s) := by
  have hread : read r.rank.toList u.val = pure r.rank[u] :=
    read_of_getElem? (by simp)
  rw [Graph.Ranking.step?, hqueue] at step
  cases step
  rw [workOff, hread, pure_bind, successors_eq, Graph.Ranking.limit]
  dsimp only
  split
  · rfl
  · exact foldlM_raise_of _ _ { r with queue }

/-- A run that empties the queue is what finishing by numbers does. -/
theorem finish_of (run : Graph.Ranking.Run g k r s) (hs : s.queue = []) {steps : Nat}
    (hsteps : k ≤ steps) :
    finish (n - 1) (successors (arcsOf g)) steps (.of r) = pure (.of s) := by
  induction run generalizing steps with
  | nil r =>
      rw [of, hs, List.map_nil]
      unfold finish
      rfl
  | @cons k r t s step _ ih =>
      obtain ⟨steps, rfl⟩ : ∃ steps', steps = steps' + 1 := ⟨steps - 1, by omega⟩
      obtain ⟨u, queue, hqueue, -⟩ := Graph.Ranking.step?_cases step
      rw [of, hqueue, List.map_cons, finish, workOff_of hqueue step, pure_bind]
      exact ih hs (by omega)

end Ranking

/-- Reading two lists at all positions pairs their elements. -/
theorem mapM_read_eq {α β : Type} {xs : List α} {ys : List β} (h : ys.length = xs.length) :
    ((List.range xs.length).mapM fun i => do
      let x ← read xs i
      let y ← read ys i
      pure (x, y)) = (pure (xs.zip ys) : Attempt _) := by
  refine mapM_eq_pure (List.forall₂_iff_get.mpr ⟨by simp [h], fun i hi hzip => ?_⟩)
  have hi : i < xs.length := by simpa using hi
  simp only [List.get_eq_getElem, List.getElem_range, List.getElem_zip, read_of_lt hi,
    read_of_lt (h ▸ hi), pure_bind]

/-- Working off the roots by numbers gives the ranks. -/
theorem finish_roots (d : Diagram) :
    Ranking.finish (d.nodeIds.length - 1) (successors (arcsOf d.graph))
      (d.graph.roots.length + (d.nodeIds.length - d.graph.roots.length) * (d.nodeIds.length - 1))
      (.of (.start d.graph)) = pure (.of (.finish d.graph (.start d.graph))) := by
  obtain ⟨k, run⟩ := Graph.Ranking.exists_run_finish d.graph (.start d.graph)
  exact Ranking.finish_of run (Graph.Ranking.queue_finish _ _) run.length_le

/-- Ranks are found without an overrun. -/
theorem ranks_eq (d : Diagram) : ranks d = pure d.ranks := by
  have hstart : Ranking.of (.start d.graph) =
      ⟨List.replicate d.nodeIds.length 0, d.graph.roots.map Fin.val⟩ := by
    simp [Ranking.of, Graph.Ranking.start]
  have hfinish := finish_roots d
  rw [hstart] at hfinish
  unfold ranks
  simp only [roots_eq, List.length_map, hfinish, pure_bind]
  exact mapM_read_eq (by simp [Ranking.of])

end Whiteboard.Checked
