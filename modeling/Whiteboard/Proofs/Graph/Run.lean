import Mathlib.Algebra.Order.BigOperators.Group.List
import Mathlib.Algebra.Order.Ring.Nat
import Whiteboard.Proofs.Graph.NodeRank

/-!
How long ranks are worked off.

A `Run` takes vertices off the queue one by one. Each of them leaves less room than there was
(`Run.add_room_le`), and no run ever takes the room above the roots, which no arc enters and which
are therefore never raised (`RootsIdle`). So a run is no longer than the room of all other vertices
and the roots that wait at first (`Run.length_le`), and the one that goes on to the end empties the
queue (`exists_run_finish`).
-/

namespace Whiteboard.Graph.Ranking

variable {n k : Nat} {g : Graph n} {r s t : Ranking n}

/-- Some number of vertices are worked off, one after the other. -/
inductive Run (g : Graph n) : Nat → Ranking n → Ranking n → Prop
  | nil (r : Ranking n) : Run g 0 r r
  | cons {k : Nat} {r s t : Ranking n} (step : step? g r = some s) (run : Run g k s t) :
      Run g (k + 1) r t

/-- What every step keeps, a run keeps. -/
theorem Run.induction {motive : Ranking n → Prop}
    (hstep : ∀ {r s}, motive r → step? g r = some s → motive s) (run : Run g k r s)
    (hr : motive r) : motive s := by
  induction run with
  | nil r => exact hr
  | cons step _ ih => exact ih (hstep hr step)

/-- Working off the whole queue is a run. -/
theorem exists_run_finish (g : Graph n) (r : Ranking n) : ∃ k, Run g k r (finish g r) := by
  induction r using finish.induct (g := g) with
  | case1 r h =>
      rw [finish, h]
      exact ⟨0, .nil r⟩
  | case2 r s h ih =>
      obtain ⟨k, run⟩ := ih
      rw [finish, h]
      exact ⟨k + 1, .cons h run⟩

/-! ### Room -/

/-- Each vertex that is worked off takes some room. -/
theorem Run.add_room_le (run : Run g k r s) : k + s.room ≤ r.room := by
  induction run with
  | nil r => omega
  | cons step _ ih =>
      have hlt := room_lt_of_step? step
      omega

theorem roomOf_eq_sum (m : Nat) (ranks : List Nat) :
    roomOf m ranks = (ranks.map (m - ·)).sum := by
  induction ranks with
  | nil => rfl
  | cons rank ranks ih => rw [roomOf, ih, List.map_cons, List.sum_cons]

/-- The room of the ranks, vertex by vertex. -/
theorem roomOf_rank (r : Ranking n) :
    roomOf (limit n) r.rank.toList =
      ((List.finRange n).map fun v => limit n - r.rank.get v).sum := by
  have hranks : r.rank.toList = (List.finRange n).map r.rank.get := by
    apply List.ext_getElem
    · simp
    · intro i hi hi'
      simp only [Vector.getElem_toList, List.getElem_map, List.getElem_finRange]
      rfl
  rw [roomOf_eq_sum, hranks, List.map_map]
  rfl

/-- The room at the start bounds the number of steps. -/
theorem room_start (g : Graph n) : (start g).room = g.roots.length + n * limit n := by
  have hroom : roomOf (limit n) (start g).rank.toList = n * limit n := by
    rw [roomOf_rank]
    simp [rank_start]
  rw [room, hroom]
  rfl

/-! ### Roots -/

/-- The roots have kept the rank they begin with. -/
def RootsIdle (g : Graph n) (r : Ranking n) : Prop :=
  ∀ v ∈ g.roots, r.rank.get v = 0

theorem rootsIdle_start (g : Graph n) : RootsIdle g (start g) :=
  fun v _ => rank_start g v

/-- Nothing raises a root. -/
theorem RootsIdle.step (idle : RootsIdle g r) (h : step? g r = some s) : RootsIdle g s := by
  intro v hv
  obtain ⟨u, queue, -, ⟨-, rfl⟩ | ⟨-, raised⟩⟩ := step?_cases h
  · exact idle v hv
  · rcases raised.eq_or_raised v with heq | ⟨hmem, -, -⟩
    · rw [heq]
      exact idle v hv
    · exact absurd (mem_successors.mp hmem) (mem_roots.mp hv u)

/-- The room above idle roots is never taken. -/
theorem RootsIdle.le_room (idle : RootsIdle g r) : g.roots.length * limit n ≤ r.room := by
  have hroots : (g.roots.map fun v => limit n - r.rank.get v).sum =
      g.roots.length * limit n := by
    rw [List.map_congr_left fun v hv => by rw [idle v hv, Nat.sub_zero], List.map_const',
      List.sum_replicate_nat]
  have hsublist : (g.roots.map fun v => limit n - r.rank.get v).Sublist
      ((List.finRange n).map fun v => limit n - r.rank.get v) :=
    List.filter_sublist.map _
  have hle := hsublist.sum_le_sum fun _ _ => Nat.zero_le _
  rw [room, roomOf_rank]
  omega

/-! ### The length of a run -/

/-- No run from the start is longer than there are roots to begin with and room above the other
vertices. -/
theorem Run.length_le (run : Run g k (start g) s) :
    k ≤ g.roots.length + (n - g.roots.length) * limit n := by
  have hroom := run.add_room_le
  rw [room_start] at hroom
  have hroots := (run.induction RootsIdle.step (rootsIdle_start g)).le_room
  rw [Nat.sub_mul]
  omega

end Whiteboard.Graph.Ranking

namespace Whiteboard.Diagram

open Graph.Ranking

/-- In every diagram the ranks are found by a run that empties the queue. No run takes more vertices
off the queue than there are roots and, for every other vertex, ranks above zero that it may have;
and no rank ever passes the limit. -/
theorem ranking_terminates (d : Diagram) :
    let g := d.graph
    let n := d.nodeIds.length
    let most := g.roots.length + (n - g.roots.length) * (n - 1)
    (∃ k ≤ most, ∃ s, Run g k (start g) s ∧ s.queue = [] ∧ s.rank = g.ranks) ∧
      ∀ k s, Run g k (start g) s → k ≤ most ∧ ∀ v, s.rank.get v ≤ n - 1 := by
  intro g n most
  constructor
  · obtain ⟨k, run⟩ := exists_run_finish g (start g)
    exact ⟨k, run.length_le, _, run, queue_finish g (start g), rfl⟩
  · intro k s run
    exact ⟨run.length_le, (run.induction Sound.step (sound_start g)).le_limit⟩

end Whiteboard.Diagram
