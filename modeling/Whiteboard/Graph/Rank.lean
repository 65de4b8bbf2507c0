/-
Ranks: how far down a chart each vertex stands.

Every vertex begins with rank zero. A queue, at first of the roots, is worked off from its front: a
vertex raises each successor that stands too high to one below itself, and a raised vertex joins the
queue again. No rank passes `n - 1`, so each step leaves the queue shorter or the ranks less room,
and the queue runs empty on any graph (`room_lt_of_step?`).
-/

import Whiteboard.Graph.Basic

namespace Whiteboard.Graph

/-- The ranks so far and the vertices still to be worked off. -/
structure Ranking (n : Nat) where
  rank : Vector Nat n
  queue : List (Fin n)

namespace Ranking

variable {n : Nat}

/-- Raises a vertex that stands above `next` to that rank, and queues it. -/
def raise (next : Nat) (r : Ranking n) (v : Fin n) : Ranking n :=
  if r.rank[v] < next then { rank := r.rank.set v next, queue := r.queue ++ [v] } else r

/-- The greatest rank a vertex may have. -/
def limit (n : Nat) : Nat :=
  n - 1

/-- Works off the first vertex of the queue, unless the queue is empty. -/
def step? (g : Graph n) (r : Ranking n) : Option (Ranking n) :=
  match r.queue with
  | [] => none
  | u :: queue =>
    let next := r.rank[u] + 1
    let r := { r with queue }
    some (if limit n < next then r else (g.successors u).foldl (raise next) r)

def roomOf (m : Nat) : List Nat → Nat
  | [] => 0
  | rank :: ranks => (m - rank) + roomOf m ranks

/-- The length of the queue and how far the ranks may still rise. -/
def room (r : Ranking n) : Nat :=
  r.queue.length + roomOf (limit n) r.rank.toList

/-- Raising one rank takes as much room as it is raised by. -/
theorem roomOf_set (m : Nat) (ranks : List Nat) (i : Nat) (a : Nat) (h : i < ranks.length) :
    roomOf m (ranks.set i a) + (m - ranks[i]) = roomOf m ranks + (m - a) := by
  induction ranks generalizing i with
  | nil => simp at h
  | cons x xs ih =>
    cases i with
    | zero => simp [roomOf]; omega
    | succ i =>
      have h' : i < xs.length := by simpa using h
      have := ih i h'
      simp only [roomOf, List.set_cons_succ, List.getElem_cons_succ] at this ⊢
      omega

/-- Raising a vertex leaves no more room than there was: what it may still rise pays for its place
in the queue. -/
theorem room_raise_le {next : Nat} (hn : next ≤ limit n) (r : Ranking n) (v : Fin n) :
    (raise next r v).room ≤ r.room := by
  unfold raise
  split
  · rename_i h
    have hv : v.val < r.rank.toList.length := by simp
    have hs := roomOf_set (limit n) r.rank.toList v.val next hv
    have hg : r.rank.toList[v.val] = r.rank[v] := by simp
    rw [hg] at hs
    simp only [room, Vector.toList_set, List.length_append, List.length_cons, List.length_nil]
    omega
  · exact Nat.le_refl _

/-- Raising several vertices leaves no more room than there was. -/
theorem room_foldl_raise_le {next : Nat} (hn : next ≤ limit n) (vs : List (Fin n))
    (r : Ranking n) : (vs.foldl (raise next) r).room ≤ r.room := by
  induction vs generalizing r with
  | nil => exact Nat.le_refl _
  | cons v vs ih => exact Nat.le_trans (ih _) (room_raise_le hn r v)

/-- Each step leaves less room. -/
theorem room_lt_of_step? {g : Graph n} {r s : Ranking n} (h : step? g r = some s) :
    s.room < r.room := by
  unfold step? at h
  split at h
  · cases h
  · rename_i u queue hq
    simp only [Option.some.injEq] at h
    have hpop : room { r with queue } < r.room := by simp [room, hq]
    split at h
    · rw [← h]
      exact hpop
    · rename_i hle
      rw [← h]
      exact Nat.lt_of_le_of_lt (room_foldl_raise_le (by omega) _ _) hpop

def finish (g : Graph n) (r : Ranking n) : Ranking n :=
  match _h : step? g r with
  | none => r
  | some s => finish g s
termination_by r.room
decreasing_by exact room_lt_of_step? _h

/-- All ranks zero, and the roots to be worked off. -/
def start (g : Graph n) : Ranking n where
  rank := Vector.replicate n 0
  queue := g.roots

end Ranking

def ranks {n : Nat} (g : Graph n) : Vector Nat n :=
  (Ranking.finish g (Ranking.start g)).rank

end Graph

namespace Diagram

def ranks (d : Diagram) : List (String × Nat) :=
  d.nodeIds.zip d.graph.ranks.toList

end Diagram

end Whiteboard
