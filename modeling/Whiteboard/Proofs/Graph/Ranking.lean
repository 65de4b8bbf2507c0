import Whiteboard.Graph.Rank
import Whiteboard.Proofs.Graph.Walk

/-!
What the ranks of a graph mean.

A step takes the first vertex off the queue and raises its successors (`step?_cases`). It keeps two
things true: a rank is the length of a walk from a root (`Sound`), and a vertex that stands below
none of its successors waits in the queue, unless they would pass the limit (`Settled`). When the
queue has run empty, every arc therefore leads to a greater rank (`rank_lt_of_arc`), provided that
the limit is never in the way, as in a graph without cycles.
-/

namespace Whiteboard.Graph

variable {n : Nat} {g : Graph n}

/-- A walk of some length from a root ends at the vertex. -/
def Reached (g : Graph n) (k : Nat) (v : Fin n) : Prop :=
  ∃ r ∈ g.roots, Walk g k r v

/-- One more arc makes a walk from a root longer by one. -/
theorem Reached.snoc {k : Nat} {u v : Fin n} (h : g.Reached k u) (arc : g.Arc u v) :
    g.Reached (k + 1) v := by
  obtain ⟨r, hr, walk⟩ := h
  exact ⟨r, hr, walk.snoc arc⟩

namespace Ranking

variable {r s : Ranking n}

/-! ### What a step does -/

/-- What raising some vertices to a rank does to a ranking. -/
structure Raised (vs : List (Fin n)) (next : Nat) (r s : Ranking n) : Prop where
  le : ∀ v : Fin n, r.rank.get v ≤ s.rank.get v
  next_le : ∀ v ∈ vs, next ≤ s.rank.get v
  eq_or_raised : ∀ v : Fin n, s.rank.get v = r.rank.get v ∨
    v ∈ vs ∧ s.rank.get v = next ∧ v ∈ s.queue
  queue_subset : ∀ v ∈ r.queue, v ∈ s.queue
  mem_or_raised : ∀ v ∈ s.queue, v ∈ r.queue ∨ v ∈ vs ∧ s.rank.get v = next

theorem Raised.nil (next : Nat) (r : Ranking n) : Raised [] next r r where
  le _ := Nat.le_refl _
  next_le _ h := absurd h List.not_mem_nil
  eq_or_raised _ := .inl rfl
  queue_subset _ h := h
  mem_or_raised _ h := .inl h

/-- What raising one vertex does. -/
theorem raised_raise (next : Nat) (r : Ranking n) (v : Fin n) :
    Raised [v] next r (raise next r v) := by
  unfold raise
  change Raised [v] next r (if r.rank.get v < next then _ else r)
  by_cases h : r.rank.get v < next
  · rw [if_pos h]
    have hget : ∀ w : Fin n,
        (r.rank.set v next).get w = if v = w then next else r.rank.get w := by
      intro w
      change (r.rank.set v next)[w.val] = _
      rw [Vector.getElem_set]
      simp only [Fin.val_inj]
      rfl
    constructor
    case le =>
      intro w
      rw [hget]
      split
      · rename_i hvw
        rw [← hvw]
        omega
      · exact Nat.le_refl _
    case next_le =>
      intro w hw
      rw [hget, if_pos (List.mem_singleton.mp hw).symm]
    case eq_or_raised =>
      intro w
      rw [hget]
      split
      · rename_i hvw
        rw [← hvw]
        have hmem : v ∈ [v] := List.mem_singleton_self v
        exact .inr ⟨hmem, rfl, List.mem_append_right _ hmem⟩
      · exact .inl rfl
    case queue_subset => exact fun w hw => List.mem_append_left _ hw
    case mem_or_raised =>
      intro w hw
      rcases List.mem_append.mp hw with hw | hw
      · exact .inl hw
      · rw [hget, if_pos (List.mem_singleton.mp hw).symm]
        exact .inr ⟨hw, rfl⟩
  · rw [if_neg h]
    exact { Raised.nil next r with
      next_le := fun w hw => by rw [List.mem_singleton.mp hw]; omega
      eq_or_raised := fun _ => .inl rfl
      mem_or_raised := fun _ hw => .inl hw }

/-- Raising one vertex and then others is raising all of them. -/
theorem Raised.cons {next : Nat} {r s t : Ranking n} {v : Fin n} {vs : List (Fin n)}
    (h : Raised [v] next r s) (hs : Raised vs next s t) : Raised (v :: vs) next r t where
  le w := Nat.le_trans (h.le w) (hs.le w)
  next_le w hw := by
    rcases List.mem_cons.mp hw with rfl | hw
    · exact Nat.le_trans (h.next_le w (List.mem_singleton_self w)) (hs.le w)
    · exact hs.next_le w hw
  eq_or_raised w := by
    rcases hs.eq_or_raised w with heq | ⟨hw, heq, hq⟩
    · rcases h.eq_or_raised w with heq' | ⟨hw, heq', hq⟩
      · exact .inl (heq.trans heq')
      · exact .inr ⟨List.mem_append_left vs hw, heq.trans heq', hs.queue_subset w hq⟩
    · exact .inr ⟨List.mem_cons_of_mem v hw, heq, hq⟩
  queue_subset w hw := hs.queue_subset w (h.queue_subset w hw)
  mem_or_raised w hw := by
    rcases hs.mem_or_raised w hw with hw | ⟨hw, heq⟩
    · rcases h.mem_or_raised w hw with hw | ⟨hw, heq⟩
      · exact .inl hw
      · rcases hs.eq_or_raised w with heq' | ⟨-, heq', -⟩
        · exact .inr ⟨List.mem_append_left vs hw, heq'.trans heq⟩
        · exact .inr ⟨List.mem_append_left vs hw, heq'⟩
    · exact .inr ⟨List.mem_cons_of_mem v hw, heq⟩

/-- What raising several vertices does. -/
theorem raised_foldl (next : Nat) (vs : List (Fin n)) (r : Ranking n) :
    Raised vs next r (vs.foldl (raise next) r) := by
  induction vs generalizing r with
  | nil => exact .nil next r
  | cons v vs ih => exact (raised_raise next r v).cons (ih _)

/-- A step takes a vertex off the queue, and then does nothing if its successors would pass the
limit, or raises them. -/
theorem step?_cases (h : step? g r = some s) :
    ∃ u queue, r.queue = u :: queue ∧
      (limit n < r.rank.get u + 1 ∧ s = { r with queue } ∨
        r.rank.get u + 1 ≤ limit n ∧
          Raised (g.successors u) (r.rank.get u + 1) { r with queue } s) := by
  unfold step? at h
  cases hq : r.queue with
  | nil =>
      rw [hq] at h
      cases h
  | cons u queue =>
      rw [hq] at h
      change some (if limit n < r.rank.get u + 1 then _ else _) = some s at h
      refine ⟨u, queue, rfl, ?_⟩
      by_cases hlimit : limit n < r.rank.get u + 1
      · simp only [hlimit, if_true, Option.some.injEq] at h
        exact .inl ⟨hlimit, h.symm⟩
      · simp only [hlimit, if_false, Option.some.injEq] at h
        rw [← h]
        exact .inr ⟨by omega, raised_foldl _ _ _⟩

theorem queue_of_step?_eq_none (h : step? g r = none) : r.queue = [] := by
  unfold step? at h
  cases hq : r.queue with
  | nil => rfl
  | cons u queue =>
      rw [hq] at h
      cases h

/-! ### What a run does -/

/-- What holds at first and is kept by every step holds when the queue has run empty. -/
theorem finish_induction {motive : Ranking n → Prop} (hr : motive r)
    (hstep : ∀ {r s}, motive r → step? g r = some s → motive s) : motive (finish g r) := by
  induction r using finish.induct (g := g) with
  | case1 r h =>
      rw [finish, h]
      exact hr
  | case2 r s h ih =>
      rw [finish, h]
      exact ih (hstep hr h)

/-- Working off comes to an end only with an empty queue. -/
theorem queue_finish (g : Graph n) (r : Ranking n) : (finish g r).queue = [] := by
  induction r using finish.induct (g := g) with
  | case1 r h =>
      rw [finish, h]
      exact queue_of_step?_eq_none h
  | case2 r s h ih =>
      rw [finish, h]
      exact ih

/-! ### Ranks are lengths of walks -/

/-- Ranks are within the limit and lengths of walks from a root; a vertex of rank zero need not be
reached from one, but those in the queue are. -/
structure Sound (g : Graph n) (r : Ranking n) : Prop where
  reached : ∀ v : Fin n, r.rank.get v ≠ 0 → g.Reached (r.rank.get v) v
  queued : ∀ v ∈ r.queue, g.Reached (r.rank.get v) v
  le_limit : ∀ v : Fin n, r.rank.get v ≤ limit n

theorem rank_start (g : Graph n) (v : Fin n) : (start g).rank.get v = 0 := by
  change (Vector.replicate n 0)[v.val] = 0
  exact Vector.getElem_replicate v.isLt

/-- Before anything is worked off, ranks are sound. -/
theorem sound_start (g : Graph n) : Sound g (start g) where
  reached v h := absurd (rank_start g v) h
  queued v h := by
    rw [rank_start]
    exact ⟨v, h, .nil v⟩
  le_limit v := by
    rw [rank_start]
    exact Nat.zero_le _

/-- Working off a vertex keeps ranks sound. -/
theorem Sound.step (hr : Sound g r) (h : step? g r = some s) : Sound g s := by
  obtain ⟨u, queue, hq, ⟨-, rfl⟩ | ⟨hlimit, raised⟩⟩ := step?_cases h
  · exact { hr with queued := fun v hv => hr.queued v (hq ▸ List.mem_cons_of_mem u hv) }
  · have hu : g.Reached (r.rank.get u) u := hr.queued u (hq ▸ List.mem_cons_self)
    have hraised : ∀ v : Fin n, v ∈ g.successors u → s.rank.get v = r.rank.get u + 1 →
        g.Reached (s.rank.get v) v := by
      intro v hv heq
      rw [heq]
      exact hu.snoc (mem_successors.mp hv)
    constructor
    case reached =>
      intro v hv
      rcases raised.eq_or_raised v with heq | ⟨hmem, heq, -⟩
      · rw [heq] at hv ⊢
        exact hr.reached v hv
      · exact hraised v hmem heq
    case queued =>
      intro v hv
      rcases raised.mem_or_raised v hv with hmem | ⟨hmem, heq⟩
      · rcases raised.eq_or_raised v with heq | ⟨hmem', heq, -⟩
        · rw [heq]
          exact hr.queued v (hq ▸ List.mem_cons_of_mem u hmem)
        · exact hraised v hmem' heq
      · exact hraised v hmem heq
    case le_limit =>
      intro v
      rcases raised.eq_or_raised v with heq | ⟨-, heq, -⟩
      · rw [heq]
        exact hr.le_limit v
      · rw [heq]
        exact hlimit

/-! ### Arcs lead downwards -/

/-- A vertex that roots have been found to reach. -/
def Active (g : Graph n) (r : Ranking n) (v : Fin n) : Prop :=
  v ∈ g.roots ∨ r.rank.get v ≠ 0

/-- The rank of an active vertex is the length of a walk from a root. -/
theorem Sound.reached_of_active (hr : Sound g r) {v : Fin n} (h : Active g r v) :
    g.Reached (r.rank.get v) v := by
  by_cases hzero : r.rank.get v = 0
  · rcases h with h | h
    · rw [hzero]
      exact ⟨v, h, .nil v⟩
    · exact absurd hzero h
  · exact hr.reached v hzero

/-- An arc from an active vertex leads to a greater rank, unless the vertex is still to be worked
off or has reached the limit. -/
def Settled (g : Graph n) (r : Ranking n) : Prop :=
  ∀ u v, g.Arc u v → Active g r u →
    u ∈ r.queue ∨ limit n < r.rank.get u + 1 ∨ r.rank.get u + 1 ≤ r.rank.get v

/-- Before anything is worked off, only roots are active, and they wait. -/
theorem settled_start (g : Graph n) : Settled g (start g) := by
  rintro u v - (h | h)
  · exact .inl h
  · exact absurd (rank_start g u) h

/-- Working off a vertex settles its arcs and unsettles no other. -/
theorem Settled.step (hr : Settled g r) (h : step? g r = some s) : Settled g s := by
  intro a b arc active
  obtain ⟨u, queue, hq, ⟨hlimit, rfl⟩ | ⟨-, raised⟩⟩ := step?_cases h
  · rcases hr a b arc active with hmem | hsettled
    · rw [hq] at hmem
      rcases List.mem_cons.mp hmem with rfl | hmem
      · exact .inr (.inl hlimit)
      · exact .inl hmem
    · exact .inr hsettled
  · rcases raised.eq_or_raised a with heq | ⟨-, -, hmem⟩
    · have hactive : Active g r a := by
        unfold Active at active ⊢
        rwa [heq] at active
      rw [heq]
      rcases hr a b arc hactive with hmem | hlimit | hle
      · rw [hq] at hmem
        rcases List.mem_cons.mp hmem with rfl | hmem
        · exact .inr (.inr (raised.next_le b (mem_successors.mpr arc)))
        · exact .inl (raised.queue_subset a hmem)
      · exact .inr (.inl hlimit)
      · exact .inr (.inr (Nat.le_trans hle (raised.le b)))
    · exact .inl hmem

/-! ### The finished ranking -/

/-- In the end ranks are sound. -/
theorem sound_finish (g : Graph n) : Sound g (finish g (start g)) :=
  finish_induction (sound_start g) Sound.step

/-- In the end every arc from an active vertex leads to a greater rank, or the limit is reached. -/
theorem settled_finish (g : Graph n) {u v : Fin n} (arc : g.Arc u v)
    (active : Active g (finish g (start g)) u) :
    limit n < g.ranks.get u + 1 ∨ g.ranks.get u + 1 ≤ g.ranks.get v := by
  have settled : Settled g (finish g (start g)) := finish_induction (settled_start g) Settled.step
  rcases settled u v arc active with hmem | h
  · rw [queue_finish] at hmem
    exact absurd hmem List.not_mem_nil
  · exact h

end Ranking

open Ranking

/-- No rank passes the limit. -/
theorem rank_le_limit (g : Graph n) (v : Fin n) : g.ranks.get v ≤ limit n :=
  (sound_finish g).le_limit v

/-- A rank other than zero is the length of a walk from a root. -/
theorem reached_rank (g : Graph n) (v : Fin n) (h : g.ranks.get v ≠ 0) :
    g.Reached (g.ranks.get v) v :=
  (sound_finish g).reached v h

/-- Without a cycle the limit is never in the way. -/
private theorem rank_lt_of_active (acyclic : g.Acyclic) {u v : Fin n} (arc : g.Arc u v)
    (active : Active g (finish g (start g)) u) : g.ranks.get u < g.ranks.get v := by
  obtain ⟨r, -, walk⟩ := ((sound_finish g).reached_of_active active).snoc arc
  have hlt : g.ranks.get u + 1 < n := walk.length_lt acyclic
  rcases settled_finish g arc active with hlimit | hle
  · unfold limit at hlimit
    omega
  · exact hle

/-- Without cycles, every arc leads to a greater rank. -/
theorem rank_lt_of_arc (acyclic : g.Acyclic) {u v : Fin n} (arc : g.Arc u v) :
    g.ranks.get u < g.ranks.get v := by
  refine rank_lt_of_active acyclic arc ?_
  obtain ⟨r, hr, k, walk⟩ := exists_walk_of_acyclic acyclic u
  clear arc
  induction walk with
  | nil r => exact .inl hr
  | snoc walk arc ih =>
      have hlt := rank_lt_of_active acyclic arc (ih hr)
      exact .inr (Nat.ne_zero_of_lt hlt)

end Whiteboard.Graph
