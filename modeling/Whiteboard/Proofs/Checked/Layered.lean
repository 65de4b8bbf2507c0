import Mathlib.Data.List.Sort
import Whiteboard.Proofs.Checked.Rank
import Whiteboard.Proofs.Layout.Stack

/-!
Layered layout by positions.

The rows are told apart by their ranks, but their extents stand in lists at their positions, and the
boxes are written row by row into a list that has a place for every node. The rows are in ascending
order, and so are the positions of the cells in each: so the cursors are at every moment where the
stack has the next row and the next cell begin, and every place is written with the box that the
stack has for it (`nodes_eq`).
-/

namespace Whiteboard.Checked

/-- What stands before a number in an ascending list is what is less than it. -/
theorem filter_lt_of_ascending {before after : List Nat} {n : Nat}
    (h : (before ++ n :: after).Pairwise (· < ·)) :
    (before ++ n :: after).filter (· < n) = before := by
  obtain ⟨-, hafter, hlt⟩ := List.pairwise_append.mp h
  have hbefore : before.filter (· < n) = before :=
    List.filter_eq_self.mpr fun m hm => decide_eq_true (hlt m hm n List.mem_cons_self)
  have hnone : after.filter (· < n) = [] :=
    List.filter_eq_nil_iff.mpr fun m hm => by
      have hnm := List.rel_of_pairwise_cons hafter hm
      simp only [decide_eq_true_eq]
      omega
  rw [List.filter_append, hbefore, List.filter_cons_of_neg (by simp), hnone, List.append_nil]

namespace Layered

open Whiteboard.Layered

variable {α : Type} [Scalar α]

/-! ### Rows -/

def cells (s : Settings α) (d : Diagram) : Attempt (List (Cell α)) := do
  let ranks ← ranks d
  pure (d.nodes.map fun n =>
    { id := n.id, rank := (ranks.lookup n.id).getD 0, size := s.nodeSize n })

def occurring (cells : List (Cell α)) : List Nat :=
  (cells.map (·.rank)).eraseDups.mergeSort

def stack (s : Settings α) (direction : Direction) (d : Diagram) : Attempt (Stack α) := do
  let cells ← cells s d
  pure
    { settings := s
      direction
      cells
      rows := (occurring cells).map (row s direction cells)
      margin := if d.subgraphs.isEmpty then 0 else s.framePadding + s.titleHeight }

def members (cells : List (Cell α)) (rank : Nat) : List (Cell α × Nat) :=
  cells.zipIdx.filter (·.1.rank == rank)

/-! ### Placing -/

/-- The nodes placed so far at the positions of their cells, and where the next one begins. -/
structure Placing (α : Type) where
  placed : List (Option (PlacedNode α))
  cursor : α

/-- Places a cell, given its position in the diagram and its order in its row. -/
def placeCell (k : Stack α) (nodes : List Node) (rank : Nat) (depth thickness : α) (p : Placing α)
    (entry : (Cell α × Nat) × Nat) : Attempt (Placing α) := do
  let ((c, position), order) := entry
  let extent := along k.direction c.size
  let start := depth + (thickness - extent) / 2
  let a := k.margin + if k.direction.isReversed then k.thickness - start - extent else start
  let b := k.margin + p.cursor
  let n ← read nodes position
  let placed ← write p.placed position <| some
    { id := n.id
      rank
      order
      rect :=
        if k.direction.isHorizontal then ⟨a, b, c.size.width, c.size.height⟩
        else ⟨b, a, c.size.width, c.size.height⟩ }
  pure { placed, cursor := p.cursor + (across k.direction c.size + k.settings.nodeGap) }

/-- Places the cells of a rank, given the position of its row. -/
def placeRow (k : Stack α) (nodes : List Node) (p : Placing α) (entry : Nat × Nat) :
    Attempt (Placing α) := do
  let (rank, position) := entry
  let thickness ← read (k.rows.map Row.thickness) position
  let breadth ← read (k.rows.map Row.breadth) position
  let q ← (members k.cells rank).zipIdx.foldlM (placeCell k nodes rank p.cursor thickness)
    { placed := p.placed, cursor := (k.breadth - breadth) / 2 }
  pure { placed := q.placed, cursor := p.cursor + (thickness + k.settings.rankGap) }

def nodes (s : Settings α) (direction : Direction) (d : Diagram) :
    Attempt (List (PlacedNode α)) := do
  let k ← stack s direction d
  let p ← (k.rows.map Row.rank).zipIdx.foldlM (placeRow k d.nodes)
    { placed := List.replicate d.nodes.length none, cursor := 0 }
  pure (p.placed.filterMap id)

def layout (s : Settings α) (direction : Direction) (d : Diagram) : Attempt (Layout α) := do
  let nodes ← nodes s direction d
  pure
    { nodes
      edges := d.edges.map (Layout.route nodes Route.loop fun a b => Route.between a b 0)
      frames := d.subgraphs.map fun g =>
        { id := g.id, label := g.label, rect := frameRect s nodes g.members } }

/-! ### Rows are in ascending order -/

theorem cells_eq (s : Settings α) (d : Diagram) :
    cells s d = pure (Whiteboard.Layered.cells s d) := by
  rw [cells, ranks_eq]
  rfl

omit [Scalar α] in
/-- Ranks are sorted and occur once. -/
theorem occurring_ascending (cells : List (Cell α)) : (occurring cells).Pairwise (· < ·) := by
  have hnodup : (occurring cells).Nodup :=
    (List.mergeSort_perm _ _).nodup_iff.mpr (Roster.eraseDups_nodup _)
  exact (List.sortedLE_mergeSort.sortedLT_of_nodup hnodup).pairwise

omit [Scalar α] in
/-- As no rank reaches the number of cells, the ranks that occur are found below it. -/
theorem occurring_eq {cells : List (Cell α)} (h : ∀ c ∈ cells, c.rank < cells.length) :
    occurring cells = (List.range cells.length).filter fun r => cells.any (·.rank == r) := by
  refine (occurring_ascending cells).eq_of_mem_iff (List.pairwise_lt_range.filter _) fun r => ?_
  rw [occurring, List.mem_mergeSort, List.mem_eraseDups, List.mem_map, List.mem_filter,
    List.mem_range, List.any_eq_true]
  constructor
  · rintro ⟨c, hc, rfl⟩
    exact ⟨h c hc, c, hc, beq_self_eq_true _⟩
  · rintro ⟨-, c, hc, hr⟩
    exact ⟨c, hc, beq_iff_eq.mp hr⟩

/-- A rank is less than the number of cells. -/
theorem rank_lt_of_mem_cells {s : Settings α} {d : Diagram} :
    ∀ c ∈ Whiteboard.Layered.cells s d, c.rank < (Whiteboard.Layered.cells s d).length :=
  (Stack.regular_ofDiagram s .td d).rank_lt

theorem stack_eq (s : Settings α) (direction : Direction) (d : Diagram) :
    stack s direction d = pure (Stack.ofDiagram s direction d) := by
  rw [stack, cells_eq, pure_bind, occurring_eq rank_lt_of_mem_cells]
  rfl

/-! ### Placing one cell -/

variable {k : Stack α} {c : Cell α} {rank i : Nat} {written : List Nat}
  {before after : List (Cell α × Nat)} {ns : List Node}

/-- The list of places in which those at some positions are written. -/
def placedAt (k : Stack α) (written : List Nat) : List (Option (PlacedNode α)) :=
  k.cells.zipIdx.map fun (c, i) => if i ∈ written then some (k.place c i) else none

theorem placedAt_nil (k : Stack α) : placedAt k [] = List.replicate k.cells.length none := by
  simp [placedAt]

/-- A cell is written to its own position, which is there. -/
theorem write_placedAt (written : List Nat) (hc : k.cells[i]? = some c) :
    write (placedAt k written) i (some (k.place c i)) = pure (placedAt k (written ++ [i])) := by
  obtain ⟨hi, rfl⟩ := List.getElem?_eq_some_iff.mp hc
  rw [write_of_lt (by simpa [placedAt] using hi)]
  congr 1
  apply List.ext_getElem
  · simp [placedAt]
  · intro j hj hj'
    simp only [placedAt, List.getElem_set, List.getElem_map, List.getElem_zipIdx, Nat.zero_add,
      List.mem_append, List.mem_singleton]
    by_cases hij : i = j
    · subst hij
      simp
    · simp [hij, Ne.symm hij]

omit [Scalar α] in
/-- The cells of a rank before one of them are those that stand before it in the diagram. -/
theorem earlier_eq (h : members k.cells rank = before ++ (c, i) :: after) :
    k.cells[i]? = some c ∧ c.rank = rank ∧
      (k.cells.take i).filter (·.rank == rank) = before.map Prod.fst := by
  -- Between the cells of the rank there may be others, all of which are passed over.
  obtain ⟨front, behind, hzip, hfront, hbehind⟩ := List.filter_eq_append_iff.mp h
  obtain ⟨others, rest, rfl, hothers, hrank, -⟩ := List.filter_eq_cons_iff.mp hbehind
  rw [← List.append_assoc] at hzip
  obtain ⟨cs, ds, hcells, hcs, hds⟩ := List.zipIdx_eq_append_iff.mp hzip
  obtain ⟨c', ds, rfl, heq, -⟩ := List.zipIdx_eq_cons_iff.mp hds.symm
  cases heq
  have hnone : others.filter (·.1.rank == rank) = [] := List.filter_eq_nil_iff.mpr hothers
  refine ⟨by simp [hcells], beq_iff_eq.mp hrank, ?_⟩
  calc (k.cells.take (0 + cs.length)).filter (·.rank == rank)
      = (cs.zipIdx.map Prod.fst).filter (·.rank == rank) := by
        rw [hcells, Nat.zero_add, List.take_left, List.zipIdx_map_fst]
    _ = ((front ++ others).filter (·.1.rank == rank)).map Prod.fst := by
        rw [List.filter_map, ← hcs]
        rfl
    _ = before.map Prod.fst := by
        rw [List.filter_append, hfront, hnone, List.append_nil]

/-- What is placed, and where the next cell begins, behind some cells of a row. -/
def placing (k : Stack α) (rank : Nat) (written : List Nat) (before : List (Cell α × Nat)) :
    Placing α where
  placed := placedAt k written
  cursor := Scalar.offset k.settings.nodeGap ((k.breadth - (k.row rank).breadth) / 2)
    (before.map fun entry => across k.direction entry.1.size)

theorem cursor_concat (k : Stack α) (rank : Nat) (written : List Nat)
    (before : List (Cell α × Nat)) (entry : Cell α × Nat) :
    (placing k rank written (before ++ [entry])).cursor =
      (placing k rank written before).cursor +
        (across k.direction entry.1.size + k.settings.nodeGap) := by
  simp only [placing, Scalar.offset, List.map_append, List.foldl_append, List.map_cons,
    List.map_nil, List.foldl_cons, List.foldl_nil]

/-- Placing a cell goes on where the cell before it ended. -/
theorem placeCell_eq (hns : ns.map (·.id) = k.cells.map (·.id))
    (h : members k.cells rank = before ++ (c, i) :: after) :
    placeCell k ns rank (k.rowStart rank) (k.row rank).thickness (placing k rank written before)
        ((c, i), before.length) =
      pure (placing k rank (written ++ [i]) (before ++ [(c, i)])) := by
  obtain ⟨hc, rfl, hearlier⟩ := earlier_eq h
  have hid : (ns.map (·.id))[i]? = some c.id := by
    rw [hns, List.getElem?_map, hc]
    rfl
  rw [List.getElem?_map] at hid
  obtain ⟨n, hn, hnid⟩ := Option.map_eq_some_iff.mp hid
  have hplace := write_placedAt written hc
  rw [Stack.place, hearlier, List.length_map, Stack.rect, Stack.acrossStart, List.map_map,
    ← hnid] at hplace
  rw [placeCell, read_of_getElem? hn, pure_bind]
  refine (bind_of_eq_pure hplace _).trans ?_
  exact congrArg (fun cursor => pure (Placing.mk (placedAt k (written ++ [i])) cursor))
    (cursor_concat k c.rank written before (c, i)).symm

/-! ### Placing row after row -/

/-- A row is placed cell by cell. -/
theorem foldlM_placeCell (hns : ns.map (·.id) = k.cells.map (·.id)) (rank : Nat)
    (written : List Nat) :
    (members k.cells rank).zipIdx.foldlM
        (placeCell k ns rank (k.rowStart rank) (k.row rank).thickness)
        (placing k rank written []) =
      pure (placing k rank (written ++ (members k.cells rank).map Prod.snd)
        (members k.cells rank)) := by
  have hloop := foldlM_zipIdx_eq_pure
    (placeCell k ns rank (k.rowStart rank) (k.row rank).thickness)
    (fun before => placing k rank (written ++ before.map Prod.snd) before)
    fun {before entry after} h => by
      rw [placeCell_eq hns h, List.map_append, ← List.append_assoc]
      rfl
  simpa using hloop

/-- The rows before one of them are those of lesser ranks. -/
theorem rowStart_eq (regular : k.Regular) {lesser greater : List Nat}
    (h : k.ranks = lesser ++ rank :: greater) :
    k.rowStart rank =
      Scalar.offset k.settings.rankGap 0 (lesser.map fun r => (k.row r).thickness) := by
  have hascending : k.ranks.Pairwise (· < ·) := List.pairwise_lt_range.filter _
  rw [h] at hascending
  rw [Stack.rowStart, regular.thicknesses, h, filter_lt_of_ascending hascending]

/-- What is placed, and where the next row begins, behind the rows of some ranks. -/
def stacking (k : Stack α) (lesser : List Nat) : Placing α where
  placed := placedAt k (lesser.flatMap fun rank => (members k.cells rank).map Prod.snd)
  cursor := Scalar.offset k.settings.rankGap 0 (lesser.map fun rank => (k.row rank).thickness)

theorem stacking_concat (k : Stack α) (lesser : List Nat) (rank : Nat) :
    stacking k (lesser ++ [rank]) =
      { placed := placedAt k ((lesser.flatMap fun rank => (members k.cells rank).map Prod.snd) ++
          (members k.cells rank).map Prod.snd)
        cursor := (stacking k lesser).cursor +
          ((k.row rank).thickness + k.settings.rankGap) } := by
  simp only [stacking, Scalar.offset, List.flatMap_append, List.flatMap_singleton, List.map_append,
    List.map_cons, List.map_nil, List.foldl_append, List.foldl_cons, List.foldl_nil]

/-- Placing a row goes on where the row before it ended. -/
theorem placeRow_eq (regular : k.Regular) (hns : ns.map (·.id) = k.cells.map (·.id))
    {lesser greater : List Nat} (h : k.ranks = lesser ++ rank :: greater) :
    placeRow k ns (stacking k lesser) (rank, lesser.length) =
      pure (stacking k (lesser ++ [rank])) := by
  have hrows : k.rows = k.ranks.map k.row := regular.rows_eq
  have hrow : k.rows[lesser.length]? = some (k.row rank) := by
    rw [hrows, List.getElem?_map, h, List.getElem?_append_right (Nat.le_refl _), Nat.sub_self]
    rfl
  have hthickness : read (k.rows.map Row.thickness) lesser.length = pure (k.row rank).thickness :=
    read_of_getElem? (by rw [List.getElem?_map, hrow]; rfl)
  have hbreadth : read (k.rows.map Row.breadth) lesser.length = pure (k.row rank).breadth :=
    read_of_getElem? (by rw [List.getElem?_map, hrow]; rfl)
  have hcells := foldlM_placeCell hns rank
    (lesser.flatMap fun rank => (members k.cells rank).map Prod.snd)
  rw [rowStart_eq regular h] at hcells
  rw [placeRow, hthickness, pure_bind, hbreadth, pure_bind, stacking_concat]
  exact bind_of_eq_pure hcells _

/-- A stack is placed row by row. -/
theorem foldlM_placeRow (regular : k.Regular) (hns : ns.map (·.id) = k.cells.map (·.id)) :
    k.ranks.zipIdx.foldlM (placeRow k ns) (stacking k []) = pure (stacking k k.ranks) :=
  foldlM_zipIdx_eq_pure (placeRow k ns) (stacking k) (placeRow_eq regular hns)

/-- When all rows are stacked, every place is written. -/
theorem placed_stacking (regular : k.Regular) :
    (stacking k k.ranks).placed.filterMap id = k.nodes := by
  have hall : (stacking k k.ranks).placed =
      k.cells.zipIdx.map fun (c, i) => some (k.place c i) := by
    refine List.map_congr_left fun (c, i) hc => if_pos ?_
    have hrank := regular.rank_mem (List.fst_mem_of_mem_zipIdx hc)
    exact List.mem_flatMap.mpr ⟨c.rank, hrank, List.mem_map.mpr
      ⟨(c, i), List.mem_filter.mpr ⟨hc, beq_self_eq_true _⟩, rfl⟩⟩
  rw [hall, Stack.nodes, List.filterMap_map]
  exact congrFun List.filterMap_eq_map _

/-- Every node gets a box: none of the places stays empty. -/
theorem nodes_eq (s : Settings α) (direction : Direction) (d : Diagram) :
    nodes s direction d = pure (Stack.ofDiagram s direction d).nodes := by
  have regular := Stack.regular_ofDiagram s direction d
  have hns : d.nodes.map (·.id) = (Stack.ofDiagram s direction d).cells.map (·.id) := by
    rw [Stack.ofDiagram, Whiteboard.Layered.cells, List.map_map]
    rfl
  have hranks : (Stack.ofDiagram s direction d).rows.map Row.rank =
      (Stack.ofDiagram s direction d).ranks := by
    rw [regular.rows_eq, Whiteboard.Layered.rows, List.map_map]
    exact List.map_id _
  have hlength : d.nodes.length = (Stack.ofDiagram s direction d).cells.length :=
    (List.length_map _).symm
  have hrows := foldlM_placeRow regular hns
  rw [stacking, List.flatMap_nil, placedAt_nil] at hrows
  rw [nodes, stack_eq, pure_bind, hranks, hlength]
  refine (bind_of_eq_pure hrows _).trans ?_
  rw [placed_stacking regular]

/-- Ranks are laid out without an overrun. -/
theorem layout_eq (s : Settings α) (direction : Direction) (d : Diagram) :
    layout s direction d = pure (Whiteboard.Layered.layout s direction d) := by
  rw [layout, nodes_eq]
  rfl

end Layered

end Whiteboard.Checked
