import Whiteboard.Layout.Layered
import Whiteboard.Proofs.Exact
import Whiteboard.Proofs.Graph.NodeRank

/-!
Rows on top of one another.

Along the direction of a stack every cell stays within the thickness of its row, and a row begins
one gap behind the end of every row before it. So of two cells of different ranks, the one of the
greater rank lies `Beyond` the other, in a reversed direction as well (`beyond_of_rank_lt`).
-/

namespace Whiteboard

/-- A box lies beyond another one in a direction, with at least a gap between them. -/
def Rect.Beyond (direction : Direction) (gap : Rat) (a b : Rect Rat) : Prop :=
  match direction with
  | .td | .tb => a.bottom + gap ≤ b.y
  | .bt => b.bottom + gap ≤ a.y
  | .lr => a.right + gap ≤ b.x
  | .rl => b.right + gap ≤ a.x

namespace Layered

variable {α : Type} [Scalar α]

/-- The stack is that of its own cells, whose ranks are all below their number. -/
structure Stack.Regular (k : Stack α) : Prop where
  rows_eq : k.rows = Layered.rows k.settings k.direction k.cells
  rank_lt : ∀ c ∈ k.cells, c.rank < k.cells.length

theorem Stack.regular_ofDiagram (s : Settings α) (direction : Direction) (d : Diagram) :
    (Stack.ofDiagram s direction d).Regular where
  rows_eq := rfl
  rank_lt c hc := by
    obtain ⟨n, hn, rfl⟩ := List.mem_map.mp hc
    have hlength : (Stack.ofDiagram s direction d).cells.length = d.nodes.length :=
      List.length_map _
    rw [hlength]
    exact d.rank_lt_length (Diagram.hasNode_of_mem hn)

def Stack.ranks (k : Stack α) : List Nat :=
  (List.range k.cells.length).filter fun r => k.cells.any (·.rank == r)

/-- The rank of every cell has a row. -/
theorem Stack.Regular.rank_mem {k : Stack α} (regular : k.Regular) {c : Cell α}
    (hc : c ∈ k.cells) : c.rank ∈ k.ranks :=
  List.mem_filter.mpr
    ⟨List.mem_range.mpr (regular.rank_lt c hc),
      List.any_eq_true.mpr ⟨c, hc, beq_self_eq_true c.rank⟩⟩

def Stack.row (k : Stack α) (rank : Nat) : Row α :=
  Layered.row k.settings k.direction k.cells rank

theorem Stack.Regular.thicknesses {k : Stack α} (regular : k.Regular) (rank : Nat) :
    (k.rows.filter (·.rank < rank)).map Row.thickness =
      (k.ranks.filter (· < rank)).map fun r => (k.row r).thickness := by
  rw [regular.rows_eq, Layered.rows, List.filter_map, List.map_map]
  rfl

/-- Where a cell begins along the stack if the stack is not turned over. -/
def Stack.start (k : Stack α) (c : Cell α) : α :=
  k.rowStart c.rank + ((k.row c.rank).thickness - along k.direction c.size) / 2

/-- In a reversed direction a cell lies as far from the end. -/
theorem Stack.alongStart_eq (k : Stack α) (c : Cell α) :
    k.alongStart c =
      if k.direction.isReversed then k.thickness - k.start c - along k.direction c.size
      else k.start c := rfl

/-- What is placed is a cell in a box of its own size. -/
theorem Stack.exists_cell {k : Stack α} {p : PlacedNode α} (hp : p ∈ k.nodes) :
    ∃ c ∈ k.cells, ∃ earlier, p.id = c.id ∧ p.rank = c.rank ∧ p.rect = k.rect earlier c := by
  obtain ⟨⟨c, i⟩, hmem, rfl⟩ := List.mem_map.mp hp
  exact ⟨c, List.fst_mem_of_mem_zipIdx hmem, _, rfl, rfl, rfl⟩

/-- The box of a node has its size. -/
theorem Stack.exists_size {s : Settings α} {direction : Direction} {d : Diagram}
    {p : PlacedNode α} (hp : p ∈ (Stack.ofDiagram s direction d).nodes) :
    ∃ n ∈ d.nodes, p.rect.width = (s.nodeSize n).width ∧ p.rect.height = (s.nodeSize n).height := by
  obtain ⟨c, hc, earlier, -, -, hrect⟩ := Stack.exists_cell hp
  obtain ⟨n, hn, rfl⟩ := List.mem_map.mp hc
  refine ⟨n, hn, ?_⟩
  rw [hrect, Stack.rect]
  dsimp only
  split <;> exact ⟨rfl, rfl⟩

namespace Stack

variable {k : Stack Rat} {a b c : Cell Rat}

theorem thickness_row_nonneg (k : Stack Rat) (rank : Nat) : 0 ≤ (k.row rank).thickness :=
  Scalar.greatest_nonneg _

/-- A row is as thick as each of its cells. -/
theorem along_le_thickness (hc : c ∈ k.cells) :
    along k.direction c.size ≤ (k.row c.rank).thickness := by
  apply Scalar.le_greatest
  apply List.mem_map_of_mem
  apply List.mem_map_of_mem
  exact List.mem_filter.mpr ⟨hc, beq_self_eq_true c.rank⟩

/-- A row begins behind all rows of smaller rank and the gaps between them. -/
theorem Regular.rowStart_eq (regular : k.Regular) (rank : Nat) :
    k.rowStart rank =
      ((k.ranks.filter (· < rank)).map fun r =>
        (k.row r).thickness + k.settings.rankGap).sum := by
  rw [rowStart, Scalar.offset_eq, regular.thicknesses, List.map_map]
  exact zero_add _

/-- A row begins one gap behind every row of a lesser rank. -/
theorem Regular.rowStart_add_le (regular : k.Regular) (hgap : 0 ≤ k.settings.rankGap)
    (ha : a ∈ k.cells) {rank : Nat} (hlt : a.rank < rank) :
    k.rowStart a.rank + ((k.row a.rank).thickness + k.settings.rankGap) ≤ k.rowStart rank := by
  rw [regular.rowStart_eq, regular.rowStart_eq]
  refine Scalar.sum_filter_add_le (f := fun r => (k.row r).thickness + k.settings.rankGap)
    (fun r => ?_) (fun r hr => ?_) (regular.rank_mem ha) ?_ ?_
  · have hthickness := k.thickness_row_nonneg r
    linarith
  · have hra : r < a.rank := of_decide_eq_true hr
    exact decide_eq_true (lt_trans hra hlt)
  · simp
  · exact decide_eq_true hlt

/-- A cell ends one gap before every cell of a greater rank begins. -/
theorem Regular.start_add_le (regular : k.Regular) (hgap : 0 ≤ k.settings.rankGap)
    (ha : a ∈ k.cells) (hb : b ∈ k.cells) (hlt : a.rank < b.rank) :
    k.start a + along k.direction a.size + k.settings.rankGap ≤ k.start b := by
  have hrow := regular.rowStart_add_le hgap ha hlt
  have hwithin := along_le_thickness ha
  have hwithin' := along_le_thickness hb
  have hstart : k.start a =
      k.rowStart a.rank + ((k.row a.rank).thickness - along k.direction a.size) / 2 := rfl
  have hstart' : k.start b =
      k.rowStart b.rank + ((k.row b.rank).thickness - along k.direction b.size) / 2 := rfl
  linarith

/-- Of two placed cells, the one of the greater rank lies beyond the other. -/
theorem Regular.beyond_of_rank_lt (regular : k.Regular) (hgap : 0 ≤ k.settings.rankGap)
    {p q : PlacedNode Rat} (hp : p ∈ k.nodes) (hq : q ∈ k.nodes) (hlt : p.rank < q.rank) :
    Rect.Beyond k.direction k.settings.rankGap p.rect q.rect := by
  obtain ⟨a, ha, earlier, -, harank, harect⟩ := exists_cell hp
  obtain ⟨b, hb, earlier', -, hbrank, hbrect⟩ := exists_cell hq
  rw [harank, hbrank] at hlt
  have hle := regular.start_add_le hgap ha hb hlt
  rw [harect, hbrect]
  unfold Rect.Beyond Rect.bottom Rect.right rect
  rw [alongStart_eq, alongStart_eq]
  cases hd : k.direction <;>
    simp only [hd, along, Direction.isHorizontal, Direction.isReversed, if_true, if_false,
      Bool.false_eq_true] at hle ⊢ <;>
    linarith

end Stack

end Layered

end Whiteboard
