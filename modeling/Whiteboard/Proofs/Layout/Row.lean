import Whiteboard.Proofs.Checked.Layered
import Whiteboard.Proofs.Layout.Order
import Whiteboard.Proofs.Settings

/-!
Rows of boxes.

The boxes of one rank lie behind one another in diagram order, with a gap between them, and the
space they leave free on the widest row is the same before the first and behind the last
(`centred_nodes`). Boxes of different ranks lie `Beyond` each other. So of any two boxes one keeps
out of the other's way (`pairwise_apart`), whatever ranks occur and wherever a chart runs in a
circle.
-/

namespace Whiteboard

namespace Rect

def rowStart (direction : Direction) (r : Rect Rat) : Rat :=
  if direction.isHorizontal then r.y else r.x

def rowEnd (direction : Direction) (r : Rect Rat) : Rat :=
  if direction.isHorizontal then r.bottom else r.right

end Rect

namespace PlacedNode

/-- Two boxes keep apart, the first of which stands earlier in the diagram. -/
structure Apart (direction : Direction) (s : Settings Rat) (p q : PlacedNode Rat) : Prop where
  /-- The box of the greater rank lies beyond the other. -/
  beyond_of_lt : p.rank < q.rank → Rect.Beyond direction s.rankGap p.rect q.rect
  beyond_of_gt : q.rank < p.rank → Rect.Beyond direction s.rankGap q.rect p.rect
  /-- In a row, the box that stands later in the diagram lies behind the other. -/
  behind_of_eq : p.rank = q.rank →
    p.rect.rowEnd direction + s.nodeGap ≤ q.rect.rowStart direction

/-- The first and the last of the nodes of a rank. -/
structure RowEnds {α : Type} (nodes : List (PlacedNode α)) (rank : Nat)
    (first last : PlacedNode α) : Prop where
  head_eq : (nodes.filter (·.rank == rank)).head? = some first
  last_eq : (nodes.filter (·.rank == rank)).getLast? = some last

/-- The rows of some nodes are centred on the widest one, which reaches from `lo` to `hi`. -/
structure Centred (direction : Direction) (lo hi : Rat) (nodes : List (PlacedNode Rat)) :
    Prop where
  /-- A row keeps as far from one bound as from the other. -/
  balanced : ∀ rank first last, RowEnds nodes rank first last →
    lo ≤ first.rect.rowStart direction ∧
      first.rect.rowStart direction - lo = hi - last.rect.rowEnd direction
  /-- There is a row from one bound to the other. -/
  widest : nodes ≠ [] → ∃ rank first last, RowEnds nodes rank first last ∧
    first.rect.rowStart direction = lo ∧ last.rect.rowEnd direction = hi

end PlacedNode

namespace Layered.Stack

open Checked.Layered (members earlier_eq)

section Cells

variable {α : Type}

def cellsOf (k : Stack α) (rank : Nat) : List (Cell α) :=
  k.cells.filter (·.rank == rank)

theorem map_members (k : Stack α) (rank : Nat) :
    (members k.cells rank).map Prod.fst = k.cellsOf rank := by
  conv => rhs; rw [cellsOf, ← List.zipIdx_map_fst 0 k.cells, List.filter_map]
  rfl

theorem mem_of_mem_cellsOf {k : Stack α} {rank : Nat} {c : Cell α} (h : c ∈ k.cellsOf rank) :
    c ∈ k.cells :=
  (List.mem_filter.mp h).1

variable [Scalar α]

/-- A cell placed behind the `earlier` cells of its row. -/
def placeBehind (k : Stack α) (earlier : List (Cell α)) (c : Cell α) : PlacedNode α where
  id := c.id
  rank := c.rank
  order := earlier.length
  rect := k.rect earlier c

/-- A cell is placed behind those of its rank that come before it. -/
theorem place_eq (k : Stack α) (c : Cell α) (position : Nat) :
    k.place c position =
      k.placeBehind ((k.cells.take position).filter (·.rank == c.rank)) c := rfl

theorem getElem_nodes {k : Stack α} {i : Nat} (h : i < k.nodes.length) :
    ∃ hc : i < k.cells.length, k.nodes[i] = k.place k.cells[i] i := by
  have hc : i < k.cells.length := by simpa [nodes] using h
  exact ⟨hc, by simp [nodes]⟩

/-- The nodes of a rank are its members, placed. -/
theorem filter_nodes (k : Stack α) (rank : Nat) :
    k.nodes.filter (·.rank == rank) =
      (members k.cells rank).map fun (c, i) => k.place c i := by
  rw [nodes, List.filter_map]
  rfl

omit [Scalar α] in
/-- The cells of a rank before one of them, and this one, stand before every later cell. -/
theorem earlier_of_lt {cells : List (Cell α)} {i j : Nat} (hi : i < cells.length) (hij : i < j) :
    (cells.take i).filter (·.rank == cells[i].rank) ++ [cells[i]] <+:
      (cells.take j).filter (·.rank == cells[i].rank) := by
  have hself : [cells[i]].filter (·.rank == cells[i].rank) = [cells[i]] := by simp
  conv => lhs; rw [← hself, ← List.filter_append, List.take_append_getElem]
  exact (List.take_prefix_take_left hij).filter _

/-- The first node of a row is placed behind none, and the last one behind all the others. -/
theorem cells_of_rowEnds {k : Stack α} {rank : Nat} {first last : PlacedNode α}
    (ends : PlacedNode.RowEnds k.nodes rank first last) :
    ∃ a b before, a.rank = rank ∧ b.rank = rank ∧ k.cellsOf rank = before ++ [b] ∧
      first = k.placeBehind [] a ∧ last = k.placeBehind before b := by
  obtain ⟨hhead, hlast⟩ := ends
  rw [filter_nodes, List.head?_map, Option.map_eq_some_iff] at hhead
  rw [filter_nodes, List.getLast?_map, Option.map_eq_some_iff] at hlast
  obtain ⟨⟨a, i⟩, ha, rfl⟩ := hhead
  obtain ⟨⟨b, j⟩, hb, rfl⟩ := hlast
  obtain ⟨after, hafter⟩ := List.head?_eq_some_iff.mp ha
  obtain ⟨before, hbefore⟩ := List.getLast?_eq_some_iff.mp hb
  obtain ⟨-, harank, hnone⟩ := earlier_eq (hafter.trans (List.nil_append _).symm)
  obtain ⟨-, hbrank, hothers⟩ := earlier_eq hbefore
  refine ⟨a, b, before.map Prod.fst, harank, hbrank, ?_, ?_, ?_⟩
  · rw [← map_members, hbefore, List.map_append]
    rfl
  · dsimp only
    rw [place_eq, harank, hnone]
    rfl
  · dsimp only
    rw [place_eq, hbrank, hothers]

theorem Regular.rank_mem_of_rowEnds {k : Stack α} (regular : k.Regular) {rank : Nat}
    {first last : PlacedNode α} (ends : PlacedNode.RowEnds k.nodes rank first last) :
    rank ∈ k.ranks := by
  obtain ⟨-, b, before, -, rfl, hcells, -, -⟩ := cells_of_rowEnds ends
  apply regular.rank_mem
  apply mem_of_mem_cellsOf
  rw [hcells]
  exact List.mem_append_right _ List.mem_cons_self

/-- A rank that occurs has a first and a last node. -/
theorem exists_rowEnds {k : Stack α} {rank : Nat} (h : rank ∈ k.ranks) :
    ∃ first last, PlacedNode.RowEnds k.nodes rank first last := by
  have hne : k.nodes.filter (·.rank == rank) ≠ [] := by
    intro hnil
    obtain ⟨c, hc, hrank⟩ := List.any_eq_true.mp (List.mem_filter.mp h).2
    rw [filter_nodes, List.map_eq_nil_iff] at hnil
    have hmem : c ∈ (members k.cells rank).map Prod.fst := by
      rw [map_members]
      exact List.mem_filter.mpr ⟨hc, hrank⟩
    rw [hnil] at hmem
    cases hmem
  exact ⟨_, _, List.head?_eq_some_head hne, List.getLast?_eq_some_getLast hne⟩

end Cells

/-! ### Lengths along a row -/

variable {k : Stack Rat}

/-- No cell of the stack has a negative extent, and no gap of it is negative. -/
structure Nonneg (k : Stack Rat) : Prop where
  nodeGap : 0 ≤ k.settings.nodeGap
  rankGap : 0 ≤ k.settings.rankGap
  across_nonneg : ∀ c ∈ k.cells, 0 ≤ across k.direction c.size
  along_nonneg : ∀ c ∈ k.cells, 0 ≤ along k.direction c.size

theorem nonneg_ofDiagram {s : Settings Rat} (nonneg : s.Nonneg) (direction : Direction)
    (d : Diagram) : (ofDiagram s direction d).Nonneg where
  nodeGap := nonneg.nodeGap
  rankGap := nonneg.rankGap
  across_nonneg c hc := by
    obtain ⟨n, -, rfl⟩ := List.mem_map.mp hc
    obtain ⟨hwidth, hheight⟩ := nonneg.nodeSize_nonneg n
    unfold across
    split <;> assumption
  along_nonneg c hc := by
    obtain ⟨n, -, rfl⟩ := List.mem_map.mp hc
    obtain ⟨hwidth, hheight⟩ := nonneg.nodeSize_nonneg n
    unfold along
    split <;> assumption

/-- The length of some cells behind one another, each with the gap that follows it. -/
def run (k : Stack Rat) (cells : List (Cell Rat)) : Rat :=
  (cells.map fun c => across k.direction c.size + k.settings.nodeGap).sum

/-- Cells behind one another take up no negative length. -/
theorem Nonneg.run_nonneg (nonneg : k.Nonneg) {cells : List (Cell Rat)}
    (h : ∀ c ∈ cells, c ∈ k.cells) : 0 ≤ k.run cells := by
  refine List.sum_nonneg fun x hx => ?_
  obtain ⟨c, hc, rfl⟩ := List.mem_map.mp hx
  exact add_nonneg (nonneg.across_nonneg c (h c hc)) nonneg.nodeGap

/-- A row is centred, and a cell stands behind those before it. -/
theorem acrossStart_eq (k : Stack Rat) (earlier : List (Cell Rat)) (c : Cell Rat) :
    k.acrossStart earlier c =
      (k.breadth - (k.row c.rank).breadth) / 2 + k.run earlier := by
  rw [acrossStart, Scalar.offset_eq, List.map_map]
  rfl

/-- A row is as broad as its cells and the gaps between them. -/
theorem breadth_row {rank : Nat} {before : List (Cell Rat)} {c : Cell Rat}
    (h : k.cellsOf rank = before ++ [c]) :
    (k.row rank).breadth = k.run before + across k.direction c.size := by
  have hbreadth : (k.row rank).breadth =
      Scalar.sum (((k.cellsOf rank).map (·.size)).map (across k.direction)) +
        k.settings.nodeGap * (((k.cellsOf rank).map (·.size)).length - 1 : Nat) := rfl
  rw [hbreadth, Scalar.sum_eq, h, run, List.sum_map_add]
  simp [Function.comp_def]
  linarith

theorem Nonneg.breadth_row_nonneg (nonneg : k.Nonneg) {rank : Nat} (h : rank ∈ k.ranks) :
    0 ≤ (k.row rank).breadth := by
  obtain ⟨first, last, ends⟩ := exists_rowEnds h
  obtain ⟨-, b, before, -, -, hcells, -, -⟩ := cells_of_rowEnds ends
  have hmem : ∀ c ∈ before ++ [b], c ∈ k.cells := fun c hc => mem_of_mem_cellsOf (hcells ▸ hc)
  have hbefore := nonneg.run_nonneg fun c hc => hmem c (List.mem_append_left _ hc)
  have hlast := nonneg.across_nonneg b (hmem b (List.mem_append_right _ List.mem_cons_self))
  rw [breadth_row hcells]
  exact add_nonneg hbefore hlast

theorem Regular.breadths (regular : k.Regular) :
    k.rows.map Row.breadth = k.ranks.map fun rank => (k.row rank).breadth := by
  rw [regular.rows_eq, Layered.rows, List.map_map]
  rfl

/-- No row is broader than the stack. -/
theorem Regular.breadth_row_le (regular : k.Regular) {rank : Nat} (h : rank ∈ k.ranks) :
    (k.row rank).breadth ≤ k.breadth := by
  apply Scalar.le_greatest
  rw [regular.breadths]
  exact List.mem_map.mpr ⟨rank, h, rfl⟩

/-- There is a row as broad as the stack. -/
theorem Regular.exists_breadth_row_eq (regular : k.Regular) (nonneg : k.Nonneg)
    (hne : k.cells ≠ []) : ∃ rank ∈ k.ranks, (k.row rank).breadth = k.breadth := by
  obtain ⟨c, hc⟩ := List.exists_mem_of_ne_nil _ hne
  have hrows : (k.ranks.map fun rank => (k.row rank).breadth) ≠ [] :=
    List.ne_nil_of_mem (List.mem_map_of_mem (regular.rank_mem hc))
  have hgreatest := Scalar.greatest_mem hrows fun x hx => by
    obtain ⟨rank, hrank, rfl⟩ := List.mem_map.mp hx
    exact nonneg.breadth_row_nonneg hrank
  rw [breadth, regular.breadths]
  exact List.mem_map.mp hgreatest

/-! ### Boxes along a row -/

theorem rowStart_placeBehind (k : Stack Rat) (earlier : List (Cell Rat)) (c : Cell Rat) :
    (k.placeBehind earlier c).rect.rowStart k.direction =
      k.margin + k.acrossStart earlier c := by
  unfold placeBehind rect Rect.rowStart
  dsimp only
  split <;> rfl

theorem rowEnd_placeBehind (k : Stack Rat) (earlier : List (Cell Rat)) (c : Cell Rat) :
    (k.placeBehind earlier c).rect.rowEnd k.direction =
      k.margin + k.acrossStart earlier c + across k.direction c.size := by
  unfold placeBehind rect Rect.rowEnd across
  dsimp only
  split <;> rfl

/-- A cell ends one gap before every cell that is placed behind it begins. -/
theorem Nonneg.acrossStart_add_le (nonneg : k.Nonneg) {earlier later : List (Cell Rat)}
    {a b : Cell Rat} (hrank : a.rank = b.rank) (hbehind : earlier ++ [a] <+: later)
    (hlater : ∀ c ∈ later, c ∈ k.cells) :
    k.acrossStart earlier a + across k.direction a.size + k.settings.nodeGap ≤
      k.acrossStart later b := by
  have hmap := hbehind.map fun c => across k.direction c.size
  rw [List.map_append] at hmap
  rw [acrossStart, acrossStart, hrank]
  refine Scalar.offset_add_le nonneg.nodeGap hmap fun x hx => ?_
  obtain ⟨c, hc, rfl⟩ := List.mem_map.mp hx
  exact nonneg.across_nonneg c (hlater c hc)

/-- Where a row begins and where it ends. -/
theorem rowEnds_eq {rank : Nat} {first last : PlacedNode Rat}
    (ends : PlacedNode.RowEnds k.nodes rank first last) :
    first.rect.rowStart k.direction = k.margin + (k.breadth - (k.row rank).breadth) / 2 ∧
      last.rect.rowEnd k.direction = k.margin + (k.breadth + (k.row rank).breadth) / 2 := by
  obtain ⟨a, b, before, ha, hb, hcells, rfl, rfl⟩ := cells_of_rowEnds ends
  have hbreadth := breadth_row hcells
  constructor
  · rw [rowStart_placeBehind, acrossStart_eq, ha]
    exact congrArg _ (add_zero _)
  · rw [rowEnd_placeBehind, acrossStart_eq, hb]
    linarith

/-- The rows of a stack are centred on the widest one. -/
theorem Regular.centred_nodes (regular : k.Regular) (nonneg : k.Nonneg) :
    PlacedNode.Centred k.direction k.margin (k.margin + k.breadth) k.nodes where
  balanced rank first last ends := by
    have hrank := regular.rank_mem_of_rowEnds ends
    have hle := regular.breadth_row_le hrank
    obtain ⟨hstart, hend⟩ := rowEnds_eq ends
    rw [hstart, hend]
    constructor <;> linarith
  widest hne := by
    have hcells : k.cells ≠ [] := by
      rintro hnil
      exact hne (by rw [nodes, hnil]; rfl)
    obtain ⟨rank, hrank, hbreadth⟩ := regular.exists_breadth_row_eq nonneg hcells
    obtain ⟨first, last, ends⟩ := exists_rowEnds hrank
    obtain ⟨hstart, hend⟩ := rowEnds_eq ends
    refine ⟨rank, first, last, ends, ?_, ?_⟩
    · rw [hstart, hbreadth]
      linarith
    · rw [hend, hbreadth]
      linarith

/-- Of any two boxes of a stack, one keeps out of the other's way. -/
theorem Regular.pairwise_apart (regular : k.Regular) (nonneg : k.Nonneg) :
    k.nodes.Pairwise (PlacedNode.Apart k.direction k.settings) := by
  rw [List.pairwise_iff_getElem]
  intro i j hi hj hij
  constructor
  case beyond_of_lt =>
    exact regular.beyond_of_rank_lt nonneg.rankGap (List.getElem_mem hi) (List.getElem_mem hj)
  case beyond_of_gt =>
    exact regular.beyond_of_rank_lt nonneg.rankGap (List.getElem_mem hj) (List.getElem_mem hi)
  case behind_of_eq =>
    obtain ⟨hci, hpi⟩ := getElem_nodes hi
    obtain ⟨hcj, hpj⟩ := getElem_nodes hj
    rw [hpi, hpj, place_eq, place_eq, rowEnd_placeBehind, rowStart_placeBehind]
    intro hrank
    have hrank : k.cells[i].rank = k.cells[j].rank := hrank
    have hle := nonneg.acrossStart_add_le hrank (earlier_of_lt hci hij) fun c hc =>
      List.mem_of_mem_take (List.mem_filter.mp hc).1
    rw [← hrank]
    linarith

end Layered.Stack

namespace Layout

/-- The nodes of a layered layout have the ids and ranks of the nodes of the diagram. -/
theorem ranks_stack (s : Settings Rat) (direction : Direction) (d : Diagram) :
    (Layered.Stack.ofDiagram s direction d).nodes.map (fun p => (p.id, p.rank)) =
      d.nodes.map fun n => (n.id, d.rank n.id) := by
  rw [Layered.Stack.nodes, List.map_map]
  calc
    _ = (Layered.cells s d).map fun c => (c.id, c.rank) := map_zipIdx (fun _ _ => rfl) _ 0
    _ = d.nodes.map fun n => (n.id, d.rank n.id) := List.map_map

/-- The boxes of a flowchart, one for each node, keep apart by the gap between ranks or, in one
rank, by the gap between nodes, and their rows are centred on the widest one. -/
theorem boxes_apart (s : Settings Rat) (nonneg : s.Nonneg) (direction : Direction) (d : Diagram) :
    let nodes := (Layered.layout s direction d).nodes
    nodes.map (fun p => (p.id, p.rank)) = d.nodes.map (fun n => (n.id, d.rank n.id)) ∧
      nodes.Pairwise (PlacedNode.Apart direction s) ∧
      ∃ lo hi, PlacedNode.Centred direction lo hi nodes := by
  have regular := Layered.Stack.regular_ofDiagram s direction d
  have nonnegStack := Layered.Stack.nonneg_ofDiagram nonneg direction d
  exact ⟨ranks_stack s direction d, regular.pairwise_apart nonnegStack,
    _, _, regular.centred_nodes nonnegStack⟩

/-- A chart that runs in a circle, with a rank that no node has. -/
def carousel : Diagram where
  dialect := .flowchart
  nodes := [.bare "entry", .bare "up", { id := "down", label := "down\nagain" }, .bare "sign"]
  edges :=
    [{ source := "entry", target := "up" }, { source := "up", target := "down" },
      { source := "down", target := "up" }]

/-- The boxes of `carousel` keep apart. -/
theorem carousel_apart :
    let nodes := (Layered.layout (.standard : Settings Rat) .bt carousel).nodes
    nodes.map (fun p => (p.id, p.rank)) = [("entry", 0), ("up", 3), ("down", 2), ("sign", 0)] ∧
      nodes.Pairwise (PlacedNode.Apart .bt .standard) ∧
      ∃ lo hi, PlacedNode.Centred .bt lo hi nodes := by
  obtain ⟨hranks, h⟩ := boxes_apart .standard Settings.solid_standard.toNonneg .bt carousel
  exact ⟨hranks.trans (by decide +kernel), h⟩

end Layout

end Whiteboard
