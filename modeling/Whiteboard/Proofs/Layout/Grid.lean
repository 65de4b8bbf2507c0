import Mathlib.Order.Bounds.Basic
import Whiteboard.Proofs.Geometry.Route
import Whiteboard.Proofs.Layout.Slot
import Whiteboard.Proofs.Settings

/-!
Entities in columns and rows.

The number of columns is the least whose square holds all entities, within what is allowed, and the
search for it needs no more than 64 bits up to `(2 ^ 32 - 1) ^ 2` entities (`columns64?_eq`). An
entity keeps within its column, in the middle of it, and within its row, at the top of it
(`within_of_mem`); columns and rows lie one after the other with a gap between them (`add_gap_le`).
So no two entities overlap (`grid_separates`).
-/

namespace Whiteboard

/-- Entities stand in columns and rows that keep apart. -/
structure Layout.Gridded (s : Settings Rat) (d : Diagram) (l : Layout Rat) : Prop where
  ids_nodes : l.nodes.map (·.id) = d.nodes.map (·.id)
  /-- The rank and the order of an entity are the row and the column of its position. -/
  slots_eq : l.nodes.map (fun p => (p.rank, p.order)) = d.nodes.zipIdx.map fun (_, i) =>
    (i / Grid.columns d.nodes.length s.gridMaxColumns,
      i % Grid.columns d.nodes.length s.gridMaxColumns)
  /-- Entities at different positions differ in row or column. -/
  slots_nodup : (l.nodes.map fun p => (p.rank, p.order)).Nodup
  beside : ∀ p ∈ l.nodes, ∀ q ∈ l.nodes, p.order < q.order → p.rect.right + s.gridGap ≤ q.rect.x
  below : ∀ p ∈ l.nodes, ∀ q ∈ l.nodes, p.rank < q.rank → p.rect.bottom + s.gridGap ≤ q.rect.y
  level : ∀ p ∈ l.nodes, ∀ q ∈ l.nodes, p.rank = q.rank → p.rect.y = q.rect.y
  centred : ∀ p ∈ l.nodes, ∀ q ∈ l.nodes, p.order = q.order → p.rect.center.x = q.rect.center.x
  nonneg : ∀ p ∈ l.nodes, 0 ≤ p.rect.x ∧ 0 ≤ p.rect.y

namespace Grid

/-! ### The number of columns -/

/-- The root that is found is large enough. -/
theorem le_sq_rootFrom (n c : Nat) : n ≤ rootFrom n c * rootFrom n c := by
  induction c using rootFrom.induct (n := n) with
  | case1 c h ih => rwa [rootFrom, if_pos h]
  | case2 c h =>
      rw [rootFrom, if_neg h]
      exact Nat.le_of_not_lt h

/-- No smaller root is large enough. -/
theorem rootFrom_le {n c k : Nat} (hc : c ≤ k) (hk : n ≤ k * k) : rootFrom n c ≤ k := by
  induction c using rootFrom.induct (n := n) with
  | case1 c h ih =>
      rw [rootFrom, if_pos h]
      refine ih (Nat.lt_of_le_of_ne hc ?_)
      rintro rfl
      exact absurd hk (Nat.not_le_of_lt h)
  | case2 c h => rwa [rootFrom, if_neg h]

/-- The search finds the least number from its start on whose square is large enough. -/
theorem isLeast_rootFrom (n c : Nat) : IsLeast {k | c ≤ k ∧ n ≤ k * k} (rootFrom n c) :=
  ⟨⟨Checked.Grid.le_rootFrom n c, le_sq_rootFrom n c⟩, fun _ ⟨hc, hk⟩ => rootFrom_le hc hk⟩

/-- The search with squares that must fit into 64 bits. -/
def rootFrom64? (n c : Nat) : Option Nat :=
  if 2 ^ 64 ≤ c * c then none else if c * c < n then rootFrom64? n (c + 1) else some c
termination_by n - c
decreasing_by
  have : c ≤ c * c := Nat.le_mul_self c
  omega

/-- The number of columns, found with squares that must fit into 64 bits. -/
def columns64? (n most : Nat) : Option Nat :=
  (rootFrom64? n 1).map fun root => Nat.min root (Nat.max most 1)

/-- Squares up to that of `2 ^ 32 - 1` fit into 64 bits. -/
theorem rootFrom64?_eq {n c : Nat} (hn : n ≤ (2 ^ 32 - 1) ^ 2) (hc : c ≤ 2 ^ 32 - 1) :
    rootFrom64? n c = some (rootFrom n c) := by
  have hfits : ∀ {c : Nat}, c ≤ 2 ^ 32 - 1 → ¬ 2 ^ 64 ≤ c * c := by
    intro c hc
    have hsq := Nat.mul_self_le_mul_self hc
    omega
  induction c using rootFrom.induct (n := n) with
  | case1 c h ih =>
      -- A number whose square is too small is less than the root of the greatest `n`.
      have hlt : c < 2 ^ 32 - 1 := by
        rw [pow_two] at hn
        exact Nat.mul_self_lt_mul_self_iff.mp (h.trans_le hn)
      rw [rootFrom64?, if_neg (hfits hc), if_pos h, rootFrom, if_pos h, ih hlt]
  | case2 c h => rw [rootFrom64?, if_neg (hfits hc), if_neg h, rootFrom, if_neg h]

/-- The number of columns is found without an overflow. -/
theorem columns64?_eq {n : Nat} (hn : n ≤ (2 ^ 32 - 1) ^ 2) (most : Nat) :
    columns64? n most = some (columns n most) := by
  rw [columns64?, rootFrom64?_eq hn (by norm_num)]
  rfl

/-! ### Columns and rows -/

variable {s : Settings Rat} {d : Diagram}

section Tracks

variable {sizes : List (Size Rat)} {size : Size Rat} {i j k : Nat}

/-- Of pieces with a length for each number, what keeps within one keeps away by the gap from what
lies behind the beginning of a later one. -/
theorem add_gap_le {gap : Rat} (hgap : 0 ≤ gap) {length : Nat → Rat}
    (hlength : ∀ i, 0 ≤ length i) (hjk : j < k) {x y : Rat}
    (hx : x ≤ Scalar.offset gap 0 ((List.range j).map length) + length j)
    (hy : Scalar.offset gap 0 ((List.range k).map length) ≤ y) : x + gap ≤ y := by
  have hbehind : List.range j ++ [j] <+: List.range k := by
    have htake := List.take_prefix (j + 1) (List.range k)
    rwa [List.take_range, Nat.min_eq_left hjk, List.range_succ] at htake
  have hmap := hbehind.map length
  rw [List.map_append] at hmap
  have hpieces : ∀ x ∈ (List.range k).map length, 0 ≤ x := by
    intro x hx
    obtain ⟨i, -, rfl⟩ := List.mem_map.mp hx
    exact hlength i
  calc
    x + gap ≤ Scalar.offset gap 0 ((List.range j).map length) + length j + gap :=
      (add_le_add_iff_right gap).mpr hx
    _ ≤ Scalar.offset gap 0 ((List.range k).map length) := Scalar.offset_add_le hgap hmap hpieces
    _ ≤ y := hy

theorem offset_range_nonneg {gap : Rat} (hgap : 0 ≤ gap) {length : Nat → Rat}
    (hlength : ∀ i, 0 ≤ length i) (k : Nat) :
    0 ≤ Scalar.offset gap 0 ((List.range k).map length) := by
  refine Scalar.le_offset hgap fun x hx => ?_
  obtain ⟨i, -, rfl⟩ := List.mem_map.mp hx
  exact hlength i

/-- A column is as wide as each of its entities. -/
theorem le_columnWidth (columns : Nat) (h : (size, i) ∈ sizes.zipIdx) :
    size.width ≤ columnWidth columns sizes (i % columns) :=
  Scalar.le_greatest (List.mem_map.mpr
    ⟨(size, i), List.mem_filter.mpr ⟨h, beq_self_eq_true _⟩, rfl⟩)

/-- A row is as high as each of its entities. -/
theorem le_rowHeight (columns : Nat) (h : (size, i) ∈ sizes.zipIdx) :
    size.height ≤ rowHeight columns sizes (i / columns) :=
  Scalar.le_greatest (List.mem_map.mpr
    ⟨(size, i), List.mem_filter.mpr ⟨h, beq_self_eq_true _⟩, rfl⟩)

end Tracks

/-! ### Entities -/

/-- An entity keeps within its column, in the middle of it, and within its row, at the top of it. -/
structure Within (s : Settings Rat) (columns : Nat) (sizes : List (Size Rat))
    (p : PlacedNode Rat) : Prop where
  columnX_le : columnX s columns sizes p.order ≤ p.rect.x
  right_le : p.rect.right ≤
    columnX s columns sizes p.order + columnWidth columns sizes p.order
  center_eq : p.rect.center.x =
    columnX s columns sizes p.order + columnWidth columns sizes p.order / 2
  y_eq : p.rect.y = rowY s columns sizes p.rank
  bottom_le : p.rect.bottom ≤ rowY s columns sizes p.rank + rowHeight columns sizes p.rank

theorem within_rect {columns : Nat} {sizes : List (Size Rat)} {size : Size Rat} {i : Nat}
    (h : (size, i) ∈ sizes.zipIdx) (id : String) :
    Within s columns sizes
      { id, rank := i / columns, order := i % columns, rect := rect s columns sizes size i } := by
  have hx : (rect s columns sizes size i).x = columnX s columns sizes (i % columns) +
      (columnWidth columns sizes (i % columns) - size.width) / 2 := rfl
  have hwidth : (rect s columns sizes size i).width = size.width := rfl
  have hwide := le_columnWidth columns h
  have hhigh := le_rowHeight columns h
  constructor
  case columnX_le =>
    rw [hx]
    linarith
  case right_le =>
    rw [Rect.right_eq, hx, hwidth]
    linarith
  case center_eq =>
    rw [Rect.center_x, hx, hwidth]
    linarith
  case y_eq => rfl
  case bottom_le => exact (add_le_add_iff_left _).mpr hhigh

/-- Every entity keeps within its column and row. -/
theorem within_of_mem {p : PlacedNode Rat} (hp : p ∈ entities s d) :
    Within s (columns d.nodes.length s.gridMaxColumns) (d.nodes.map s.nodeSize) p := by
  obtain ⟨⟨⟨n, size⟩, i⟩, hmem, rfl⟩ := List.mem_map.mp hp
  refine within_rect (List.mem_zipIdx_iff_getElem?.mpr ?_) n.id
  exact (List.getElem?_zip_eq_some.mp (List.mem_zipIdx_iff_getElem?.mp hmem)).2

theorem columnWidth_nonneg (columns : Nat) (sizes : List (Size Rat)) (column : Nat) :
    0 ≤ columnWidth columns sizes column :=
  Scalar.greatest_nonneg _

theorem rowHeight_nonneg (columns : Nat) (sizes : List (Size Rat)) (row : Nat) :
    0 ≤ rowHeight columns sizes row :=
  Scalar.greatest_nonneg _

/-- Entities in different columns keep apart by the gap between columns, and those in different rows
by the gap between rows. -/
theorem Within.beside {columns : Nat} {sizes : List (Size Rat)} {p q : PlacedNode Rat}
    (hgap : 0 ≤ s.gridGap) (hp : Within s columns sizes p) (hq : Within s columns sizes q)
    (h : p.order < q.order) : p.rect.right + s.gridGap ≤ q.rect.x :=
  add_gap_le hgap (columnWidth_nonneg columns sizes) h hp.right_le hq.columnX_le

/-- An entity of a later row lies below one of an earlier row. -/
theorem Within.below {columns : Nat} {sizes : List (Size Rat)} {p q : PlacedNode Rat}
    (hgap : 0 ≤ s.gridGap) (hp : Within s columns sizes p) (hq : Within s columns sizes q)
    (h : p.rank < q.rank) : p.rect.bottom + s.gridGap ≤ q.rect.y :=
  add_gap_le hgap (rowHeight_nonneg columns sizes) h hp.bottom_le hq.y_eq.ge

/-- No entity lies at a negative coordinate. -/
theorem Within.nonneg {columns : Nat} {sizes : List (Size Rat)} {p : PlacedNode Rat}
    (hgap : 0 ≤ s.gridGap) (hp : Within s columns sizes p) : 0 ≤ p.rect.x ∧ 0 ≤ p.rect.y := by
  constructor
  · exact (offset_range_nonneg hgap (columnWidth_nonneg columns sizes) p.order).trans hp.columnX_le
  · rw [hp.y_eq]
    exact offset_range_nonneg hgap (rowHeight_nonneg columns sizes) p.rank

end Grid

namespace Layout

/-- The entities of a diagram are laid out in columns and rows that keep apart. -/
theorem gridded_grid {s : Settings Rat} (nonneg : s.Nonneg) {d : Diagram}
    (hd : d.dialect = .entityRelation) : (ofDiagram s d).Gridded s d := by
  have hslots := slots_ofDiagram s d
  have hlayout : ofDiagram s d = Grid.layout s d := by rw [ofDiagram, hd]
  have within : ∀ p ∈ (ofDiagram s d).nodes,
      Grid.Within s (Grid.columns d.nodes.length s.gridMaxColumns) (d.nodes.map s.nodeSize) p := by
    rw [hlayout]
    exact fun p hp => Grid.within_of_mem hp
  constructor
  case ids_nodes => exact (follows_ofDiagram s d).ids_nodes
  case slots_eq =>
    rw [hslots]
    simp only [Diagram.slot, hd]
  case slots_nodup =>
    rw [hslots]
    exact d.slots_nodup s
  case beside =>
    exact fun p hp q hq h => (within p hp).beside nonneg.gridGap (within q hq) h
  case below =>
    exact fun p hp q hq h => (within p hp).below nonneg.gridGap (within q hq) h
  case level =>
    intro p hp q hq h
    rw [(within p hp).y_eq, (within q hq).y_eq, h]
  case centred =>
    intro p hp q hq h
    rw [(within p hp).center_eq, (within q hq).center_eq, h]
  case nonneg => exact fun p hp => (within p hp).nonneg nonneg.gridGap

/-- The number of columns is the least that is enough, within what is allowed, and it is found with
64 bits; and entities stand in that many columns, which keep apart as the rows do. -/
theorem grid_separates :
    (∀ n most, n ≤ (2 ^ 32 - 1) ^ 2 →
      Grid.columns64? n most = some (Grid.columns n most) ∧
        ∃ root, IsLeast {c | 1 ≤ c ∧ n ≤ c * c} root ∧
          Grid.columns n most = min (max 1 most) root) ∧
      ∀ s : Settings Rat, s.Nonneg → ∀ d : Diagram, d.dialect = .entityRelation →
        (ofDiagram s d).Gridded s d := by
  refine ⟨fun n most hn => ⟨Grid.columns64?_eq hn most, _, Grid.isLeast_rootFrom n 1, ?_⟩,
    fun s nonneg d hd => gridded_grid nonneg hd⟩
  rw [min_comm, max_comm]
  rfl

def catalog : Diagram where
  dialect := .entityRelation
  nodes :=
    [{ id := "book", label := "Book\nstring title\nint year" }, .bare "author",
      { id := "publisher", label := "Publisher of many a book" }, .bare "shelf",
      { id := "loan", label := "Loan\ndate due" }]

/-- The columns and boxes of `catalog`. -/
theorem catalog_separates :
    5 ≤ (2 ^ 32 - 1) ^ 2 ∧ Grid.columns64? 5 4 = some 3 ∧ (.standard : Settings Rat).Nonneg ∧
      catalog.dialect = .entityRelation ∧
      (ofDiagram (.standard : Settings Rat) catalog).Gridded .standard catalog := by
  obtain ⟨hcolumns, hgridded⟩ := grid_separates
  have hle : 5 ≤ (2 ^ 32 - 1) ^ 2 := by norm_num
  have hthree : Grid.columns 5 4 = 3 := by simp [Grid.columns, Grid.rootFrom]
  have nonneg := Settings.solid_standard.toNonneg
  exact ⟨hle, hthree ▸ (hcolumns 5 4 hle).1, nonneg, rfl, hgridded .standard nonneg catalog rfl⟩

end Layout

end Whiteboard
