import Mathlib.Data.List.Basic
import Whiteboard.Layout.Grid
import Whiteboard.Proofs.Checked.Basic

/-!
Grid layout by positions.

The extents of columns and rows stand in two lists, which grow entity by entity at its column and
its row. There is always a column to divide by (`columns_pos`), and there are as many rows as the
last entity needs (`rowCount_spec`), so every entity finds the extents of its column and its row
and where they begin (`entities_eq`).
-/

namespace Whiteboard.Checked.Grid

open Whiteboard.Grid

variable {α : Type} [Scalar α]

def rowCount (n columns : Nat) : Attempt Nat := do
  let full ← quotient n columns
  let rest ← remainder n columns
  pure (if 0 < rest then full + 1 else full)

def enlarge (extents : List α) (j : Nat) (extent : α) : Attempt (List α) := do
  let old ← read extents j
  write extents j (Scalar.max old extent)

structure Extents (α : Type) where
  widths : List α
  heights : List α

def Extents.flat (columns rows : Nat) : Extents α where
  widths := List.replicate columns 0
  heights := List.replicate rows 0

/-- Enlarges the column and the row of an entity of a size at a position. -/
def accommodate (columns : Nat) (e : Extents α) (entry : Size α × Nat) : Attempt (Extents α) := do
  let (size, position) := entry
  let column ← remainder position columns
  let widths ← enlarge e.widths column size.width
  let row ← quotient position columns
  let heights ← enlarge e.heights row size.height
  pure { widths, heights }

/-- Where pieces begin that lie one after the other, each followed by a gap. -/
def starts (gap position : α) : List α → List α
  | [] => []
  | piece :: pieces => position :: starts gap (position + (piece + gap)) pieces

/-- The entity of a size at a position with its box. -/
def entity (columns : Nat) (e : Extents α) (xs ys : List α) (entry : (Node × Size α) × Nat) :
    Attempt (PlacedNode α) := do
  let ((n, size), position) := entry
  let row ← quotient position columns
  let column ← remainder position columns
  let start ← read xs column
  let width ← read e.widths column
  let y ← read ys row
  pure
    { id := n.id
      rank := row
      order := column
      rect :=
        { x := start + (width - size.width) / 2
          y
          width := size.width
          height := size.height } }

def entities (s : Settings α) (d : Diagram) : Attempt (List (PlacedNode α)) := do
  let sizes := d.nodes.map s.nodeSize
  let columns := columns d.nodes.length s.gridMaxColumns
  let rows ← rowCount d.nodes.length columns
  let e ← sizes.zipIdx.foldlM (accommodate columns) (.flat columns rows)
  let xs := starts s.gridGap 0 e.widths
  let ys := starts s.gridGap 0 e.heights
  (d.nodes.zip sizes).zipIdx.mapM (entity columns e xs ys)

def layout (s : Settings α) (d : Diagram) : Attempt (Layout α) := do
  let nodes ← entities s d
  pure
    { nodes
      edges := d.edges.zipIdx.map fun (e, i) =>
        let lateral := Route.lateral i s.edgeOffset
        Layout.route nodes Route.loop (fun a b => Route.between a b lateral) e }

/-! ### Columns and rows -/

theorem le_rootFrom (n c : Nat) : c ≤ rootFrom n c := by
  induction c using rootFrom.induct (n := n) with
  | case1 c h ih =>
      rw [rootFrom, if_pos h]
      omega
  | case2 c h =>
      exact Nat.le_of_eq (by rw [rootFrom, if_neg h])

/-- There is a column, however few entities there are and however few columns are allowed. -/
theorem columns_pos (n most : Nat) : 0 < columns n most := by
  have hroot := le_rootFrom n 1
  unfold columns
  simp only [Nat.min_def, Nat.max_def]
  split <;> split <;> omega

variable {columns n i j : Nat}

/-- There are rows enough for every entity. -/
theorem rowCount_spec (h : 0 < columns) (n : Nat) :
    ∃ rows, rowCount n columns = pure rows ∧ ∀ i < n, i / columns < rows := by
  refine ⟨if 0 < n % columns then n / columns + 1 else n / columns, ?_, fun i hi => ?_⟩
  · rw [rowCount, quotient_of_pos h, pure_bind, remainder_of_pos h, pure_bind]
  · have hdiv := Nat.div_add_mod n columns
    have hmod := Nat.mod_lt n h
    split
    · rw [Nat.div_lt_iff_lt_mul h, Nat.add_mul, Nat.mul_comm]
      omega
    · rw [Nat.div_lt_iff_lt_mul h, Nat.mul_comm]
      omega

/-! ### Extents -/

/-- The greatest measure of the sizes whose position has a key. -/
def extent (key : Nat → Nat) (measure : Size α → α) (sizes : List (Size α)) (j : Nat) : α :=
  Scalar.greatest ((sizes.zipIdx.filter fun (_, i) => key i == j).map (measure ·.1))

variable {sizes before : List (Size α)} {size : Size α}

/-- One more size enlarges the extent of its own key only. -/
theorem extent_concat (key : Nat → Nat) (measure : Size α → α) (before : List (Size α))
    (size : Size α) (j : Nat) :
    extent key measure (before ++ [size]) j =
      if key before.length = j then Scalar.max (extent key measure before j) (measure size)
      else extent key measure before j := by
  unfold extent
  rw [List.zipIdx_append, List.filter_append, List.map_append]
  by_cases h : key before.length = j
  · rw [if_pos h]
    simp [Scalar.greatest, h]
  · rw [if_neg h]
    simp [h]

/-- The slot that a size falls into is there to be enlarged. -/
theorem enlarge_eq (key : Nat → Nat) (measure : Size α → α) (before : List (Size α))
    (size : Size α) (h : key before.length < n) :
    enlarge ((List.range n).map (extent key measure before)) (key before.length) (measure size) =
      pure ((List.range n).map (extent key measure (before ++ [size]))) := by
  have hlength : key before.length < ((List.range n).map (extent key measure before)).length := by
    simpa using h
  rw [enlarge, read_of_lt hlength, pure_bind, write_of_lt hlength]
  congr 1
  apply List.ext_getElem
  · simp
  · intro j hj hj'
    simp only [List.getElem_set, List.getElem_map, List.getElem_range, extent_concat]
    split
    · rename_i hkey
      rw [hkey]
    · rfl

def extentsOf (columns rows : Nat) (sizes : List (Size α)) : Extents α where
  widths := (List.range columns).map (columnWidth columns sizes)
  heights := (List.range rows).map (rowHeight columns sizes)

theorem extentsOf_nil (columns rows : Nat) :
    extentsOf columns rows ([] : List (Size α)) = .flat columns rows := by
  have hflat : ∀ n, (List.range n).map (fun _ => (0 : α)) = List.replicate n 0 := by
    intro n
    rw [List.map_const', List.length_range]
  exact congrArg₂ Extents.mk (hflat columns) (hflat rows)

/-- One more entity has a column and a row. -/
theorem accommodate_eq (h : 0 < columns) {rows : Nat} (hrow : before.length / columns < rows) :
    accommodate columns (extentsOf columns rows before) (size, before.length) =
      pure (extentsOf columns rows (before ++ [size])) := by
  have hwidths := enlarge_eq (· % columns) Size.width before size (Nat.mod_lt _ h)
  have hheights := enlarge_eq (· / columns) Size.height before size hrow
  rw [accommodate, remainder_of_pos h, pure_bind]
  refine (bind_of_eq_pure hwidths _).trans ?_
  rw [quotient_of_pos h, pure_bind]
  exact bind_of_eq_pure hheights _

/-- All entities together need no more columns and rows than there are. -/
theorem foldlM_accommodate (h : 0 < columns) {rows : Nat}
    (hrows : ∀ i < sizes.length, i / columns < rows) :
    sizes.zipIdx.foldlM (accommodate columns) (.flat columns rows) =
      pure (extentsOf columns rows sizes) := by
  rw [← extentsOf_nil]
  refine foldlM_zipIdx_eq_pure (accommodate columns) (extentsOf columns rows) fun hsizes => ?_
  exact accommodate_eq h (hrows _ (by rw [hsizes]; simp))

/-! ### Boxes -/

/-- Where a piece begins is known for every piece. -/
theorem getElem?_starts (gap position : α) {pieces : List α} (h : j < pieces.length) :
    (starts gap position pieces)[j]? = some (Scalar.offset gap position (pieces.take j)) := by
  induction pieces generalizing position j with
  | nil => exact absurd h (Nat.not_lt_zero j)
  | cons piece pieces ih =>
      cases j with
      | zero => rfl
      | succ j => exact ih _ (Nat.lt_of_succ_lt_succ h)

theorem read_starts (gap : α) (f : Nat → α) (h : j < n) :
    read (starts gap 0 ((List.range n).map f)) j =
      pure (Scalar.offset gap 0 ((List.range j).map f)) := by
  apply read_of_getElem?
  rw [getElem?_starts gap 0 (by simpa using h), ← List.map_take, List.take_range,
    Nat.min_eq_left (Nat.le_of_lt h)]

omit [Scalar α] in
theorem read_range (f : Nat → α) (h : j < n) : read ((List.range n).map f) j = pure (f j) :=
  read_of_getElem? (by simp [h])

theorem entity_eq (s : Settings α) (h : 0 < columns) {rows : Nat} (hrow : i / columns < rows)
    (sizes : List (Size α)) (m : Node) (size : Size α) :
    entity columns (extentsOf columns rows sizes)
        (starts s.gridGap 0 (extentsOf columns rows sizes).widths)
        (starts s.gridGap 0 (extentsOf columns rows sizes).heights) ((m, size), i) =
      pure
        { id := m.id
          rank := i / columns
          order := i % columns
          rect := rect s columns sizes size i } := by
  have hcolumn : i % columns < columns := Nat.mod_lt i h
  simp only [entity, extentsOf, quotient_of_pos h, remainder_of_pos h, pure_bind,
    read_starts _ _ hcolumn, read_starts _ _ hrow, read_range _ hcolumn]
  rfl

theorem entities_eq (s : Settings α) (d : Diagram) :
    entities s d = pure (Whiteboard.Grid.entities s d) := by
  have hcolumns := columns_pos d.nodes.length s.gridMaxColumns
  obtain ⟨rows, hrowCount, hrows⟩ := rowCount_spec hcolumns d.nodes.length
  have hextents : (d.nodes.map s.nodeSize).zipIdx.foldlM _ _ = pure _ :=
    foldlM_accommodate hcolumns (by simpa using hrows)
  simp only [entities, hrowCount, hextents, pure_bind]
  refine mapM_eq_pure (List.forall₂_map_right_iff.mpr (List.forall₂_same.mpr ?_))
  rintro ⟨⟨m, size⟩, i⟩ hmem
  have hi : i < d.nodes.length := by
    have hlt := List.snd_lt_of_mem_zipIdx hmem
    rw [List.length_zip] at hlt
    omega
  exact entity_eq s hcolumns (hrows i hi) _ m size

/-- A grid is laid out without an overrun. -/
theorem layout_eq (s : Settings α) (d : Diagram) :
    layout s d = pure (Whiteboard.Grid.layout s d) := by
  rw [layout, entities_eq]
  rfl

end Whiteboard.Checked.Grid
