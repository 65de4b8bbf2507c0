import Whiteboard.Layout.Arrange
import Whiteboard.Proofs.Geometry.Cover
import Whiteboard.Proofs.Layout.Row

/-!
Frames around the members of subgraphs.

No box of a flowchart begins before the margin of its stack (`Regular.margin_le`), and if there are
subgraphs the margin is the room that a frame needs around a box. So the frame of a subgraph, the
least rectangle that encloses its members, begins on the canvas wherever they lie
(`framed_layered`).
-/

namespace Whiteboard

/-- Some member of a subgraph is a node of the diagram. -/
def Diagram.isOccupied (d : Diagram) (g : Subgraph) : Bool :=
  g.members.any d.hasNode

namespace Layout

/-- The part of the plane that a layout says it takes. -/
def canvas (l : Layout Rat) : Rect Rat :=
  .upTo l.width l.height

/-- A frame is drawn around the members of a subgraph. -/
structure Framed (s : Settings Rat) (d : Diagram) (l : Layout Rat) (g : Subgraph)
    (f : Frame Rat) : Prop where
  id_eq : f.id = g.id
  label_eq : f.label = g.label
  /-- It leaves padding free around the box of each member, and room for the title. -/
  encloses : ∀ id ∈ g.members, ∀ p, find? l.nodes id = some p → f.rect.Encloses s p.rect
  /-- It lies in every rectangle that does so. -/
  least : d.isOccupied g = true → ∀ r : Rect Rat,
    (∀ id ∈ g.members, ∀ p, find? l.nodes id = some p → r.Encloses s p.rect) →
      r.contains f.rect = true
  onCanvas : l.canvas.contains f.rect = true
  /-- It vanishes if no member is a node. -/
  eq_zero : d.isOccupied g = false → f.rect = .zero

end Layout

namespace Layered

namespace Stack

variable {k : Stack Rat}

/-! ### Boxes begin at the margin -/

theorem Regular.rowStart_nonneg (regular : k.Regular) (hgap : 0 ≤ k.settings.rankGap)
    (rank : Nat) : 0 ≤ k.rowStart rank := by
  rw [regular.rowStart_eq]
  refine List.sum_nonneg fun x hx => ?_
  obtain ⟨r, -, rfl⟩ := List.mem_map.mp hx
  exact add_nonneg (k.thickness_row_nonneg r) hgap

/-- A stack is as thick as its rows, each with the gap that follows it, but for the last gap. -/
theorem Regular.thickness_add (regular : k.Regular) (hne : k.ranks ≠ []) :
    k.thickness + k.settings.rankGap =
      (k.ranks.map fun r => (k.row r).thickness + k.settings.rankGap).sum := by
  have hrows : k.rows = k.ranks.map k.row := regular.rows_eq
  have hthickness : k.thickness =
      Scalar.sum (k.rows.map Row.thickness) +
        k.settings.rankGap * ((k.rows.length - 1 : Nat) : Rat) := rfl
  have hpos : 0 < k.ranks.length := List.length_pos_of_ne_nil hne
  rw [hthickness, Scalar.sum_eq, hrows, List.map_map, List.length_map, List.sum_map_add,
    List.map_const', List.sum_replicate, nsmul_eq_mul, Nat.cast_pred hpos]
  have hcomp : (Row.thickness ∘ k.row) = fun r => (k.row r).thickness := rfl
  rw [hcomp]
  linarith

/-- A row ends within the thickness of the stack. -/
theorem Regular.rowStart_add_thickness_le (regular : k.Regular) (hgap : 0 ≤ k.settings.rankGap)
    {rank : Nat} (h : rank ∈ k.ranks) :
    k.rowStart rank + (k.row rank).thickness ≤ k.thickness := by
  have hsum : k.rowStart rank + ((k.row rank).thickness + k.settings.rankGap) ≤
      k.thickness + k.settings.rankGap := by
    rw [regular.rowStart_eq, regular.thickness_add (List.ne_nil_of_mem h)]
    conv => rhs; rw [← List.filter_true k.ranks]
    refine Scalar.sum_filter_add_le (f := fun r => (k.row r).thickness + k.settings.rankGap)
      (fun r => add_nonneg (k.thickness_row_nonneg r) hgap) (fun _ _ => rfl) h ?_ rfl
    simp
  linarith

/-- No cell begins before the stack, whichever way it goes. -/
theorem Regular.alongStart_nonneg (regular : k.Regular) (hgap : 0 ≤ k.settings.rankGap)
    {c : Cell Rat} (hc : c ∈ k.cells) : 0 ≤ k.alongStart c := by
  have hstart := regular.rowStart_nonneg hgap c.rank
  have hend := regular.rowStart_add_thickness_le hgap (regular.rank_mem hc)
  have hwithin := along_le_thickness hc
  have heq : k.start c =
      k.rowStart c.rank + ((k.row c.rank).thickness - along k.direction c.size) / 2 := rfl
  rw [alongStart_eq]
  split <;> linarith

/-- No cell begins before the widest row. -/
theorem Regular.acrossStart_nonneg (regular : k.Regular) (nonneg : k.Nonneg)
    {earlier : List (Cell Rat)} (hearlier : ∀ c ∈ earlier, c ∈ k.cells) {c : Cell Rat}
    (hc : c ∈ k.cells) : 0 ≤ k.acrossStart earlier c := by
  have hle := regular.breadth_row_le (regular.rank_mem hc)
  have hrun := nonneg.run_nonneg hearlier
  rw [acrossStart_eq]
  linarith

/-- No box begins before the margin. -/
theorem Regular.margin_le (regular : k.Regular) (nonneg : k.Nonneg) {p : PlacedNode Rat}
    (hp : p ∈ k.nodes) : k.margin ≤ p.rect.x ∧ k.margin ≤ p.rect.y := by
  obtain ⟨i, hi, rfl⟩ := List.getElem_of_mem hp
  obtain ⟨hc, hplace⟩ := getElem_nodes hi
  rw [hplace, place_eq]
  have hcell : k.cells[i] ∈ k.cells := List.getElem_mem hc
  have hearlier : ∀ c ∈ (k.cells.take i).filter (·.rank == k.cells[i].rank), c ∈ k.cells :=
    fun c h => List.mem_of_mem_take (List.mem_filter.mp h).1
  have halong : k.margin ≤ k.margin + k.alongStart k.cells[i] :=
    le_add_of_nonneg_right (regular.alongStart_nonneg nonneg.rankGap hcell)
  have hacross := le_add_of_nonneg_right (a := k.margin)
    (regular.acrossStart_nonneg nonneg hearlier hcell)
  unfold placeBehind rect
  dsimp only
  split
  · exact ⟨halong, hacross⟩
  · exact ⟨hacross, halong⟩

end Stack

/-! ### Frames around members -/

section Members

variable {s : Settings Rat} {nodes : List (PlacedNode Rat)} {members : List String}

/-- The boxes of the members of a subgraph that are placed. -/
def memberRects (nodes : List (PlacedNode Rat)) (members : List String) : List (Rect Rat) :=
  members.filterMap fun id => (Layout.find? nodes id).map (·.rect)

/-- The frame around some boxes is the least rectangle that encloses them all. -/
theorem contains_frameRect_iff (h : memberRects nodes members ≠ []) {r : Rect Rat} :
    r.contains (frameRect s nodes members) = true ↔
      ∀ b ∈ memberRects nodes members, r.Encloses s b := by
  obtain ⟨cover, hcover⟩ : ∃ cover, cover? (memberRects nodes members) = some cover := by
    cases hrects : memberRects nodes members with
    | nil => exact absurd hrects h
    | cons a bs => exact ⟨_, rfl⟩
  have hframe : frameRect s nodes members = cover.padded s := by
    unfold frameRect
    rw [← memberRects, hcover]
    rfl
  calc
    r.contains (frameRect s nodes members) = true
        ↔ r.Encloses s cover := by rw [hframe, Rect.contains_padded_iff]
    _ ↔ ∀ b ∈ memberRects nodes members, r.Encloses s b := by
      simp only [← Rect.contains_inner_iff, contains_cover?_iff hcover]

/-- A frame encloses the boxes of its members. -/
theorem encloses_frameRect {b : Rect Rat} (hb : b ∈ memberRects nodes members) :
    (frameRect s nodes members).Encloses s b :=
  (contains_frameRect_iff (List.ne_nil_of_mem hb)).mp (Rect.contains_self _) b hb

/-- Without a member that is placed there is no frame. -/
theorem frameRect_eq_zero (h : memberRects nodes members = []) :
    frameRect s nodes members = .zero := by
  unfold frameRect
  rw [← memberRects, h]
  rfl

/-- The boxes of members are those found for their ids. -/
theorem mem_memberRects {b : Rect Rat} :
    b ∈ memberRects nodes members ↔
      ∃ id ∈ members, ∃ p, Layout.find? nodes id = some p ∧ p.rect = b := by
  simp [memberRects]

/-- To enclose the boxes of the members is to enclose what is found for each of them. -/
theorem forall_mem_memberRects {r : Rect Rat} :
    (∀ b ∈ memberRects nodes members, r.Encloses s b) ↔
      ∀ id ∈ members, ∀ p, Layout.find? nodes id = some p → r.Encloses s p.rect := by
  constructor
  · exact fun h id hid p hp => h _ (mem_memberRects.mpr ⟨id, hid, p, hp, rfl⟩)
  · intro h b hb
    obtain ⟨id, hid, p, hp, rfl⟩ := mem_memberRects.mp hb
    exact h id hid p hp

/-- Some member has a box if some member is a node. -/
theorem memberRects_eq_nil_iff {d : Diagram} {g : Subgraph}
    (h : nodes.map (·.id) = d.nodes.map (·.id)) :
    memberRects nodes g.members = [] ↔ d.isOccupied g = false := by
  simp only [memberRects, List.filterMap_eq_nil_iff, Diagram.isOccupied, List.any_eq_false,
    Option.map_eq_none_iff, ← Layout.isSome_find? h, Option.isSome_iff_ne_none, not_not]

/-- A frame begins on the canvas if every box leaves the room for it. -/
theorem frameRect_nonneg (htitle : 0 ≤ s.titleHeight)
    (hroom : ∀ p ∈ nodes, s.framePadding + s.titleHeight ≤ p.rect.x ∧
      s.framePadding + s.titleHeight ≤ p.rect.y) :
    0 ≤ (frameRect s nodes members).x ∧ 0 ≤ (frameRect s nodes members).y := by
  by_cases hnone : memberRects nodes members = []
  · rw [frameRect_eq_zero hnone]
    exact ⟨le_refl _, le_refl _⟩
  · -- The least rectangle that encloses the members lies in the one from the origin to its corner,
    -- because that encloses them too.
    have hcontains : (Rect.upTo (frameRect s nodes members).right
        (frameRect s nodes members).bottom).contains (frameRect s nodes members) = true := by
      refine (contains_frameRect_iff hnone).mpr fun b hb => ?_
      have henclosed := encloses_frameRect (s := s) hb
      obtain ⟨id, -, p, hp, rfl⟩ := mem_memberRects.mp hb
      obtain ⟨hx, hy⟩ := hroom p (List.mem_of_find?_eq_some hp)
      exact Rect.encloses_upTo (le_of_add_le_of_nonneg_left hx htitle) hy henclosed.right
        henclosed.bottom
    obtain ⟨hx, hy, -, -⟩ := Rect.contains_upTo_iff.mp hcontains
    exact ⟨hx, hy⟩

end Members

/-- The margin of a diagram with subgraphs is the room that a frame needs around a box. -/
theorem margin_ofDiagram (s : Settings Rat) (direction : Direction) {d : Diagram} {g : Subgraph}
    (hg : g ∈ d.subgraphs) :
    (Stack.ofDiagram s direction d).margin = s.framePadding + s.titleHeight := by
  have hne : ¬ d.subgraphs.isEmpty = true := by
    rw [List.isEmpty_iff]
    exact List.ne_nil_of_mem hg
  exact if_neg hne

end Layered

namespace Layout

/-- A layout reaches as far to the right and down as each of its boxes. -/
theorem reaches_of_mem_boxes {l : Layout Rat} {r : Rect Rat} (hr : r ∈ l.boxes) :
    r.right ≤ l.width ∧ r.bottom ≤ l.height := by
  constructor
  · exact Scalar.le_greatest (List.mem_map_of_mem hr)
  · rw [height, Scalar.max_eq]
    exact le_sup_of_le_left (Scalar.le_greatest (List.mem_map_of_mem hr))

/-- A box that begins on the canvas lies on it. -/
theorem contains_canvas {l : Layout Rat} {r : Rect Rat} (hr : r ∈ l.boxes) (hx : 0 ≤ r.x)
    (hy : 0 ≤ r.y) : l.canvas.contains r = true :=
  Rect.contains_upTo_iff.mpr ⟨hx, hy, reaches_of_mem_boxes hr⟩

/-- Every subgraph of a flowchart has its frame. -/
theorem framed_layered {s : Settings Rat} (nonneg : s.Nonneg) (direction : Direction)
    (d : Diagram) :
    List.Forall₂ ((Layered.layout s direction d).Framed s d) d.subgraphs
      (Layered.layout s direction d).frames := by
  refine List.forall₂_map_right_iff.mpr (List.forall₂_same.mpr fun g hg => ?_)
  have hnone := Layered.memberRects_eq_nil_iff (g := g) (ids_stack s d direction)
  constructor
  case id_eq => rfl
  case label_eq => rfl
  case encloses =>
    exact Layered.forall_mem_memberRects.mp fun b hb => Layered.encloses_frameRect hb
  case least =>
    intro hoccupied r hr
    have hsome := mt hnone.mp ((Bool.not_eq_false _).mpr hoccupied)
    exact (Layered.contains_frameRect_iff hsome).mpr (Layered.forall_mem_memberRects.mpr hr)
  case onCanvas =>
    have regular := Layered.Stack.regular_ofDiagram s direction d
    have nonnegStack := Layered.Stack.nonneg_ofDiagram nonneg direction d
    have hmargin := Layered.margin_ofDiagram s direction hg
    obtain ⟨hx, hy⟩ := Layered.frameRect_nonneg nonneg.titleHeight fun p hp =>
      hmargin ▸ regular.margin_le nonnegStack hp
    refine contains_canvas (List.mem_append_right _ ?_) hx hy
    exact List.mem_map.mpr ⟨_, List.mem_map.mpr ⟨g, hg, rfl⟩, rfl⟩
  case eq_zero =>
    intro hempty
    exact Layered.frameRect_eq_zero (hnone.mpr hempty)

end Layout

end Whiteboard
