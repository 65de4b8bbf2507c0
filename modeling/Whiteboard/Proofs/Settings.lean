import Whiteboard.Proofs.Exact
import Whiteboard.Settings

/-!
Settings that a drawing can be made with.

Lengths are not negative (`Nonneg`), and nodes cannot vanish (`Solid`). A text is as wide as its
longest line and as high as it has lines. A node has the room that its label and the paddings around
it take, or more: as much as the settings demand, and 14 tenths of either if its shape tapers
(`nodeSize_eq`). So it is at least as wide and as high as the settings demand (`le_nodeSize`),
whatever its label and its shape.
-/

namespace Whiteboard

/-- The shape is larger than a rectangle around the same label. -/
def Shape.tapers : Shape → Bool
  | .diamond | .ellipse => true
  | .rectangle | .cylinder | .stadium | .hexagon => false

namespace Settings

/-! ### Settings that make sense -/

/-- No length is negative. -/
structure Nonneg (s : Settings Rat) : Prop where
  charWidth : 0 ≤ s.charWidth
  lineHeight : 0 ≤ s.lineHeight
  fontSize : 0 ≤ s.fontSize
  nodePaddingX : 0 ≤ s.nodePaddingX
  nodePaddingY : 0 ≤ s.nodePaddingY
  minNodeWidth : 0 ≤ s.minNodeWidth
  minNodeHeight : 0 ≤ s.minNodeHeight
  nodeGap : 0 ≤ s.nodeGap
  rankGap : 0 ≤ s.rankGap
  framePadding : 0 ≤ s.framePadding
  titleHeight : 0 ≤ s.titleHeight
  columnGap : 0 ≤ s.columnGap
  messageSpacing : 0 ≤ s.messageSpacing
  gridGap : 0 ≤ s.gridGap
  edgeOffset : 0 ≤ s.edgeOffset
  bindingGap : 0 ≤ s.bindingGap

/-- No length is negative, and the least size of a node is positive. -/
structure Solid (s : Settings Rat) : Prop extends Nonneg s where
  minNodeWidth_pos : 0 < s.minNodeWidth
  minNodeHeight_pos : 0 < s.minNodeHeight

/-- The standard settings are solid. -/
theorem solid_standard : (standard : Settings Rat).Solid := by
  constructor
  case toNonneg => constructor <;> decide
  all_goals decide

theorem taper_eq : (taper : Rat) = 14 / 10 := rfl

/-! ### Texts -/

def lineCount (text : String) : Nat :=
  (text.toList.splitOn '\n').length

def breadth (text : String) : Nat :=
  (text.toList.splitOn '\n').foldl (fun n line => Nat.max n line.length) 0

/-- A list is split into one piece more than it has separators. -/
theorem length_splitOn {β : Type} [BEq β] (a : β) (xs : List β) :
    (xs.splitOn a).length = xs.count a + 1 := by
  induction xs with
  | nil => simp
  | cons x xs ih =>
      rw [List.splitOn_cons_eq_if_modifyHead, List.count_cons]
      split
      · rw [List.length_cons, ih]
      · rw [List.length_modifyHead, ih, Nat.add_zero]

/-- Even an empty text has a line. -/
theorem lineCount_pos (text : String) : 1 ≤ lineCount text := by
  rw [lineCount, length_splitOn]
  exact Nat.le_add_left 1 _

theorem isMultiline_iff {n : Node} : n.isMultiline = true ↔ 2 ≤ lineCount n.label := by
  rw [lineCount, length_splitOn, Node.isMultiline, List.contains_iff_mem, ← List.count_pos_iff]
  omega

variable {s : Settings Rat}

/-- A text is as wide as its longest line. -/
theorem width_textSize (text : String) : (s.textSize text).width = breadth text * s.charWidth := rfl

/-- A text is as high as its lines together. -/
theorem height_textSize (text : String) :
    (s.textSize text).height = lineCount text * s.lineHeight := rfl

theorem Nonneg.textSize_nonneg (nonneg : s.Nonneg) (text : String) :
    0 ≤ (s.textSize text).width ∧ 0 ≤ (s.textSize text).height :=
  ⟨mul_nonneg (Nat.cast_nonneg _) nonneg.charWidth,
    mul_nonneg (Nat.cast_nonneg _) nonneg.lineHeight⟩

/-! ### Nodes -/

def room (s : Settings Rat) (n : Node) : Size Rat where
  width := ((s.textSize n.label).width + 2 * s.nodePaddingX) ⊔ s.minNodeWidth
  height := ((s.textSize n.label).height + 2 * s.nodePaddingY) ⊔ s.minNodeHeight

/-- A shape that tapers has a box larger by its factor than the room it needs. -/
theorem nodeSize_eq (s : Settings Rat) (n : Node) :
    s.nodeSize n =
      if n.shape.tapers then ⟨(s.room n).width * (14 / 10), (s.room n).height * (14 / 10)⟩
      else s.room n := by
  simp only [nodeSize, room, Scalar.max_eq, ← taper_eq]
  cases n.shape <;> rfl

/-- A node has the room that it needs in a rectangle. -/
theorem room_le_nodeSize {n : Node} (hw : 0 ≤ (s.room n).width) (hh : 0 ≤ (s.room n).height) :
    (s.room n).width ≤ (s.nodeSize n).width ∧ (s.room n).height ≤ (s.nodeSize n).height := by
  rw [nodeSize_eq]
  split
  · constructor <;> dsimp only <;> linarith
  · exact ⟨le_refl _, le_refl _⟩

/-- A node is at least as wide and as high as the settings demand. -/
theorem le_nodeSize (hw : 0 ≤ s.minNodeWidth) (hh : 0 ≤ s.minNodeHeight) (n : Node) :
    s.minNodeWidth ≤ (s.nodeSize n).width ∧ s.minNodeHeight ≤ (s.nodeSize n).height := by
  have hwidth : s.minNodeWidth ≤ (s.room n).width := le_sup_right
  have hheight : s.minNodeHeight ≤ (s.room n).height := le_sup_right
  obtain ⟨h₁, h₂⟩ := room_le_nodeSize (hw.trans hwidth) (hh.trans hheight)
  exact ⟨hwidth.trans h₁, hheight.trans h₂⟩

/-- A box of some width and height has room for the label of a node and the paddings around it. -/
structure RoomFor (s : Settings Rat) (n : Node) (width height : Rat) : Prop where
  width_le : (s.textSize n.label).width + 2 * s.nodePaddingX ≤ width
  height_le : (s.textSize n.label).height + 2 * s.nodePaddingY ≤ height

/-- A node has room for its label. -/
theorem Nonneg.roomFor_nodeSize (nonneg : s.Nonneg) (n : Node) :
    s.RoomFor n (s.nodeSize n).width (s.nodeSize n).height := by
  have hwidth : 0 ≤ (s.room n).width := nonneg.minNodeWidth.trans le_sup_right
  have hheight : 0 ≤ (s.room n).height := nonneg.minNodeHeight.trans le_sup_right
  obtain ⟨h₁, h₂⟩ := room_le_nodeSize hwidth hheight
  exact ⟨le_sup_left.trans h₁, le_sup_left.trans h₂⟩

/-- No box has a negative extent. -/
theorem Nonneg.nodeSize_nonneg (nonneg : s.Nonneg) (n : Node) :
    0 ≤ (s.nodeSize n).width ∧ 0 ≤ (s.nodeSize n).height := by
  obtain ⟨hwidth, hheight⟩ := le_nodeSize nonneg.minNodeWidth nonneg.minNodeHeight n
  exact ⟨nonneg.minNodeWidth.trans hwidth, nonneg.minNodeHeight.trans hheight⟩

/-- Every box has some width and height. -/
theorem Solid.nodeSize_pos (solid : s.Solid) (n : Node) :
    0 < (s.nodeSize n).width ∧ 0 < (s.nodeSize n).height := by
  obtain ⟨hwidth, hheight⟩ := le_nodeSize solid.minNodeWidth solid.minNodeHeight n
  exact ⟨solid.minNodeWidth_pos.trans_le hwidth, solid.minNodeHeight_pos.trans_le hheight⟩

end Settings

end Whiteboard
