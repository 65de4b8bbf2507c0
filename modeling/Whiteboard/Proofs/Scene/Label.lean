import Whiteboard.Proofs.Layout.Grid
import Whiteboard.Proofs.Scene.Figure
import Whiteboard.Proofs.Settings

/-!
Labels and their boxes.

The size of a box is computed from the text of the label when a diagram is laid out, and the place
of the text from the box when it is drawn: in the middle for a single line, at the left padding for
several. Whatever the label, the box and the settings, the paddings stay free on all sides of it
(`pads_labelRect`), and the line under the name of an entity runs across the box right between the
first line of the label and the second (`labels_fit`).
-/

namespace Whiteboard

/-- A rectangle lies in another one, with some space free on both its sides and some above and below
it. -/
structure Rect.Pads (r inner : Rect Rat) (beside above : Rat) : Prop where
  left : r.x + beside ≤ inner.x
  right : inner.right + beside ≤ r.right
  top : r.y + above ≤ inner.y
  bottom : inner.bottom + above ≤ r.bottom

/-- A line goes across a box, between the first and the second line of a text in it. -/
structure Element.Underlines {ι : Type} (z : Element ι Rat) (box text : Rect Rat)
    (lines : Nat) (lineHeight : Rat) : Prop where
  body_eq : z.body = .line [⟨0, 0⟩, ⟨box.width, 0⟩]
  x_eq : z.rect.x = box.x
  width_eq : z.rect.width = box.width
  height_eq : z.rect.height = 0
  inside : box.y < z.rect.y ∧ z.rect.y < box.bottom
  two_le_lines : 2 ≤ lines
  text_height : text.height = lines * lineHeight
  y_eq : z.rect.y = text.y + lineHeight

namespace Stencil

variable {s : Settings Rat} {n : Node} {box : Rect Rat}

/-- Where a label lies in its box. -/
theorem labelRect_eq (s : Settings Rat) (n : Node) (box : Rect Rat) :
    labelRect s n box =
      { x := if n.isMultiline then box.x + s.nodePaddingX
          else box.x + box.width / 2 - (s.textSize n.label).width / 2
        y := box.y + box.height / 2 - (s.textSize n.label).height / 2
        width := (s.textSize n.label).width
        height := (s.textSize n.label).height } := by
  unfold labelRect
  cases n.isMultiline <;> rfl

/-- A label is as high as its lines. -/
theorem height_labelRect (s : Settings Rat) (n : Node) (box : Rect Rat) :
    (labelRect s n box).height = Settings.lineCount n.label * s.lineHeight := by
  rw [labelRect_eq, ← Settings.height_textSize]

/-- A label keeps the paddings if the box has room for them. -/
theorem pads_labelRect (room : s.RoomFor n box.width box.height) :
    box.Pads (labelRect s n box) s.nodePaddingX s.nodePaddingY := by
  obtain ⟨hwidth, hheight⟩ := room
  rw [labelRect_eq]
  constructor
  case left =>
    dsimp only
    split <;> linarith
  case right =>
    rw [Rect.right_eq, Rect.right_eq]
    dsimp only
    split <;> linarith
  case top =>
    dsimp only
    linarith
  case bottom =>
    rw [Rect.bottom_eq, Rect.bottom_eq]
    dsimp only
    linarith

/-- Of a label that keeps the paddings, the end of the first of several lines lies in the box. -/
theorem first_line_inside (nonneg : s.Nonneg) (hline : 0 < s.lineHeight)
    (hpads : box.Pads (labelRect s n box) s.nodePaddingX s.nodePaddingY)
    (hlines : 2 ≤ Settings.lineCount n.label) :
    box.y < (labelRect s n box).y + s.lineHeight ∧
      (labelRect s n box).y + s.lineHeight < box.bottom := by
  have htwo : 2 * s.lineHeight ≤ Settings.lineCount n.label * s.lineHeight :=
    mul_le_mul_of_nonneg_right (by exact_mod_cast hlines) hline.le
  have htop := hpads.top
  have hbottom := hpads.bottom
  rw [Rect.bottom_eq, height_labelRect] at hbottom
  have hpadding := nonneg.nodePaddingY
  constructor <;> linarith

end Stencil

namespace Layout

variable {s : Settings Rat} {d : Diagram}

/-- The box of a node has room for its label. -/
theorem roomFor_boxSize (nonneg : s.Nonneg) {n : Node} (hn : n ∈ d.nodes) :
    s.RoomFor n (boxSize s d n).width (boxSize s d n).height := by
  obtain ⟨hwidth, hheight⟩ := nonneg.roomFor_nodeSize n
  unfold boxSize
  cases d.dialect with
  | flowchart => exact ⟨hwidth, hheight⟩
  | entityRelation => exact ⟨hwidth, hheight⟩
  | sequence =>
      have hheader : (s.nodeSize n).height ≤ Timeline.header (d.nodes.map s.nodeSize) :=
        Scalar.le_greatest (List.mem_map_of_mem (List.mem_map_of_mem hn))
      exact ⟨hwidth, hheight.trans hheader⟩

end Layout

namespace Scene

/-- Every node is drawn as a shape with its label in it, which keeps the paddings on all sides, and
the lines that are drawn across shapes are the lines under the first line of a label. -/
theorem labels_fit (g : Generator) (s : Settings Rat) (nonneg : s.Nonneg) (hline : 0 < s.lineHeight)
    (d : Diagram) (hids : d.ids.Nodup) :
    let scene := ofDiagram g s d
    (∀ n ∈ d.nodes, ∃ x t zs, scene.Draws n x t zs ∧
      x.rect.Pads t.rect s.nodePaddingX s.nodePaddingY ∧
      ∀ z ∈ zs, z.Underlines x.rect t.rect (Settings.lineCount n.label) s.lineHeight) ∧
    ∀ z ∈ scene.withRole .separator, ∃ n ∈ d.nodes, z ∈ scene.figures n.id := by
  intro scene
  constructor
  · intro n hn
    obtain ⟨x, t, zs, draws, hwidth, hheight, htext, hlines⟩ := exists_figures g s d hids hn
    have room := Layout.roomFor_boxSize nonneg hn
    rw [← hwidth, ← hheight] at room
    have hpads : x.rect.Pads t.rect s.nodePaddingX s.nodePaddingY :=
      htext ▸ Stencil.pads_labelRect room
    refine ⟨x, t, zs, draws, hpads, fun z hz => ?_⟩
    obtain ⟨hmulti, hbody, hrect⟩ := hlines z hz
    have htwo := Settings.isMultiline_iff.mp hmulti
    rw [htext] at hpads hrect ⊢
    exact
      { body_eq := hbody
        x_eq := by rw [hrect]
        width_eq := by rw [hrect]
        height_eq := by rw [hrect]
        inside := by rw [hrect]; exact Stencil.first_line_inside nonneg hline hpads htwo
        two_le_lines := htwo
        text_height := Stencil.height_labelRect s n x.rect
        y_eq := by rw [hrect] }
  · intro z hz
    obtain ⟨hmem, hrole⟩ := List.mem_filter.mp hz
    exact exists_mem_figures g s d hmem (by rw [beq_iff_eq.mp hrole]; rfl)

/-- The entity of a book is as wide as its second line and the paddings around it; the line under
its name is one line below the top of its label. -/
theorem catalog_labels_fit :
    (.standard : Settings Rat).Nonneg ∧ (0 : Rat) < (.standard : Settings Rat).lineHeight ∧
      Layout.catalog.ids.Nodup ∧
      ∃ x t z, (ofDiagram .keystream (.standard : Settings Rat) Layout.catalog).Draws
          { id := "book", label := "Book\nstring title\nint year" } x t [z] ∧
        x.rect = ⟨0, 0, 148, 105⟩ ∧ t.rect = ⟨20, 15, 108, 75⟩ ∧ z.rect = ⟨0, 40, 148, 0⟩ ∧
        x.rect.Pads t.rect 20 15 ∧ z.Underlines x.rect t.rect 3 25 := by
  have nonneg := Settings.solid_standard.toNonneg
  have hline : (0 : Rat) < (.standard : Settings Rat).lineHeight := by decide
  have hids : Layout.catalog.ids.Nodup := by decide
  obtain ⟨h, -⟩ := labels_fit .keystream .standard nonneg hline Layout.catalog hids
  obtain ⟨x, t, zs, draws, hpads, hlines⟩ :=
    h { id := "book", label := "Book\nstring title\nint year" } List.mem_cons_self
  have hrects :
      ((ofDiagram .keystream (.standard : Settings Rat) Layout.catalog).figures "book").map
          (·.rect) =
        [⟨0, 0, 148, 105⟩, ⟨20, 15, 108, 75⟩, ⟨0, 40, 148, 0⟩] := by
    decide +kernel
  have hcount : Settings.lineCount "Book\nstring title\nint year" = 3 := by decide +kernel
  obtain ⟨hx, ht, hzs⟩ := draws.rects hrects
  obtain ⟨z, rfl, hz⟩ := List.map_eq_singleton_iff.mp hzs
  refine ⟨nonneg, hline, hids, x, t, z, draws, hx, ht, hz, hpads, ?_⟩
  exact hcount ▸ hlines z List.mem_cons_self

end Scene

end Whiteboard
