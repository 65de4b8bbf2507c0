import Mathlib.Tactic.Positivity
import Mathlib.Tactic.Ring
import Whiteboard.Proofs.Scene.Label

/-!
Labels in diamonds and ellipses.

A shape that tapers is larger by a factor than a box around its label, so that the label fits in the
figure itself. Whether it does depends on the upper left corner of the text, which is as far from
the centre as any other (`forall_corners_iff`). Under the standard settings a single line fits in an
ellipse whatever its length, and in a diamond up to a length. Several lines begin at the left edge
of the box, though, and so never fit in a diamond, and in an ellipse only if they are few and short
(`inscribed_iff`).
-/

namespace Whiteboard

/-! ### Figures and corners -/

namespace Body

variable {ι α : Type}

/-- The figure drawn in a box holds what is `u` half widths beside its centre and `v` half heights
above or below it. -/
def Holds : Body ι α → Rat → Rat → Prop
  | .diamond, u, v => u + v ≤ 1
  | .ellipse, u, v => u ^ 2 + v ^ 2 ≤ 1
  | .rectangle, u, v | .line _, u, v | .arrow _, u, v | .text _, u, v => u ≤ 1 ∧ v ≤ 1

/-- What is nearer to the centre is held too. -/
theorem Holds.mono {body : Body ι α} {u u' v v' : Rat} (h : body.Holds u' v') (hu₀ : 0 ≤ u)
    (hu : u ≤ u') (hv₀ : 0 ≤ v) (hv : v ≤ v') : body.Holds u v := by
  cases body with
  | diamond => exact (add_le_add hu hv).trans h
  | ellipse => exact (add_le_add (pow_le_pow_left₀ hu₀ hu 2) (pow_le_pow_left₀ hv₀ hv 2)).trans h
  | rectangle => exact ⟨hu.trans h.1, hv.trans h.2⟩
  | line points => exact ⟨hu.trans h.1, hv.trans h.2⟩
  | arrow a => exact ⟨hu.trans h.1, hv.trans h.2⟩
  | text t => exact ⟨hu.trans h.1, hv.trans h.2⟩

end Body

/-- A point lies in the figure that an element is drawn as. -/
def Element.Holds {ι : Type} (x : Element ι Rat) (p : Point Rat) : Prop :=
  x.body.Holds (|p.x - x.rect.center.x| / (x.rect.width / 2))
    (|p.y - x.rect.center.y| / (x.rect.height / 2))

def Rect.corners (r : Rect Rat) : List (Point Rat) :=
  [⟨r.x, r.y⟩, ⟨r.right, r.y⟩, ⟨r.x, r.bottom⟩, ⟨r.right, r.bottom⟩]

namespace Stencil

variable {s : Settings Rat} {n : Node} {box : Rect Rat}

/-- How far from the centre of its box a label reaches to the left. -/
def reach (s : Settings Rat) (n : Node) (box : Rect Rat) : Rat :=
  if n.isMultiline then box.width / 2 - s.nodePaddingX else (s.textSize n.label).width / 2

/-- The upper left corner of a label is as far from the centre of the box as it reaches. -/
theorem upper_left_labelRect (nonneg : s.Nonneg) (room : s.RoomFor n box.width box.height) :
    |(labelRect s n box).x - box.center.x| = reach s n box ∧
      |(labelRect s n box).y - box.center.y| = (s.textSize n.label).height / 2 := by
  obtain ⟨hwidth₀, hheight₀⟩ := nonneg.textSize_nonneg n.label
  have hwidth := room.width_le
  rw [labelRect_eq, reach, Rect.center_x, Rect.center_y, abs_sub_comm, abs_sub_comm _ (box.y + _)]
  dsimp only
  constructor
  · split
    · rw [add_sub_add_left_eq_sub, abs_of_nonneg (by linarith)]
    · rw [sub_sub_cancel, abs_of_nonneg (by linarith)]
  · rw [sub_sub_cancel, abs_of_nonneg (by linarith)]

/-- No corner of a label is further from the centre of the box. -/
theorem corners_labelRect (nonneg : s.Nonneg) (room : s.RoomFor n box.width box.height) :
    ∀ p ∈ (labelRect s n box).corners, |p.x - box.center.x| ≤ reach s n box ∧
      |p.y - box.center.y| ≤ (s.textSize n.label).height / 2 := by
  obtain ⟨hleft, htop⟩ := upper_left_labelRect nonneg room
  obtain ⟨hwidth₀, hheight₀⟩ := nonneg.textSize_nonneg n.label
  have hwidth := room.width_le
  have hright : |(labelRect s n box).right - box.center.x| ≤ reach s n box := by
    rw [labelRect_eq, reach, Rect.right_eq, Rect.center_x, abs_le]
    dsimp only
    split <;> constructor <;> linarith
  have hbottom : |(labelRect s n box).bottom - box.center.y| ≤
      (s.textSize n.label).height / 2 := by
    rw [labelRect_eq, Rect.bottom_eq, Rect.center_y, abs_le]
    dsimp only
    constructor <;> linarith
  intro p hp
  simp only [Rect.corners, List.mem_cons, List.not_mem_nil, or_false] at hp
  rcases hp with rfl | rfl | rfl | rfl
  · exact ⟨hleft.le, htop.le⟩
  · exact ⟨hright, htop.le⟩
  · exact ⟨hleft.le, hbottom⟩
  · exact ⟨hright, hbottom⟩

/-- The corners of a label lie in a figure exactly if the upper left one does. -/
theorem forall_corners_iff {ι : Type} {x : Element ι Rat} (nonneg : s.Nonneg)
    (room : s.RoomFor n x.rect.width x.rect.height) (hw : 0 < x.rect.width)
    (hh : 0 < x.rect.height) :
    (∀ p ∈ (labelRect s n x.rect).corners, x.Holds p) ↔
      x.body.Holds (reach s n x.rect / (x.rect.width / 2))
        ((s.textSize n.label).height / 2 / (x.rect.height / 2)) := by
  constructor
  · intro h
    obtain ⟨hleft, htop⟩ := upper_left_labelRect nonneg room
    have hcorner := h ⟨_, _⟩ List.mem_cons_self
    rw [Element.Holds, hleft, htop] at hcorner
    exact hcorner
  · intro h p hp
    obtain ⟨hx, hy⟩ := corners_labelRect nonneg room p hp
    exact h.mono (div_nonneg (abs_nonneg _) (half_pos hw).le)
      (div_le_div_of_nonneg_right hx (half_pos hw).le)
      (div_nonneg (abs_nonneg _) (half_pos hh).le)
      (div_le_div_of_nonneg_right hy (half_pos hh).le)

end Stencil

namespace Settings

/-! ### Under the standard settings -/

/-- How wide a shape that tapers is around lines of at most so many characters. -/
def taperedWidth (breadth : Nat) : Rat :=
  ((9 * (breadth : Rat) + 40) ⊔ 120) * (14 / 10)

/-- How high a shape that tapers is around so many lines. -/
def taperedHeight (lines : Nat) : Rat :=
  ((25 * (lines : Rat) + 30) ⊔ 60) * (14 / 10)

/-- How large a tapered shape is, in numbers. -/
theorem nodeSize_tapered {n : Node} (h : n.shape.tapers = true) :
    (standard : Settings Rat).nodeSize n =
      ⟨taperedWidth (breadth n.label), taperedHeight (lineCount n.label)⟩ := by
  have hwidth : (breadth n.label : Rat) * 9 + 2 * 20 = 9 * breadth n.label + 40 := by ring
  have hheight : (lineCount n.label : Rat) * 25 + 2 * 15 = 25 * lineCount n.label + 30 := by ring
  rw [nodeSize_eq, if_pos h, taperedWidth, taperedHeight, ← hwidth, ← hheight]
  rfl

theorem le_taperedWidth (b : Nat) : 168 ≤ taperedWidth b := by
  have h : (120 : Rat) ≤ (9 * (b : Rat) + 40) ⊔ 120 := le_sup_right
  unfold taperedWidth
  linarith

/-- A longer line does not make a shape narrower. -/
theorem taperedWidth_mono {b c : Nat} (h : b ≤ c) : taperedWidth b ≤ taperedWidth c := by
  unfold taperedWidth
  gcongr

theorem taperedHeight_one : taperedHeight 1 = 84 := by
  unfold taperedHeight
  norm_num

theorem taperedHeight_of_two_le {k : Nat} (h : 2 ≤ k) : taperedHeight k = 35 * k + 42 := by
  have hcast : (2 : Rat) ≤ k := by exact_mod_cast h
  have hmax : (60 : Rat) ≤ 25 * k + 30 := by linarith
  rw [taperedHeight, sup_of_le_left hmax]
  ring

/-- A single line lies in a diamond unless it is too long: only the width of the diamond grows with
the line. -/
theorem line_in_diamond_iff (b : Nat) :
    9 * b / taperedWidth b + 25 * 1 / taperedHeight 1 ≤ 1 ↔ b ≤ 262 := by
  have hpos : 0 < taperedWidth b := by linarith [le_taperedWidth b]
  have hcross : 9 * b / taperedWidth b + 25 * 1 / taperedHeight 1 ≤ 1 ↔
      9 * (b : Rat) ≤ 59 / 84 * taperedWidth b := by
    rw [taperedHeight_one, ← div_le_iff₀ hpos]
    constructor <;> intro h <;> linarith
  rw [hcross, taperedWidth]
  rcases Nat.lt_or_ge 262 b with h | h
  · have hcast : (263 : Rat) ≤ b := by exact_mod_cast h
    have hmax : (120 : Rat) ≤ 9 * b + 40 := by linarith
    rw [sup_of_le_left hmax]
    exact iff_of_false (by linarith) (by omega)
  · have hcast : (b : Rat) ≤ 262 := by exact_mod_cast h
    have hmax : 9 * (b : Rat) + 40 ≤ (9 * (b : Rat) + 40) ⊔ 120 := le_sup_left
    exact iff_of_true (by linarith) h

/-- One line lies in an ellipse, however long it is. -/
theorem line_in_ellipse (b : Nat) :
    (9 * b / taperedWidth b) ^ 2 + (25 * 1 / taperedHeight 1) ^ 2 ≤ 1 := by
  have hpos : 0 < taperedWidth b := by linarith [le_taperedWidth b]
  have hle : 9 * b / taperedWidth b ≤ 5 / 7 := by
    have h : 9 * (b : Rat) + 40 ≤ (9 * (b : Rat) + 40) ⊔ 120 := le_sup_left
    rw [div_le_iff₀ hpos, taperedWidth]
    linarith
  have hsq : (9 * b / taperedWidth b) ^ 2 ≤ (5 / 7) ^ 2 :=
    pow_le_pow_left₀ (div_nonneg (by positivity) hpos.le) hle 2
  rw [taperedHeight_one]
  linarith

/-- From two lines on, no text lies in a diamond. -/
theorem lines_not_in_diamond (b : Nat) {k : Nat} (hk : 2 ≤ k) :
    ¬ (1 - 40 / taperedWidth b + 25 * k / taperedHeight k ≤ 1) := by
  have hwidth : 40 / taperedWidth b ≤ 40 / 168 :=
    div_le_div_of_nonneg_left (by norm_num) (by norm_num) (le_taperedWidth b)
  have hcast : (2 : Rat) ≤ k := by exact_mod_cast hk
  have hheight : 25 / 56 ≤ 25 * k / taperedHeight k := by
    rw [taperedHeight_of_two_le hk, div_le_div_iff₀ (by norm_num) (by linarith)]
    linarith
  linarith

/-- The upper left corner of `k` lines, the longest of `b` characters, lies in an ellipse. -/
def LinesInEllipse (k b : Nat) : Prop :=
  (1 - 40 / taperedWidth b) ^ 2 + (25 * k / taperedHeight k) ^ 2 ≤ 1

instance (k b : Nat) : Decidable (LinesInEllipse k b) :=
  inferInstanceAs (Decidable (_ ≤ _))

/-- Shorter lines lie in an ellipse where longer ones do. -/
theorem LinesInEllipse.antitone {k b c : Nat} (hbc : b ≤ c) (h : LinesInEllipse k c) :
    LinesInEllipse k b := by
  have hb := le_taperedWidth b
  have hwidth : 40 / taperedWidth c ≤ 40 / taperedWidth b :=
    div_le_div_of_nonneg_left (by norm_num) (by linarith) (taperedWidth_mono hbc)
  have hone : 40 / taperedWidth b ≤ 1 := by
    rw [div_le_one₀ (by linarith)]
    linarith
  have hsq : (1 - 40 / taperedWidth b) ^ 2 ≤ (1 - 40 / taperedWidth c) ^ 2 :=
    pow_le_pow_left₀ (by linarith) (by linarith) 2
  unfold LinesInEllipse at h ⊢
  linarith

/-- From twelve lines on, no text lies in an ellipse. -/
theorem lines_not_in_ellipse (b : Nat) {k : Nat} (hk : 12 ≤ k) : ¬ LinesInEllipse k b := by
  have hb := le_taperedWidth b
  have hcast : (12 : Rat) ≤ k := by exact_mod_cast hk
  have hwidth : 40 / taperedWidth b ≤ 40 / 168 :=
    div_le_div_of_nonneg_left (by norm_num) (by norm_num) hb
  have hheight : 50 / 77 ≤ 25 * k / taperedHeight k := by
    rw [taperedHeight_of_two_le (by omega), div_le_div_iff₀ (by norm_num) (by linarith)]
    linarith
  have h₁ : (16 / 21 : Rat) ^ 2 ≤ (1 - 40 / taperedWidth b) ^ 2 :=
    pow_le_pow_left₀ (by norm_num) (by linarith) 2
  have h₂ : (50 / 77 : Rat) ^ 2 ≤ (25 * k / taperedHeight k) ^ 2 :=
    pow_le_pow_left₀ (by norm_num) hheight 2
  unfold LinesInEllipse
  linarith

/-- How many characters a line may have at most so that two lines, three lines and so on lie in an
ellipse. -/
def ellipseBreadths : List Nat :=
  [25, 18, 14, 12, 11, 10, 10, 9, 9, 9]

/-- The breadths in the table are the greatest ones. -/
theorem ellipseBreadths_exact : ∀ p ∈ ellipseBreadths.zipIdx,
    LinesInEllipse (p.2 + 2) p.1 ∧ ¬ LinesInEllipse (p.2 + 2) (p.1 + 1) := by
  decide +kernel

/-- Some lines lie in an ellipse if the longest is within the table. -/
theorem linesInEllipse_iff (b : Nat) {k : Nat} (hk : 2 ≤ k) :
    LinesInEllipse k b ↔ ∃ most, ellipseBreadths[k - 2]? = some most ∧ b ≤ most := by
  cases h : ellipseBreadths[k - 2]? with
  | none =>
      -- behind the end of the table even empty lines are too many
      have hlength : 10 ≤ k - 2 := List.getElem?_eq_none_iff.mp h
      simp [lines_not_in_ellipse b (show 12 ≤ k by omega)]
  | some most =>
      -- a wider text is worse, so the table needs to be right only at its limits
      have hmem : (most, k - 2) ∈ ellipseBreadths.zipIdx := List.mk_mem_zipIdx_iff_getElem?.mpr h
      obtain ⟨hfits, hnot⟩ := ellipseBreadths_exact _ hmem
      rw [show k - 2 + 2 = k by omega] at hfits hnot
      simp only [Option.some.injEq, exists_eq_left']
      constructor
      · intro hb
        by_contra hlt
        exact hnot (hb.antitone (by omega))
      · exact fun hle => hfits.antitone hle

end Settings

/-- Under the standard settings, a text of so many lines, the longest of `breadth` characters, fits
in the figure of a shape. -/
def Shape.Fits (lines breadth : Nat) : Shape → Prop
  | .diamond => lines = 1 ∧ breadth ≤ 262
  | .ellipse =>
    lines = 1 ∨ ∃ most, Settings.ellipseBreadths[lines - 2]? = some most ∧ breadth ≤ most
  | .rectangle | .cylinder | .stadium | .hexagon => True

/-! ### Labels under the standard settings -/

/-- A shape that tapers holds the upper left corner of a text exactly if the text fits. -/
theorem Shape.holds_iff_fits {ι α : Type} {shape : Shape} (h : shape.tapers = true) {k : Nat}
    (hk : 1 ≤ k) (b : Nat) :
    (shape.figure : Body ι α).Holds
        (if 2 ≤ k then 1 - 40 / Settings.taperedWidth b else 9 * b / Settings.taperedWidth b)
        (25 * k / Settings.taperedHeight k) ↔ shape.Fits k b := by
  rcases hk.eq_or_lt with rfl | htwo
  · rw [if_neg (by decide), Nat.cast_one]
    cases shape with
    | diamond => exact (Settings.line_in_diamond_iff b).trans (and_iff_right rfl).symm
    | ellipse => exact iff_of_true (Settings.line_in_ellipse b) (.inl rfl)
    | rectangle | cylinder | stadium | hexagon => cases h
  · rw [if_pos (show 2 ≤ k from htwo)]
    cases shape with
    | diamond => exact iff_of_false (Settings.lines_not_in_diamond b htwo) fun h => htwo.ne' h.1
    | ellipse => exact (Settings.linesInEllipse_iff b htwo).trans (or_iff_right htwo.ne').symm
    | rectangle | cylinder | stadium | hexagon => cases h

/-- A shape that does not taper is drawn as a rectangle, and every text fits in it. -/
theorem Shape.figure_untapered {ι α : Type} {shape : Shape} (h : shape.tapers = false) (k b : Nat) :
    (shape.figure : Body ι α) = .rectangle ∧ shape.Fits k b := by
  cases shape with
  | rectangle | cylinder | stadium | hexagon => exact ⟨rfl, trivial⟩
  | diamond | ellipse => cases h

namespace Stencil

variable {n : Node} {box : Rect Rat}

/-- How far a label reaches to the left, in half widths. -/
theorem reach_div (hpos : 0 < box.width) :
    reach .standard n box / (box.width / 2) =
      if 2 ≤ Settings.lineCount n.label then 1 - 40 / box.width
      else 9 * Settings.breadth n.label / box.width := by
  have hpadding : (.standard : Settings Rat).nodePaddingX = 20 := rfl
  have hlines : box.width / 2 - 20 = (box.width - 40) / 2 := by ring
  have hline : ((.standard : Settings Rat).textSize n.label).width =
      9 * Settings.breadth n.label :=
    (Settings.width_textSize n.label).trans (mul_comm (Settings.breadth n.label : Rat) 9)
  rw [reach, hpadding, hlines, hline]
  simp only [Settings.isMultiline_iff]
  split
  · rw [div_div_div_cancel_right₀ two_ne_zero, sub_div, div_self hpos.ne']
  · rw [div_div_div_cancel_right₀ two_ne_zero]

/-- How high a label is, in half heights. -/
theorem height_div :
    ((.standard : Settings Rat).textSize n.label).height / 2 / (box.height / 2) =
      25 * Settings.lineCount n.label / box.height := by
  have hheight : ((.standard : Settings Rat).textSize n.label).height =
      25 * Settings.lineCount n.label :=
    (Settings.height_textSize n.label).trans (mul_comm (Settings.lineCount n.label : Rat) 25)
  rw [hheight, div_div_div_cancel_right₀ two_ne_zero]

/-- Every label lies in a rectangle that has room for it. -/
theorem holds_rectangle {ι α : Type} {s : Settings Rat} (nonneg : s.Nonneg)
    (room : s.RoomFor n box.width box.height) (hw : 0 < box.width) (hh : 0 < box.height) :
    (Body.rectangle : Body ι α).Holds (reach s n box / (box.width / 2))
      ((s.textSize n.label).height / 2 / (box.height / 2)) := by
  have hwidth := room.width_le
  have hheight := room.height_le
  have hpaddingX := nonneg.nodePaddingX
  have hpaddingY := nonneg.nodePaddingY
  constructor
  · rw [div_le_one₀ (half_pos hw), reach]
    split <;> linarith
  · rw [div_le_one₀ (half_pos hh)]
    linarith

end Stencil

namespace Scene

/-- Under the standard settings, all corners of a label lie in the figure of its node exactly if the
label fits there. -/
theorem inscribed_iff (g : Generator) (d : Diagram) (hd : d.dialect ≠ .sequence)
    (hids : d.ids.Nodup) :
    ∀ n ∈ d.nodes, ∃ x t zs, (ofDiagram g (.standard : Settings Rat) d).Draws n x t zs ∧
      ((∀ p ∈ t.rect.corners, x.Holds p) ↔
        n.shape.Fits (Settings.lineCount n.label) (Settings.breadth n.label)) := by
  intro n hn
  obtain ⟨x, t, zs, draws, hwidth, hheight, htext, -⟩ :=
    exists_figures g (.standard : Settings Rat) d hids hn
  rw [Layout.boxSize_eq _ hd] at hwidth hheight
  have solid : (.standard : Settings Rat).Solid := Settings.solid_standard
  obtain ⟨hw, hh⟩ := solid.nodeSize_pos n
  have room := solid.roomFor_nodeSize n
  rw [← hwidth, ← hheight] at room
  rw [← hwidth] at hw
  rw [← hheight] at hh
  refine ⟨x, t, zs, draws, ?_⟩
  rw [htext, Stencil.forall_corners_iff solid.toNonneg room hw hh, draws.shape_body]
  cases h : n.shape.tapers with
  | true =>
      rw [Stencil.reach_div hw, Stencil.height_div, hwidth, hheight, Settings.nodeSize_tapered h]
      exact Shape.holds_iff_fits h (Settings.lineCount_pos n.label) _
  | false =>
      obtain ⟨hfigure, hfits⟩ := Shape.figure_untapered h (Settings.lineCount n.label)
        (Settings.breadth n.label)
      rw [hfigure]
      exact iff_of_true (Stencil.holds_rectangle solid.toNonneg room hw hh) hfits

def twoLines (id : String) (shape : Shape) : Node :=
  { id, label := "one\ntwo", shape }

/-- A diamond and an ellipse with the same two lines in them. -/
def verdict : Diagram where
  dialect := .flowchart
  nodes := [twoLines "A" .diamond, twoLines "B" .ellipse]

/-- The two lines fit in the ellipse. -/
theorem verdict_ellipse_inscribed :
    verdict.dialect ≠ .sequence ∧ verdict.ids.Nodup ∧ twoLines "B" .ellipse ∈ verdict.nodes ∧
      ∃ x t zs,
        (ofDiagram .keystream (.standard : Settings Rat) verdict).Draws (twoLines "B" .ellipse)
            x t zs ∧
          ∀ p ∈ t.rect.corners, x.Holds p := by
  have hids : verdict.ids.Nodup := by decide
  have hmem : twoLines "B" .ellipse ∈ verdict.nodes := by decide
  obtain ⟨x, t, zs, draws, hiff⟩ := inscribed_iff .keystream verdict (by decide) hids _ hmem
  have hlines : Settings.lineCount (twoLines "B" .ellipse).label = 2 := by decide +kernel
  have hbreadth : Settings.breadth (twoLines "B" .ellipse).label = 3 := by decide +kernel
  refine ⟨by decide, hids, hmem, x, t, zs, draws, hiff.mpr (.inr ⟨25, ?_, ?_⟩)⟩
  · rw [hlines]
    rfl
  · rw [hbreadth]
    decide

/-- The labels of diamonds and ellipses lie in their figures. -/
def Inscribed (scene : Scene Rat) (d : Diagram) : Prop :=
  ∀ n ∈ d.nodes, n.shape.tapers = true → ∀ x t zs, scene.Draws n x t zs →
    ∀ p ∈ t.rect.corners, x.Holds p

/-- The upper left corner of the two lines sticks out of the diamond. -/
theorem verdict_sticks_out :
    verdict.dialect = .flowchart ∧ verdict.ids.Nodup ∧
      ¬ (ofDiagram .keystream (.standard : Settings Rat) verdict).Inscribed verdict := by
  have hids : verdict.ids.Nodup := by decide
  refine ⟨rfl, hids, fun inscribed => ?_⟩
  have hmem : twoLines "A" .diamond ∈ verdict.nodes := by decide
  obtain ⟨x, t, zs, draws, -⟩ :=
    exists_figures .keystream (.standard : Settings Rat) verdict hids hmem
  have hrects : ((ofDiagram .keystream (.standard : Settings Rat) verdict).figures "A").map
      (·.rect) = [⟨0, 0, 168, 112⟩, ⟨20, 31, 27, 50⟩] := by
    decide +kernel
  obtain ⟨hx, ht, -⟩ := draws.rects hrects
  have hholds := inscribed _ hmem rfl x t zs draws ⟨t.rect.x, t.rect.y⟩ List.mem_cons_self
  rw [Element.Holds, draws.shape_body, hx, ht] at hholds
  have hcorner : ¬ |(20 : Rat) - (0 + 168 / 2)| / (168 / 2) + |(31 : Rat) - (0 + 112 / 2)| /
      (112 / 2) ≤ 1 := by
    norm_num
  exact hcorner hholds

end Scene

end Whiteboard
