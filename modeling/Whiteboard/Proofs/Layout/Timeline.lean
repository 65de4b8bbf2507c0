import Whiteboard.Layout.Arrange
import Whiteboard.Proofs.Diagram.Records
import Whiteboard.Proofs.Geometry.Route
import Whiteboard.Proofs.Layout.Order
import Whiteboard.Proofs.Settings

/-!
Messages between lifelines.

The boxes of the participants stand side by side in a row of one height (`pairwise_participants`),
and from the middle of each a lifeline goes down. Each message has a height, drawn or not, and keeps
within half a spacing below it, as a line or as a detour back to its sender (`y_of_mem_points`). So
messages keep below one another (`pairwise_messages`) and within the lifelines
(`y_of_mem_messages`), and together with the ends of each they make up a timeline
(`timeline_in_sequence`).
-/

namespace Whiteboard

open Timeline

/-- Participants stand in a row with a lifeline under each, and messages run between lifelines, each
below the one before it. -/
structure Layout.InSequence (s : Settings Rat) (d : Diagram) (l : Layout Rat) : Prop where
  ids_nodes : l.nodes.map (·.id) = d.ids
  edge_edges : l.edges.map (·.edge) = d.edges
  /-- The boxes share one top and one bottom. -/
  level : ∀ p ∈ l.nodes, ∀ q ∈ l.nodes, p.rect.y = q.rect.y ∧ p.rect.bottom = q.rect.bottom
  apart : l.nodes.Pairwise fun p q => p.rect.right + s.columnGap ≤ q.rect.x
  /-- A lifeline begins under the middle of its box. -/
  lifelines : List.Forall₂
    (fun p f => f.id = p.id ∧ f.x = p.rect.center.x ∧ f.top = p.rect.bottom) l.nodes l.lifelines
  ids_lifelines_nodup : (l.lifelines.map (·.id)).Nodup
  /-- A message begins on the lifeline of its sender and ends on that of its receiver. -/
  ends : ∀ r ∈ l.edges, r.edge ∈ d.resolvedEdges →
    ∃ u v f g, r.points.head? = some u ∧ r.points.getLast? = some v ∧
      f ∈ l.lifelines ∧ f.id = r.edge.source ∧ u.x = f.x ∧
      g ∈ l.lifelines ∧ g.id = r.edge.target ∧ v.x = g.x
  within : ∀ r ∈ l.edges, ∀ u ∈ r.points, ∀ f ∈ l.lifelines, f.top < u.y ∧ u.y < f.bottom
  /-- All of a message is drawn above all of every later one. -/
  ordered : l.edges.Pairwise fun r r' => ∀ u ∈ r.points, ∀ v ∈ r'.points, u.y < v.y

namespace Timeline

variable {s : Settings Rat} {d : Diagram}

/-! ### Boxes -/

def widths (s : Settings Rat) (d : Diagram) : List Rat :=
  d.nodes.map fun n => (s.nodeSize n).width

theorem widths_nonneg (nonneg : s.Nonneg) : ∀ x ∈ widths s d, 0 ≤ x := by
  intro x hx
  obtain ⟨n, -, rfl⟩ := List.mem_map.mp hx
  exact (nonneg.nodeSize_nonneg n).1

/-- Participants stand one after the other, from left to right. -/
theorem participants_eq (s : Settings Rat) (d : Diagram) :
    participants s d = d.nodes.zipIdx.map fun (n, i) =>
      { id := n.id
        rank := 0
        order := i
        rect :=
          { x := Scalar.offset s.columnGap 0 ((widths s d).take i)
            y := 0
            width := (s.nodeSize n).width
            height := header (d.nodes.map s.nodeSize) } } := by
  rw [participants, Layout.zip_nodeSize, List.zipIdx_map, List.map_map]
  simp only [← List.map_take, widths, List.map_map]
  rfl

/-- The boxes stand at the top and are as high as their row. -/
theorem rect_of_mem {p : PlacedNode Rat} (hp : p ∈ participants s d) :
    p.rect.y = 0 ∧ p.rect.bottom = header (d.nodes.map s.nodeSize) := by
  rw [participants_eq] at hp
  obtain ⟨⟨n, i⟩, -, rfl⟩ := List.mem_map.mp hp
  exact ⟨rfl, zero_add _⟩

/-- A box begins at least one gap behind the end of every box before it. -/
theorem pairwise_participants (nonneg : s.Nonneg) :
    (participants s d).Pairwise fun p q => p.rect.right + s.columnGap ≤ q.rect.x := by
  rw [participants_eq, List.pairwise_iff_getElem]
  intro i j hi hj hij
  have hi : i < (widths s d).length := by simpa [widths] using hi
  have hbehind : (widths s d).take i ++ [(widths s d)[i]] <+: (widths s d).take j := by
    rw [← List.take_succ_eq_append_getElem hi]
    exact List.take_prefix_take_left hij
  have hle : Scalar.offset s.columnGap 0 ((widths s d).take i) + (widths s d)[i] + s.columnGap ≤
      Scalar.offset s.columnGap 0 ((widths s d).take j) :=
    Scalar.offset_add_le nonneg.columnGap hbehind fun x hx =>
      widths_nonneg nonneg x (List.mem_of_mem_take hx)
  simp only [List.getElem_map, List.getElem_zipIdx, Nat.zero_add, Rect.right_eq]
  simpa [widths] using hle

/-! ### Messages -/

/-- Messages lie at multiples of their spacing. -/
theorem messageY_eq (s : Settings Rat) (top : Rat) (i : Nat) :
    messageY s top i = top + ((i : Rat) + 1) * s.messageSpacing := by
  have hcast : (Scalar.ofNat (i + 1) : Rat) = (i : Rat) + 1 := Nat.cast_succ i
  rw [← hcast]
  rfl

theorem lt_messageY (hspacing : 0 < s.messageSpacing) (top : Rat) (i : Nat) :
    top < messageY s top i := by
  have hpos : 0 < ((i : Rat) + 1) * s.messageSpacing :=
    mul_pos (by positivity) hspacing
  rw [messageY_eq]
  linarith

/-- The detour of a message to its own participant ends above the next message. -/
theorem messageY_add_lt (hspacing : 0 < s.messageSpacing) (top : Rat) {i j : Nat} (hij : i < j) :
    messageY s top i + s.messageSpacing / 2 < messageY s top j := by
  have hsucc : (i : Rat) + 1 ≤ j := by exact_mod_cast hij
  have hmul := mul_le_mul_of_nonneg_right hsucc hspacing.le
  rw [messageY_eq, messageY_eq]
  linarith

/-- A message to oneself reaches half a spacing down. -/
theorem y_of_mem_selfRoute {y : Rat} {r : Rect Rat} {u : Point Rat} (hu : u ∈ selfRoute s y r) :
    u.y = y ∨ u.y = y + s.messageSpacing / 2 := by
  simp only [selfRoute, List.mem_cons, List.not_mem_nil, or_false] at hu
  rcases hu with rfl | rfl | rfl | rfl
  · exact .inl rfl
  · exact .inl rfl
  · exact .inr rfl
  · exact .inr rfl

/-- A message is level. -/
theorem y_of_mem_route {y : Rat} {a b : Rect Rat} {u : Point Rat} (hu : u ∈ route y a b) :
    u.y = y := by
  simp only [route, List.mem_cons, List.not_mem_nil, or_false] at hu
  rcases hu with rfl | rfl <;> rfl

/-- A message keeps within half a spacing below its own height. -/
theorem y_of_mem_points (hspacing : 0 < s.messageSpacing) {nodes : List (PlacedNode Rat)}
    {y : Rat} {e : Edge} {u : Point Rat}
    (hu : u ∈ (Layout.route nodes (selfRoute s y) (route y) e).points) :
    y ≤ u.y ∧ u.y ≤ y + s.messageSpacing / 2 := by
  have hy : u.y = y ∨ u.y = y + s.messageSpacing / 2 := by
    unfold Layout.route at hu
    dsimp only at hu
    split at hu
    · split at hu
      · exact y_of_mem_selfRoute hu
      · exact .inl (y_of_mem_route hu)
    · cases hu
  rcases hy with hy | hy <;> rw [hy] <;> constructor <;> linarith

/-- Messages keep below the boxes and above the height that one more message would have. -/
theorem y_of_mem_messages (hspacing : 0 < s.messageSpacing) {r : RoutedEdge Rat}
    (hr : r ∈ (Timeline.layout s d).edges) {u : Point Rat} (hu : u ∈ r.points) :
    header (d.nodes.map s.nodeSize) < u.y ∧
      u.y < messageY s (header (d.nodes.map s.nodeSize)) d.edges.length := by
  obtain ⟨⟨e, i⟩, he, rfl⟩ := List.mem_map.mp hr
  obtain ⟨hlow, hhigh⟩ := y_of_mem_points hspacing hu
  have hfirst := lt_messageY hspacing (header (d.nodes.map s.nodeSize)) i
  have hlast := messageY_add_lt hspacing (header (d.nodes.map s.nodeSize))
    (List.snd_lt_of_mem_zipIdx he)
  exact ⟨hfirst.trans_le hlow, hhigh.trans_lt hlast⟩

/-- All of a message is drawn above all of every later one. -/
theorem pairwise_messages (hspacing : 0 < s.messageSpacing) (d : Diagram) :
    (Timeline.layout s d).edges.Pairwise fun r r' =>
      ∀ u ∈ r.points, ∀ v ∈ r'.points, u.y < v.y := by
  rw [List.pairwise_iff_getElem]
  intro i j hi hj hij u hu v hv
  simp only [Timeline.layout, List.getElem_map, List.getElem_zipIdx, Nat.zero_add] at hu hv
  calc
    u.y ≤ messageY s (header (d.nodes.map s.nodeSize)) i + s.messageSpacing / 2 :=
      (y_of_mem_points hspacing hu).2
    _ < messageY s (header (d.nodes.map s.nodeSize)) j := messageY_add_lt hspacing _ hij
    _ ≤ v.y := (y_of_mem_points hspacing hv).1

/-- A message between two participants begins under the middle of one box and ends under the middle
of the other, which is the same for a message of a participant to itself. -/
theorem ends_of_find? {nodes : List (PlacedNode Rat)} {y : Rat} {e : Edge}
    {a b : PlacedNode Rat} (ha : Layout.find? nodes e.source = some a)
    (hb : Layout.find? nodes e.target = some b) :
    ∃ u v, (Layout.route nodes (selfRoute s y) (route y) e).points.head? = some u ∧
      (Layout.route nodes (selfRoute s y) (route y) e).points.getLast? = some v ∧
      u.x = a.rect.center.x ∧ v.x = b.rect.center.x := by
  unfold Layout.route
  rw [ha, hb]
  dsimp only
  split
  · rename_i hself
    have hsame : b = a := by
      rw [← beq_iff_eq.mp hself, ha] at hb
      exact (Option.some.inj hb).symm
    exact ⟨_, _, rfl, rfl, rfl, hsame ▸ rfl⟩
  · exact ⟨_, _, rfl, rfl, rfl, rfl⟩

end Timeline

namespace Layout

/-- A sequence diagram with distinct participants is drawn as a timeline. -/
theorem timeline_in_sequence (s : Settings Rat) (solid : s.Solid) (hspacing : 0 < s.messageSpacing)
    (d : Diagram) (hd : d.dialect = .sequence) (hids : d.ids.Nodup) :
    (ofDiagram s d).InSequence s d := by
  have follows := follows_ofDiagram s d
  have hlayout : ofDiagram s d = Timeline.layout s d := by rw [ofDiagram, hd]
  have hlifelines := follows.ids_lifelines
  rw [if_pos hd] at hlifelines
  rw [hlayout] at follows hlifelines ⊢
  constructor
  case ids_nodes => exact follows.ids_nodes
  case edge_edges => exact follows.edge_edges
  case level =>
    intro p hp q hq
    obtain ⟨hpy, hpb⟩ := rect_of_mem hp
    obtain ⟨hqy, hqb⟩ := rect_of_mem hq
    exact ⟨hpy.trans hqy.symm, hpb.trans hqb.symm⟩
  case apart => exact pairwise_participants solid.toNonneg
  case lifelines =>
    exact List.forall₂_map_right_iff.mpr (List.forall₂_same.mpr fun _ _ => ⟨rfl, rfl, rfl⟩)
  case ids_lifelines_nodup =>
    rw [hlifelines]
    exact hids
  case ends =>
    intro r hr hresolved
    obtain ⟨⟨e, i⟩, -, rfl⟩ := List.mem_map.mp hr
    obtain ⟨hsource, htarget⟩ := Diagram.hasNode_of_mem_resolvedEdges hresolved
    rw [edge_route, ← isSome_find? (ids_participants s d)] at hsource htarget
    obtain ⟨a, ha⟩ := Option.isSome_iff_exists.mp hsource
    obtain ⟨b, hb⟩ := Option.isSome_iff_exists.mp htarget
    obtain ⟨u, v, hhead, hlast, hu, hv⟩ := ends_of_find? (s := s) ha hb
    refine ⟨u, v, _, _, hhead, hlast, List.mem_map_of_mem (List.mem_of_find?_eq_some ha),
      beq_iff_eq.mp (List.find?_some ha :), hu, List.mem_map_of_mem (List.mem_of_find?_eq_some hb),
      beq_iff_eq.mp (List.find?_some hb :), hv⟩
  case within =>
    intro r hr u hu f hf
    obtain ⟨p, hp, rfl⟩ := List.mem_map.mp hf
    obtain ⟨hlow, hhigh⟩ := y_of_mem_messages hspacing hr hu
    refine ⟨?_, hhigh⟩
    dsimp only
    rwa [(rect_of_mem hp).2]
  case ordered => exact pairwise_messages hspacing d

/-- Two participants who talk to each other and to themselves, and to one who is not there. -/
def chat : Diagram where
  dialect := .sequence
  nodes := [.bare "Ann", { id := "Bob", label := "Bob\nthe builder" }]
  edges :=
    [{ source := "Ann", target := "Bob" }, { source := "Bob", target := "Bob" },
      { source := "Bob", target := "Cyd" }, { source := "Bob", target := "Ann" }]

/-- The layout of `chat`. -/
theorem chat_in_sequence :
    (.standard : Settings Rat).Solid ∧ (0 : Rat) < (.standard : Settings Rat).messageSpacing ∧
      chat.dialect = .sequence ∧ chat.ids.Nodup ∧
      (ofDiagram (.standard : Settings Rat) chat).InSequence .standard chat := by
  have hspacing : (0 : Rat) < (.standard : Settings Rat).messageSpacing := by decide
  have hids : chat.ids.Nodup := by decide
  exact ⟨Settings.solid_standard, hspacing, rfl, hids,
    timeline_in_sequence .standard Settings.solid_standard hspacing chat rfl hids⟩

end Layout

end Whiteboard
