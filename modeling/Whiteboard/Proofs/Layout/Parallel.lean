import Mathlib.Data.Finset.Dedup
import Whiteboard.Proofs.Layout.Grid
import Whiteboard.Proofs.Layout.Routing

/-!
Relationships between the same two entities.

Routes between the same boxes are lines next to each other, and the same line only if they are
shifted equally far (`toFinset_between_inj`), whichever way they run (`between_swap`). An edge is
shifted by its position among all relationships of the diagram, and the shifts repeat after three
(`lateral_inj`). So two relationships between the same two entities are drawn on the same line
exactly if their positions have the same remainder by three (`same_line_iff`): three that follow one
another keep apart, but two with two others between them do not (`depot_overlaps`).
-/

namespace Whiteboard

namespace Route

/-! ### Shifted routes -/

/-- Which sides a route joins does not depend on how far it is shifted. -/
theorem between_eq_shifted (a b : Rect Rat) :
    (∃ u v, ∀ lateral, between a b lateral =
      [⟨u, a.center.y + lateral⟩, ⟨v, b.center.y + lateral⟩]) ∨
    (∃ u v, ∀ lateral, between a b lateral =
      [⟨a.center.x + lateral, u⟩, ⟨b.center.x + lateral, v⟩]) := by
  obtain ⟨u, v, -, joins⟩ := between_joins a b 0
  cases joins with
  | rightward h => exact .inl ⟨_, _, fun lateral => (Joins.rightward h).between_eq⟩
  | leftward h => exact .inl ⟨_, _, fun lateral => (Joins.leftward h).between_eq⟩
  | downward h => exact .inr ⟨_, _, fun lateral => (Joins.downward h).between_eq⟩
  | upward h hlt => exact .inr ⟨_, _, fun lateral => (Joins.upward h hlt).between_eq⟩

/-- Routes between the same boxes have the same ends only if they are shifted equally far. -/
theorem toFinset_between_inj (a b : Rect Rat) {k l : Rat} :
    (between a b k).toFinset = (between a b l).toFinset ↔ k = l := by
  -- An end of the one is an end of the other; if it is the opposite one, so is the other end.
  have hsame : ∀ {x y : Rat}, (k = l ∨ x + k = y + l) → (y + k = x + l ∨ k = l) → k = l := by
    rintro x y (h | h) (h' | h') <;> linarith
  constructor
  · intro h
    have hmem : ∀ p ∈ between a b k, p ∈ between a b l := by
      intro p hp
      rw [← List.mem_toFinset, ← h, List.mem_toFinset]
      exact hp
    rcases between_eq_shifted a b with ⟨u, v, heq⟩ | ⟨u, v, heq⟩
    · rw [heq, heq] at hmem
      simp only [List.mem_cons, List.not_mem_nil, or_false, forall_eq_or_imp, forall_eq,
        Point.mk.injEq, add_right_inj, true_and] at hmem
      exact hsame (hmem.1.imp_right And.right) (hmem.2.imp_left And.right)
    · rw [heq, heq] at hmem
      simp only [List.mem_cons, List.not_mem_nil, or_false, forall_eq_or_imp, forall_eq,
        Point.mk.injEq, add_right_inj, and_true] at hmem
      exact hsame (hmem.1.imp_right And.left) (hmem.2.imp_left And.left)
  · rintro rfl
    rfl

/-- The sideways shifts repeat after three edges. -/
theorem lateral_inj {offset : Rat} (hoffset : offset ≠ 0) {i j : Nat} :
    lateral i offset = lateral j offset ↔ i % 3 = j % 3 := by
  have hneg : offset ≠ -offset := fun h => hoffset (by linarith)
  have hcases : ∀ i, i % 3 = 0 ∧ lateral i offset = 0 ∨ i % 3 = 1 ∧ lateral i offset = -offset ∨
      i % 3 = 2 ∧ lateral i offset = offset := by
    intro i
    obtain h | h | h : i % 3 = 0 ∨ i % 3 = 1 ∨ i % 3 = 2 := by omega
    · exact .inl ⟨h, by simp only [lateral, h]⟩
    · exact .inr (.inl ⟨h, by simp only [lateral, h]⟩)
    · exact .inr (.inr ⟨h, by simp only [lateral, h]⟩)
  rcases hcases i with ⟨hi, hx⟩ | ⟨hi, hx⟩ | ⟨hi, hx⟩ <;>
    rcases hcases j with ⟨hj, hy⟩ | ⟨hj, hy⟩ | ⟨hj, hy⟩ <;>
    rw [hi, hj, hx, hy] <;> simp [hoffset, hneg, hneg.symm, eq_comm]

end Route

/-- The edge joins two nodes, in one direction or the other. -/
def Edge.joins (e : Edge) (a b : String) : Bool :=
  e.source == a && e.target == b || e.source == b && e.target == a

/-- The ends of the line an edge is drawn on. -/
def RoutedEdge.ends (r : RoutedEdge Rat) : Finset (Point Rat) :=
  r.points.toFinset

namespace Layout

variable {s : Settings Rat} {d : Diagram}

/-! ### Entities -/

/-- Entities that do not share a slot do not share a centre. -/
theorem Gridded.center_ne {l : Layout Rat} (gridded : l.Gridded s d) (hgap : 0 < s.gridGap)
    (hsizes : ∀ p ∈ l.nodes, 0 ≤ p.rect.width ∧ 0 ≤ p.rect.height) {p q : PlacedNode Rat}
    (hp : p ∈ l.nodes) (hq : q ∈ l.nodes) (hne : p ≠ q) : p.rect.center ≠ q.rect.center := by
  have hbeside : ∀ {p q : PlacedNode Rat}, p ∈ l.nodes → q ∈ l.nodes → p.order < q.order →
      p.rect.center.x < q.rect.center.x := by
    intro p q hp hq h
    have hle := gridded.beside p hp q hq h
    rw [Rect.right_eq] at hle
    rw [Rect.center_x, Rect.center_x]
    linarith [(hsizes p hp).1, (hsizes q hq).1]
  have hbelow : ∀ {p q : PlacedNode Rat}, p ∈ l.nodes → q ∈ l.nodes → p.rank < q.rank →
      p.rect.center.y < q.rect.center.y := by
    intro p q hp hq h
    have hle := gridded.below p hp q hq h
    rw [Rect.bottom_eq] at hle
    rw [Rect.center_y, Rect.center_y]
    linarith [(hsizes p hp).2, (hsizes q hq).2]
  intro hcenter
  rcases Nat.lt_trichotomy p.order q.order with h | horder | h
  · exact absurd (congrArg Point.x hcenter) (hbeside hp hq h).ne
  · rcases Nat.lt_trichotomy p.rank q.rank with h | hrank | h
    · exact absurd (congrArg Point.y hcenter) (hbelow hp hq h).ne
    · exact hne (List.inj_on_of_nodup_map gridded.slots_nodup hp hq (Prod.ext hrank horder))
    · exact absurd (congrArg Point.y hcenter) (hbelow hq hp h).ne'
  · exact absurd (congrArg Point.x hcenter) (hbeside hq hp h).ne'

/-- The boxes of two different entities do not share a centre. -/
theorem center_ne_of_find? (hd : d.dialect = .entityRelation) (solid : s.Solid)
    (hgap : 0 < s.gridGap) {a b : String} (hab : a ≠ b) {p q : PlacedNode Rat}
    (hp : find? (ofDiagram s d).nodes a = some p) (hq : find? (ofDiagram s d).nodes b = some q) :
    p.rect.center ≠ q.rect.center := by
  have hsizes : ∀ p ∈ (ofDiagram s d).nodes, 0 ≤ p.rect.width ∧ 0 ≤ p.rect.height := by
    intro p hp
    obtain ⟨n, -, hwidth, hheight⟩ := size_ofDiagram (by rw [hd]; decide) hp
    rw [hwidth, hheight]
    exact solid.nodeSize_nonneg n
  have hne : p ≠ q := by
    rintro rfl
    exact hab ((beq_iff_eq.mp (List.find?_some hp :)).symm.trans
      (beq_iff_eq.mp (List.find?_some hq :)))
  exact (gridded_grid solid.toNonneg hd).center_ne hgap hsizes (List.mem_of_find?_eq_some hp)
    (List.mem_of_find?_eq_some hq) hne

/-! ### Relationships -/

/-- A relationship between two entities is drawn on the line between their boxes, shifted by its
position. -/
theorem ends_eq (hd : d.dialect = .entityRelation) {a b : String} (hab : a ≠ b)
    {p q : PlacedNode Rat} (hp : find? (ofDiagram s d).nodes a = some p)
    (hq : find? (ofDiagram s d).nodes b = some q) (hne : p.rect.center ≠ q.rect.center) {i : Nat}
    {r : RoutedEdge Rat} (hr : (ofDiagram s d).edges[i]? = some r)
    (hjoins : r.edge.joins a b = true) :
    r.ends = (Route.between p.rect q.rect (Route.lateral i s.edgeOffset)).toFinset := by
  have hlayout : ofDiagram s d = Grid.layout s d := by rw [ofDiagram, hd]
  rw [hlayout] at hp hq hr
  dsimp only [Grid.layout] at hr hp hq
  rw [List.getElem?_map, List.getElem?_zipIdx, Option.map_map, Option.map_eq_some_iff] at hr
  obtain ⟨e, -, rfl⟩ := hr
  simp only [Function.comp_apply, Nat.zero_add, edge_route] at hjoins ⊢
  simp only [Edge.joins, Bool.or_eq_true, Bool.and_eq_true, beq_iff_eq] at hjoins
  unfold RoutedEdge.ends route Edge.isSelfLoop
  rcases hjoins with ⟨hsource, htarget⟩ | ⟨hsource, htarget⟩
  · rw [hsource, htarget, hp, hq]
    simp only [beq_eq_false_iff_ne.mpr hab, Bool.false_eq_true, if_false]
  · rw [hsource, htarget, hp, hq]
    simp only [beq_eq_false_iff_ne.mpr hab.symm, Bool.false_eq_true, if_false]
    rw [Route.between_swap hne, List.toFinset_reverse]

/-- Two relationships between the same two entities, whichever way they lead, are drawn on the same
line exactly if their positions among all relationships have the same remainder by three. -/
theorem same_line_iff (d : Diagram) (hd : d.dialect = .entityRelation) {a b : String}
    (ha : d.hasNode a = true) (hb : d.hasNode b = true) (hab : a ≠ b) :
    let l := ofDiagram (.standard : Settings Rat) d
    ∀ i r, l.edges[i]? = some r → r.edge.joins a b = true →
      ∀ j r', l.edges[j]? = some r' → r'.edge.joins a b = true →
        (r.ends = r'.ends ↔ i % 3 = j % 3) := by
  intro l i r hr hjoins j r' hr' hjoins'
  have follows := follows_ofDiagram (.standard : Settings Rat) d
  rw [← isSome_find? follows.ids_nodes] at ha hb
  obtain ⟨p, hp⟩ := Option.isSome_iff_exists.mp ha
  obtain ⟨q, hq⟩ := Option.isSome_iff_exists.mp hb
  have hne := center_ne_of_find? hd Settings.solid_standard (show (0 : Rat) < 120 by decide) hab
    hp hq
  rw [ends_eq hd hab hp hq hne hr hjoins, ends_eq hd hab hp hq hne hr' hjoins',
    Route.toFinset_between_inj]
  exact Route.lateral_inj (show (12 : Rat) ≠ 0 by decide)

/-- Two pairs of entities, the first with a relationship before and one behind those of the second.
-/
def depot : Diagram where
  dialect := .entityRelation
  nodes := [.bare "A", .bare "B", .bare "C", .bare "D"]
  edges :=
    [{ source := "A", target := "B" }, { source := "C", target := "D" },
      { source := "C", target := "D" }, { source := "B", target := "A" }]

/-- Its first relationship and its last are drawn on the same line, in opposite directions. -/
theorem depot_same_line :
    let l := ofDiagram (.standard : Settings Rat) depot
    let first : RoutedEdge Rat := ⟨{ source := "A", target := "B" }, [⟨120, 30⟩, ⟨240, 30⟩]⟩
    let last : RoutedEdge Rat := ⟨{ source := "B", target := "A" }, [⟨240, 30⟩, ⟨120, 30⟩]⟩
    depot.dialect = .entityRelation ∧ depot.hasNode "A" = true ∧ depot.hasNode "B" = true ∧
      l.edges[0]? = some first ∧ first.edge.joins "A" "B" = true ∧
      l.edges[3]? = some last ∧ last.edge.joins "A" "B" = true ∧ first.ends = last.ends := by
  intro l first last
  have hfirst : l.edges[0]? = some first := by decide +kernel
  have hlast : l.edges[3]? = some last := by decide +kernel
  refine ⟨rfl, by decide, by decide, hfirst, by decide, hlast, by decide, ?_⟩
  have hiff := same_line_iff depot rfl (show depot.hasNode "A" = true by decide)
    (show depot.hasNode "B" = true by decide) (by decide) 0 first hfirst (by decide) 3 last hlast
    (by decide)
  exact hiff.mpr rfl

/-- Of at most three relationships between two different entities no two are drawn on the same line.
-/
def ParallelsApart (d : Diagram) (l : Layout Rat) : Prop :=
  ∀ a b, d.hasNode a = true → d.hasNode b = true → a ≠ b →
    (l.edges.filter (·.edge.joins a b)).length ≤ 3 →
      (l.edges.filter (·.edge.joins a b)).Pairwise fun r r' => r.ends ≠ r'.ends

/-- With two relationships of another pair between them, the two relationships of the first pair are
given the same shift. -/
theorem depot_overlaps :
    depot.dialect = .entityRelation ∧ depot.ids.Nodup ∧
      ¬ ParallelsApart depot (ofDiagram (.standard : Settings Rat) depot) := by
  refine ⟨rfl, by decide, fun apart => ?_⟩
  have hfilter : (ofDiagram (.standard : Settings Rat) depot).edges.filter
      (·.edge.joins "A" "B") =
        [⟨{ source := "A", target := "B" }, [⟨120, 30⟩, ⟨240, 30⟩]⟩,
          ⟨{ source := "B", target := "A" }, [⟨240, 30⟩, ⟨120, 30⟩]⟩] := by
    decide +kernel
  have hpair := apart "A" "B" (by decide) (by decide) (by decide)
  rw [hfilter] at hpair
  have hne := List.pairwise_pair.mp (hpair (by decide))
  exact hne (by decide +kernel)

end Layout

end Whiteboard
