import Whiteboard.Proofs.Scene.Emission

/-!
The shapes of a scene.

A shape `Shows` a node in a box: it is drawn for the node's id, fills the box, and has the colours
of the node's style. In a scene every shape shows the first node with some id in a box of that id
(`shows_of_mem_draw`), and every node has a shape (`exists_shape`). Neither reconciling nor giving
ids to the elements changes any of it.
-/

namespace Whiteboard

variable {ι κ α : Type}

/-- The shape of a node in a box, in the colours of the node's style. -/
structure Element.Shows (x : Element ι α) (m : Node) (box : Rect α) : Prop where
  role_eq : x.role = .shape
  owner_eq : x.owner = some m.id
  rect_eq : x.rect = box
  stroke_eq : x.stroke = (Palette.ofStyle m.style).stroke
  background_eq : x.background = (Palette.ofStyle m.style).background

namespace Outline

variable [Scalar α] {s : Settings α} {d : Diagram} {n : Nat} {e : Element Nat α}

/-! ### What groups contribute -/

theorem isArrow_of_mem_node {p : PlacedNode α} (he : e ∈ node s d p n) : e.isArrow = false := by
  obtain ⟨m, -, ⟨i, role, -, hfigure⟩ | ⟨rect, align, rfl⟩⟩ := mem_node_cases he
  · exact (Element.fields_of_isFigure hfigure.isFigure).2.1
  · rfl

/-- The shape drawn for a node shows it in its box. -/
theorem shows_of_mem_node {p : PlacedNode α} (he : e ∈ node s d p n) (hrole : e.role = .shape) :
    ∃ m, d.node? p.id = some m ∧ e.Shows m p.rect := by
  unfold node at he
  cases hm : d.node? p.id with
  | none =>
      rw [hm] at he
      cases he
  | some m =>
      rw [hm] at he
      refine ⟨m, rfl, ?_⟩
      rcases List.mem_append.mp he with he | he
      · rcases List.mem_pair.mp he with rfl | rfl
        · exact ⟨rfl, rfl, rfl, rfl, rfl⟩
        · cases hrole
      · split at he
        · rw [List.mem_singleton.mp he] at hrole
          cases hrole
        · cases he

/-! ### The whole outline -/

variable {l : Layout α}

/-- What an outline draws in a role of nodes belongs to the group of a box. -/
theorem mem_node_of_isOfNode (he : e ∈ shapes s d l ++ lines s d l)
    (hrole : e.role.isOfNode = true) : ∃ p ∈ l.nodes, ∃ n, e ∈ node s d p n := by
  have hnot : ¬ e.role.isOfNode = false := by simp [hrole]
  rcases mem_outline_cases s d l he with
    ⟨f, -, n, hn⟩ | hnode | ⟨i, -, n, hn⟩ | ⟨r, -, n, hn⟩
  · exact absurd (fields_of_mem_frame hn).1 hnot
  · exact hnode
  · exact absurd (fields_of_mem_lifeline hn).1 hnot
  · exact absurd (role_of_mem_connector hn) hnot

/-- A shape in an outline shows a node in its box. -/
theorem shows_of_mem_outline (he : e ∈ shapes s d l ++ lines s d l) (hrole : e.role = .shape) :
    ∃ p ∈ l.nodes, ∃ m, d.node? p.id = some m ∧ e.Shows m p.rect := by
  obtain ⟨p, hp, n, hn⟩ := mem_node_of_isOfNode he (by rw [hrole]; rfl)
  exact ⟨p, hp, shows_of_mem_node hn hrole⟩

/-- An arrow in an outline belongs to an edge. -/
theorem connector_of_isArrow (he : e ∈ shapes s d l ++ lines s d l) (harrow : e.isArrow = true) :
    ∃ r ∈ l.edges, ∃ n, e ∈ connector s d.dialect (shapes s d l) r n := by
  have hnot : ¬ e.isArrow = false := by simp [harrow]
  rcases mem_outline_cases s d l he with
    ⟨f, -, n, hn⟩ | ⟨p, -, n, hn⟩ | ⟨i, -, n, hn⟩ | hconnector
  · exact absurd (fields_of_mem_frame hn).2 hnot
  · exact absurd (isArrow_of_mem_node hn) hnot
  · exact absurd (fields_of_mem_lifeline hn).2 hnot
  · exact hconnector

end Outline

/-! ### The scene -/

namespace Scene

variable [Scalar α] {g : Generator} {s : Settings α} {d : Diagram} {l : Layout α}

/-- The elements of a scene are those of its outline, reconciled and given ids. -/
theorem mem_elements_draw {f : Nat → String}
    (helements : (draw g s d l).elements = (Outline.draw s d l).map (Element.map f))
    {x : Element String α} :
    x ∈ (draw g s d l).elements ↔
      ∃ e ∈ Outline.shapes s d l ++ Outline.lines s d l,
        x = (Element.reconciled (Outline.shapes s d l ++ Outline.lines s d l) e).map f := by
  rw [helements, Outline.draw_eq, Element.reconcile_eq_map, List.map_map, List.mem_map]
  simp only [Function.comp_apply, eq_comm]

/-- A shape in a scene shows a node in its box. -/
theorem shows_of_mem_draw {x : Element String α} (hx : x ∈ (draw g s d l).elements)
    (hrole : x.role = .shape) : ∃ p ∈ l.nodes, ∃ m, d.node? p.id = some m ∧ x.Shows m p.rect := by
  obtain ⟨f, -, helements⟩ := elements_draw g s d l
  obtain ⟨e, he, rfl⟩ := (mem_elements_draw helements).mp hx
  obtain ⟨p, hp, m, hm, shows⟩ := Outline.shows_of_mem_outline he hrole
  exact ⟨p, hp, m, hm, shows.role_eq, shows.owner_eq, shows.rect_eq, shows.stroke_eq,
    shows.background_eq⟩

/-- There is a shape for every node. -/
theorem exists_shape (follows : l.Follows d) {id : String} (h : d.hasNode id = true) :
    ∃ x ∈ (draw g s d l).elements, x.role = .shape ∧ x.owner = some id := by
  obtain ⟨f, -, helements⟩ := elements_draw g s d l
  obtain ⟨i, hi⟩ := Option.isSome_iff_exists.mp (Outline.isSome_shapeOf? s follows h)
  obtain ⟨e, he, -, hrole, howner⟩ := Outline.shapeOf?_eq_some hi
  exact ⟨_, (mem_elements_draw helements).mpr ⟨e, List.mem_append_left _ he, rfl⟩, hrole, howner⟩

end Scene

end Whiteboard
