import Whiteboard.Proofs.Diagram.Records
import Whiteboard.Proofs.Scene.Shape

/-!
What a scene draws for a node.

The figures of a node are the elements drawn for its id. In an outline they are the group of the
node's box and nothing else, if no other node has the id (`filter_outline`). So a scene draws for
each node a shape, its label, and for an entity with attributes the line under its name, all of them
placed by the box of the node (`exists_figures`).
-/

namespace Whiteboard

variable {ι κ α : Type}

def Element.isOf (id : String) (e : Element ι α) : Bool :=
  e.role.isOfNode && e.owner == some id

theorem Element.isOf_eq_false {e : Element ι α} (h : e.role.isOfNode = false) (id : String) :
    e.isOf id = false := by
  rw [isOf, h, Bool.false_and]

/-- What is drawn for a node is told by its owner. -/
theorem Element.isOf_eq {e : Element ι α} {owner : String} (hrole : e.role.isOfNode = true)
    (howner : e.owner = some owner) (id : String) : e.isOf id = (owner == id) := by
  rw [isOf, hrole, howner, Bool.true_and]
  rfl

namespace Outline

/-! ### Filtered groups -/

/-- Groups without an element of a kind have none of it together. -/
theorem filter_assemble_eq_nil {q : Element Nat α → Bool} {gs : List (Group α)}
    (h : ∀ g ∈ gs, ∀ n, ∀ e ∈ g n, q e = false) (n : Nat) : (assemble n gs).filter q = [] := by
  rw [List.filter_eq_nil_iff]
  intro e he
  obtain ⟨g, hg, m, hm⟩ := mem_assemble he
  exact Bool.eq_false_iff.mp (h g hg m e hm)

/-- Of some groups, what only one of them has is left of that one. -/
theorem filter_assemble {q : Element Nat α → Bool} {before after : List (Group α)} {g : Group α}
    (h : ∀ g' ∈ before ++ after, ∀ n, ∀ e ∈ g' n, q e = false) (n : Nat) :
    ∃ m, (assemble n (before ++ g :: after)).filter q = (g m).filter q := by
  refine ⟨n + (assemble n before).length, ?_⟩
  have hbefore := filter_assemble_eq_nil (fun g' hg' => h g' (List.mem_append_left after hg')) n
  have hafter := filter_assemble_eq_nil fun g' hg' => h g' (List.mem_append_right before hg')
  rw [assemble_append, assemble, List.filter_append, List.filter_append, hbefore, hafter,
    List.nil_append, List.append_nil]

variable [Scalar α] {s : Settings α} {d : Diagram} {n : Nat} {e : Element Nat α}

/-- All of a group for a node is drawn for the id of its box. -/
theorem isOf_of_mem_node {p : PlacedNode α} (he : e ∈ node s d p n) (id : String) :
    e.isOf id = (p.id == id) := by
  obtain ⟨m, hm, ⟨i, role, hrole, hfigure⟩ | ⟨rect, align, rfl⟩⟩ := mem_node_cases he
  · have hnode : e.role.isOfNode = true := by
      rw [hfigure.role_eq]
      rcases hrole with rfl | rfl <;> rfl
    rw [← Diagram.id_of_node? hm]
    exact Element.isOf_eq hnode hfigure.owner_eq id
  · rw [← Diagram.id_of_node? hm]
    exact Element.isOf_eq rfl rfl id

variable {l : Layout α}

/-- Where ids are distinct, what an outline draws for the id of a box is the group of the box. -/
theorem filter_outline (hids : (l.nodes.map (·.id)).Nodup) {p : PlacedNode α} (hp : p ∈ l.nodes) :
    ∃ m, (shapes s d l ++ lines s d l).filter (Element.isOf p.id) = node s d p m := by
  obtain ⟨before, after, hsplit⟩ := List.append_of_mem hp
  have hne : ∀ q ∈ before ++ after, q.id ≠ p.id := by
    have hperm : (p :: (before ++ after)).Perm l.nodes := hsplit ▸ List.perm_middle.symm
    have hcons := (hperm.map (·.id)).nodup_iff.mpr hids
    intro q hq hid
    exact (List.nodup_cons.mp hcons).1 (List.mem_map.mpr ⟨q, hq, hid⟩)
  have hlines : (lines s d l).filter (Element.isOf p.id) = [] := by
    refine filter_assemble_eq_nil (fun g hg n e he => Element.isOf_eq_false ?_ p.id) _
    rcases List.mem_append.mp hg with hg | hg
    · obtain ⟨f, -, rfl⟩ := List.mem_map.mp hg
      exact (fields_of_mem_lifeline he).1
    · obtain ⟨r, -, rfl⟩ := List.mem_map.mp hg
      exact role_of_mem_connector he
  have hgroups : l.frames.map (frame s d) ++ l.nodes.map (node s d) =
      (l.frames.map (frame s d) ++ before.map (node s d)) ++
        node s d p :: after.map (node s d) := by
    rw [hsplit, List.map_append, List.map_cons, List.append_assoc]
  have hothers : ∀ g ∈ (l.frames.map (frame s d) ++ before.map (node s d)) ++
      after.map (node s d), ∀ n, ∀ e ∈ g n, e.isOf p.id = false := by
    intro g hg n e he
    rw [List.append_assoc, ← List.map_append] at hg
    rcases List.mem_append.mp hg with hg | hg
    · obtain ⟨f, -, rfl⟩ := List.mem_map.mp hg
      exact Element.isOf_eq_false (fields_of_mem_frame he).1 p.id
    · obtain ⟨q, hq, rfl⟩ := List.mem_map.mp hg
      rw [isOf_of_mem_node he, beq_eq_false_iff_ne]
      exact hne q hq
  -- only the group of the box itself is left of all the groups
  obtain ⟨m, hm⟩ := filter_assemble hothers (g := node s d p) 0
  refine ⟨m, ?_⟩
  rw [List.filter_append, hlines, List.append_nil, shapes, hgroups, hm, List.filter_eq_self]
  intro e he
  rw [isOf_of_mem_node he, beq_self_eq_true]

end Outline

namespace Scene

def figures (scene : Scene α) (id : String) : List (Element String α) :=
  scene.elements.filter (Element.isOf id)

/-- A node is drawn as a shape with its label in it, and as lines across the shape. -/
structure Draws (scene : Scene α) (n : Node) (x t : Element String α)
    (zs : List (Element String α)) : Prop where
  figures_eq : scene.figures n.id = x :: t :: zs
  shape_role : x.role = .shape
  shape_body : x.body = n.shape.figure
  label_role : t.role = .nodeLabel
  label_text : t.text? = some n.label
  label_container : t.container? = some x.id
  separator_role : ∀ z ∈ zs, z.role = .separator

/-- The rectangles of the figures of a node, those of its shape and of its label first. -/
theorem Draws.rects {scene : Scene α} {n : Node} {x t : Element String α}
    {zs : List (Element String α)} (draws : scene.Draws n x t zs) {a b : Rect α}
    {rest : List (Rect α)} (h : (scene.figures n.id).map (·.rect) = a :: b :: rest) :
    x.rect = a ∧ t.rect = b ∧ zs.map (·.rect) = rest := by
  rw [draws.figures_eq, List.map_cons, List.map_cons, List.cons.injEq, List.cons.injEq] at h
  exact h

variable [Scalar α] (g : Generator) (s : Settings α) (d : Diagram)

/-- The figures of a node are the group of its box, reconciled and given ids. -/
theorem figures_draw {l : Layout α} (hids : (l.nodes.map (·.id)).Nodup) {p : PlacedNode α}
    (hp : p ∈ l.nodes) :
    ∃ m f es, (draw g s d l).figures p.id =
      (Outline.node s d p m).map fun e => (Element.reconciled es e).map f := by
  obtain ⟨m, hm⟩ := Outline.filter_outline (s := s) (d := d) hids hp
  obtain ⟨f, -, helements⟩ := elements_draw g s d l
  refine ⟨m, f, Outline.shapes s d l ++ Outline.lines s d l, ?_⟩
  rw [figures, helements, Outline.draw_eq, Element.reconcile_eq_map, List.map_map, List.filter_map,
    ← hm]
  rfl

/-- Each node is drawn in a box of its size: its label where labels of such a box are, and a line
only under the first line of several. -/
theorem exists_figures (hids : d.ids.Nodup) {n : Node} (hn : n ∈ d.nodes) :
    ∃ x t zs, (ofDiagram g s d).Draws n x t zs ∧
      x.rect.width = (Layout.boxSize s d n).width ∧
      x.rect.height = (Layout.boxSize s d n).height ∧
      t.rect = Stencil.labelRect s n x.rect ∧
      ∀ z ∈ zs, n.isMultiline = true ∧ z.body = .line [⟨0, 0⟩, ⟨x.rect.width, 0⟩] ∧
        z.rect = ⟨x.rect.x, t.rect.y + s.lineHeight, x.rect.width, 0⟩ := by
  obtain ⟨p, hp, hid, hwidth, hheight⟩ := Layout.exists_box_of_mem s d hn
  have hnodup : ((Layout.ofDiagram s d).nodes.map (·.id)).Nodup := by
    rw [(Layout.follows_ofDiagram s d).ids_nodes]
    exact hids
  obtain ⟨m, f, es, hfigures⟩ := figures_draw g s d hnodup hp
  rw [Outline.node, hid, Diagram.node?_of_mem hids hn] at hfigures
  dsimp only at hfigures
  rw [List.map_append, List.map_cons, List.map_singleton] at hfigures
  refine ⟨_, _, _, ⟨hfigures, rfl, Body.map_figure f n.shape, rfl, rfl, rfl, ?_⟩, hwidth,
    hheight, rfl, ?_⟩
  · intro z hz
    obtain ⟨e, he, rfl⟩ := List.mem_map.mp hz
    split at he
    · rw [List.mem_singleton.mp he]
      rfl
    · cases he
  · intro z hz
    obtain ⟨e, he, rfl⟩ := List.mem_map.mp hz
    split at he
    · rename_i h
      rw [List.mem_singleton.mp he]
      exact ⟨(Bool.and_eq_true_iff.mp h).2, rfl, rfl⟩
    · cases he

/-- Whatever is drawn in a role of nodes is drawn for a node of the diagram. -/
theorem exists_mem_figures {z : Element String α} (hz : z ∈ (ofDiagram g s d).elements)
    (hrole : z.role.isOfNode = true) : ∃ n ∈ d.nodes, z ∈ (ofDiagram g s d).figures n.id := by
  obtain ⟨f, -, helements⟩ := elements_draw g s d (Layout.ofDiagram s d)
  obtain ⟨e, he, rfl⟩ := (mem_elements_draw helements).mp hz
  obtain ⟨p, hp, m, hm⟩ := Outline.mem_node_of_isOfNode he hrole
  obtain ⟨n, hn, hid, -, -⟩ := Layout.exists_node_of_mem s d hp
  have hof : e.isOf n.id = true := by rw [Outline.isOf_of_mem_node hm, hid, beq_self_eq_true]
  exact ⟨n, hn, List.mem_filter.mpr ⟨hz, hof⟩⟩

end Scene

end Whiteboard
