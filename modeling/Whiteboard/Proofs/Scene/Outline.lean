import Whiteboard.Layout.Arrange
import Whiteboard.Proofs.Scene.Linked
import Whiteboard.Scene.Outline

/-!
Outlines are linked.

Each group of an outline is `Tidy`: its elements take the positions from the one it is given on, and
its texts and their containers refer to each other. Groups put behind one another are tidy together
(`tidy_assemble`), so no two elements of an outline share an id. The arrows are bound to shapes
drawn before them (`mem_connector_bindings`), and reconciling makes the rest of the references
(`linked_draw`).
-/

namespace Whiteboard

/-- What is drawn for a node has one of these roles, and nothing else has. -/
def Role.isOfNode : Role → Bool
  | .shape | .nodeLabel | .separator => true
  | .frame | .frameTitle | .lifeline | .connector | .connectorLabel => false

namespace Outline

open Stencil (text labelOf? isVisible)

variable {α : Type}

/-- The ids of some elements are the positions from `n` on. -/
def Placed (n : Nat) (es : List (Element Nat α)) : Prop :=
  es.map (·.id) = List.range' n es.length

/-- Positions are different. -/
theorem Placed.ids_nodup {n : Nat} {es : List (Element Nat α)} (h : Placed n es) :
    (es.map (·.id)).Nodup := by
  rw [h]
  exact List.nodup_range'

/-- Positions lie between the first one and the last. -/
theorem Placed.id_bounds {n : Nat} {es : List (Element Nat α)} (h : Placed n es)
    {e : Element Nat α} (he : e ∈ es) : n ≤ e.id ∧ e.id < n + es.length := by
  have hmem : e.id ∈ List.range' n es.length := by
    rw [← h]
    exact List.mem_map_of_mem he
  exact List.mem_range'_1.mp hmem

/-- Elements placed behind others are placed together with them. -/
theorem Placed.append {n : Nat} {xs ys : List (Element Nat α)} (hx : Placed n xs)
    (hy : Placed (n + xs.length) ys) : Placed n (xs ++ ys) := by
  unfold Placed at hx hy ⊢
  rw [List.map_append, hx, hy, List.length_append, List.range'_append_1]

/-- Elements from a position on, with texts and containers that refer to each other. -/
structure Tidy (n : Nat) (es : List (Element Nat α)) : Prop where
  placed : Placed n es
  labelled : Labelled es

theorem Tidy.nil (n : Nat) : Tidy n ([] : List (Element Nat α)) where
  placed := rfl
  labelled := .nil

/-- Groups that are tidy on their own are so together: no reference leads from one to the other. -/
theorem Tidy.append {n : Nat} {xs ys : List (Element Nat α)} (hx : Tidy n xs)
    (hy : Tidy (n + xs.length) ys) : Tidy n (xs ++ ys) where
  placed := hx.placed.append hy.placed
  labelled := by
    refine hx.labelled.append hy.labelled fun x hx' y hy' hxy => ?_
    have h₁ := hx.placed.id_bounds hx'
    have h₂ := hy.placed.id_bounds hy'
    omega

/-- Elements at their positions with no references between texts and containers. -/
theorem Tidy.bare {n : Nat} {es : List (Element Nat α)} (placed : Placed n es)
    (h : ∀ e ∈ es, e.bound = [] ∧ e.container? = none) : Tidy n es where
  placed := placed
  labelled := by
    constructor
    case text_reference_iff =>
      intro e he id
      rw [(h e he).1]
      constructor
      · intro hmem
        cases hmem
      · rintro ⟨t, ht, -, hc⟩
        rw [(h t ht).2] at hc
        cases hc
    case container_mem =>
      intro t ht id hc
      rw [(h t ht).2] at hc
      cases hc
    case kind_eq_text =>
      intro e he r hr
      rw [(h e he).1] at hr
      cases hr
    case references_nodup =>
      intro e he
      rw [(h e he).1]
      exact List.nodup_nil

/-- An element at its position with the text it contains. -/
theorem Tidy.pair {n : Nat} {e t : Element Nat α} (hid : e.id = n)
    (hbound : e.bound = [{ id := n + 1, kind := .text }]) (hcontainer : e.container? = none)
    (htid : t.id = n + 1) (htbound : t.bound = []) (htcontainer : t.container? = some n) :
    Tidy n [e, t] where
  placed := by simp [Placed, hid, htid, List.range'_succ]
  labelled := by
    constructor
    case text_reference_iff =>
      simp [hid, hbound, hcontainer, htid, htbound, htcontainer]
      exact fun id => eq_comm
    all_goals simp [hid, hbound, hcontainer, htbound, htcontainer]

theorem mem_assemble {gs : List (Group α)} {n : Nat} {e : Element Nat α}
    (h : e ∈ assemble n gs) : ∃ g ∈ gs, ∃ m, e ∈ g m := by
  induction gs generalizing n with
  | nil => cases h
  | cons g gs ih =>
      rcases List.mem_append.mp h with h | h
      · exact ⟨g, List.mem_cons_self, n, h⟩
      · obtain ⟨g', hg', m, hm⟩ := ih h
        exact ⟨g', List.mem_cons_of_mem _ hg', m, hm⟩

/-- Groups are assembled one behind the other. -/
theorem assemble_append (gs hs : List (Group α)) (n : Nat) :
    assemble n (gs ++ hs) = assemble n gs ++ assemble (n + (assemble n gs).length) hs := by
  induction gs generalizing n with
  | nil => rfl
  | cons g gs ih =>
      rw [List.cons_append, assemble, assemble, ih, List.length_append, List.append_assoc,
        Nat.add_assoc]

/-- Groups that are tidy at every position are tidy behind one another. -/
theorem tidy_assemble {gs : List (Group α)} (h : ∀ g ∈ gs, ∀ n, Tidy n (g n)) (n : Nat) :
    Tidy n (assemble n gs) := by
  induction gs generalizing n with
  | nil => exact .nil n
  | cons g gs ih =>
      have hgs : ∀ g' ∈ gs, ∀ n, Tidy n (g' n) := fun g' hg' => h g' (List.mem_cons_of_mem g hg')
      exact (h g List.mem_cons_self n).append (ih hgs _)

/-! ### Single elements -/

@[simp] theorem id_text [Scalar α] (s : Settings α) (id : Nat) (content : String) (rect : Rect α)
    (align : Align) (container : Option Nat) (role : Role) (owner : Option String) :
    (text s id content rect align container role owner).id = id := rfl

theorem isFigure_figure (shape : Shape) : (shape.figure : Body Nat α).isFigure = true := by
  cases shape <;> rfl

/-- A shape drawn for a node id. -/
theorem shapeOf?_eq_some {es : List (Element Nat α)} {id : String} {i : Nat}
    (h : shapeOf? es id = some i) :
    ∃ x ∈ es, x.id = i ∧ x.role = .shape ∧ x.owner = some id := by
  obtain ⟨x, hx, rfl⟩ := Option.map_eq_some_iff.mp h
  have hp := List.find?_some hx
  have hmem := List.mem_reverse.mp (List.mem_of_find?_eq_some hx)
  simp only [Bool.and_eq_true, beq_iff_eq] at hp
  exact ⟨x, hmem, rfl, hp.1, hp.2⟩

/-- A figure at a position that refers to nothing. -/
structure IsFigure (n : Nat) (role : Role) (owner : Option String) (e : Element Nat α) : Prop where
  id_eq : e.id = n
  role_eq : e.role = role
  owner_eq : e.owner = owner
  isFigure : e.body.isFigure = true

/-- An arrow at a position, bound to two elements. -/
structure IsConnector (n source target : Nat) (gap : α) (a : Element Nat α) : Prop where
  id_eq : a.id = n
  role_eq : a.role = .connector
  owner_eq : a.owner = none
  isArrow : a.isArrow = true
  bindings_eq : a.bindings = [⟨source, gap⟩, ⟨target, gap⟩]

/-! ### What groups consist of -/

variable [Scalar α]

/-- For a frame that is visible, a rectangle and a title; nothing else. -/
theorem frame_cases (s : Settings α) (d : Diagram) (f : Frame α) (n : Nat) :
    isVisible f.rect = false ∧ frame s d f n = [] ∨
      ∃ a rect, isVisible f.rect = true ∧ IsFigure n .frame (some f.id) a ∧ a.bound = [] ∧
        frame s d f n =
          [a, text s (n + 1) f.label rect .left none .frameTitle (some f.id)] := by
  unfold frame
  cases h : isVisible f.rect with
  | false => exact .inl ⟨rfl, rfl⟩
  | true => exact .inr ⟨_, _, rfl, ⟨rfl, rfl, rfl, rfl⟩, rfl, rfl⟩

/-- For a node of the diagram, a shape that contains its label, and a line for an entity with
attributes. -/
theorem node_cases (s : Settings α) (d : Diagram) (p : PlacedNode α) (n : Nat) :
    d.node? p.id = none ∧ node s d p n = [] ∨
      ∃ m a rect align, d.node? p.id = some m ∧ IsFigure n .shape (some m.id) a ∧
        a.bound = [{ id := n + 1, kind := .text }] ∧
        ((d.dialect == .entityRelation && m.isMultiline) = false ∧
            node s d p n =
              [a, text s (n + 1) m.label rect align (some n) .nodeLabel (some m.id)] ∨
          ∃ line, (d.dialect == .entityRelation && m.isMultiline) = true ∧
            IsFigure (n + 2) .separator (some m.id) line ∧ line.bound = [] ∧
            node s d p n =
              [a, text s (n + 1) m.label rect align (some n) .nodeLabel (some m.id), line]) := by
  unfold node
  cases hm : d.node? p.id with
  | none => exact .inl ⟨rfl, rfl⟩
  | some m =>
      dsimp only
      refine .inr ⟨m, (Stencil.shape m p.rect n).holding (n + 1), Stencil.labelRect s m p.rect,
        if m.isMultiline then .left else .center, rfl,
        ⟨rfl, rfl, rfl, isFigure_figure m.shape⟩, rfl, ?_⟩
      cases (d.dialect == .entityRelation && m.isMultiline) with
      | false => exact .inl ⟨rfl, rfl⟩
      | true => exact .inr ⟨_, rfl, ⟨rfl, rfl, rfl, rfl⟩, rfl, rfl⟩

/-- Whatever is drawn for a node is its label or a figure. -/
theorem mem_node_cases {s : Settings α} {d : Diagram} {p : PlacedNode α} {n : Nat}
    {e : Element Nat α} (he : e ∈ node s d p n) :
    ∃ m, d.node? p.id = some m ∧
      ((∃ i role, (role = .shape ∨ role = .separator) ∧ IsFigure i role (some m.id) e) ∨
        ∃ rect align,
          e = text s (n + 1) m.label rect align (some n) .nodeLabel (some m.id)) := by
  rcases node_cases s d p n with ⟨-, h⟩ | ⟨m, a, rect, align, hm, ha, -, h⟩
  · rw [h] at he
    cases he
  · refine ⟨m, hm, ?_⟩
    rcases h with ⟨-, h⟩ | ⟨line, -, hline, -, h⟩
    · rw [h] at he
      rcases List.mem_pair.mp he with rfl | rfl
      · exact .inl ⟨n, .shape, .inl rfl, ha⟩
      · exact .inr ⟨rect, align, rfl⟩
    · rw [h] at he
      rcases List.mem_cons.mp he with rfl | he
      · exact .inl ⟨n, .shape, .inl rfl, ha⟩
      · rcases List.mem_pair.mp he with rfl | rfl
        · exact .inr ⟨rect, align, rfl⟩
        · exact .inl ⟨n + 2, .separator, .inr rfl, hline⟩

theorem lifeline_eq (l : Lifeline α) (n : Nat) :
    ∃ a, IsFigure n .lifeline (some l.id) a ∧ a.bound = [] ∧ lifeline l n = [a] :=
  ⟨_, ⟨rfl, rfl, rfl, rfl⟩, rfl, rfl⟩

/-- For an edge with a route and shapes at both its ends, an arrow between them, and its label if it
has one. -/
theorem connector_cases (s : Settings α) (dialect : Dialect) (shapes : List (Element Nat α))
    (e : RoutedEdge α) (n : Nat) :
    (e.points.length < 2 ∨ shapeOf? shapes e.edge.source = none ∨
          shapeOf? shapes e.edge.target = none) ∧
        connector s dialect shapes e n = [] ∨
      ∃ source target a, 2 ≤ e.points.length ∧ shapeOf? shapes e.edge.source = some source ∧
        shapeOf? shapes e.edge.target = some target ∧
        IsConnector n source target s.bindingGap a ∧
        (labelOf? e.edge = none ∧ a.bound = [] ∧ connector s dialect shapes e n = [a] ∨
          ∃ label rect, labelOf? e.edge = some label ∧
            a.bound = [{ id := n + 1, kind := .text }] ∧
            connector s dialect shapes e n =
              [a, text s (n + 1) label rect .center (some n) .connectorLabel none]) := by
  unfold connector
  by_cases hp : 2 ≤ e.points.length
  · rw [dif_pos hp]
    cases hs : shapeOf? shapes e.edge.source with
    | none => exact .inl ⟨.inr (.inl rfl), rfl⟩
    | some source =>
        cases ht : shapeOf? shapes e.edge.target with
        | none => exact .inl ⟨.inr (.inr rfl), rfl⟩
        | some target =>
            right
            cases hl : labelOf? e.edge with
            | none => exact ⟨source, target, _, hp, rfl, rfl, ⟨rfl, rfl, rfl, rfl, rfl⟩,
                .inl ⟨rfl, rfl, rfl⟩⟩
            | some label => exact ⟨source, target, _, hp, rfl, rfl, ⟨rfl, rfl, rfl, rfl, rfl⟩,
                .inr ⟨label, _, rfl, rfl, rfl⟩⟩
  · rw [dif_neg hp]
    exact .inl ⟨.inl (by omega), rfl⟩

/-! ### Groups are tidy -/

omit [Scalar α] in
/-- A figure that refers to nothing is tidy. -/
theorem IsFigure.tidy {n : Nat} {role : Role} {owner : Option String} {e : Element Nat α}
    (h : IsFigure n role owner e) (hbound : e.bound = []) : Tidy n [e] := by
  refine .bare (by simp [Placed, h.id_eq]) fun x hx => ?_
  rw [List.mem_singleton.mp hx]
  exact ⟨hbound, Element.container?_of_isFigure h.isFigure⟩

/-- A frame and its title are tidy. -/
theorem tidy_frame (s : Settings α) (d : Diagram) (f : Frame α) (n : Nat) :
    Tidy n (frame s d f n) := by
  rcases frame_cases s d f n with ⟨-, h⟩ | ⟨a, rect, -, ha, hbound, h⟩
  · rw [h]
    exact .nil n
  · rw [h]
    refine .bare (by simp [Placed, ha.id_eq, List.range'_succ]) fun x hx => ?_
    rcases List.mem_pair.mp hx with rfl | rfl
    · exact ⟨hbound, Element.container?_of_isFigure ha.isFigure⟩
    · exact ⟨rfl, rfl⟩

/-- A node, its label and its separator are tidy. -/
theorem tidy_node (s : Settings α) (d : Diagram) (p : PlacedNode α) (n : Nat) :
    Tidy n (node s d p n) := by
  rcases node_cases s d p n with ⟨-, h⟩ | ⟨m, a, rect, align, -, ha, hbound, h⟩
  · rw [h]
    exact .nil n
  · have hpair : Tidy n [a, text s (n + 1) m.label rect align (some n) .nodeLabel (some m.id)] :=
      .pair ha.id_eq hbound (Element.container?_of_isFigure ha.isFigure) rfl rfl rfl
    rcases h with ⟨-, h⟩ | ⟨line, -, hline, hlineBound, h⟩
    · rw [h]
      exact hpair
    · rw [h]
      exact hpair.append (hline.tidy hlineBound)

theorem tidy_lifeline (l : Lifeline α) (n : Nat) : Tidy n (lifeline l n) := by
  obtain ⟨a, ha, hbound, h⟩ := lifeline_eq l n
  rw [h]
  exact ha.tidy hbound

/-- An arrow and its label are tidy. -/
theorem tidy_connector (s : Settings α) (dialect : Dialect) (shapes : List (Element Nat α))
    (e : RoutedEdge α) (n : Nat) : Tidy n (connector s dialect shapes e n) := by
  rcases connector_cases s dialect shapes e n with
    ⟨-, h⟩ | ⟨_, _, a, -, -, -, ha, ⟨-, hbound, h⟩ | ⟨label, rect, -, hbound, h⟩⟩
  · rw [h]
    exact .nil n
  · rw [h]
    refine .bare (by simp [Placed, ha.id_eq]) fun x hx => ?_
    rw [List.mem_singleton.mp hx]
    exact ⟨hbound, Element.container?_of_isArrow ha.isArrow⟩
  · rw [h]
    exact .pair ha.id_eq hbound (Element.container?_of_isArrow ha.isArrow) rfl rfl rfl

/-! ### Bindings -/

theorem bindings_frame {s : Settings α} {d : Diagram} {f : Frame α} {n : Nat}
    {e : Element Nat α} (he : e ∈ frame s d f n) : e.bindings = [] := by
  rcases frame_cases s d f n with ⟨-, h⟩ | ⟨a, rect, -, ha, -, h⟩
  · rw [h] at he
    cases he
  · rw [h] at he
    rcases List.mem_pair.mp he with rfl | rfl
    · exact Element.bindings_of_isFigure ha.isFigure
    · rfl

theorem bindings_node {s : Settings α} {d : Diagram} {p : PlacedNode α} {n : Nat}
    {e : Element Nat α} (he : e ∈ node s d p n) : e.bindings = [] := by
  obtain ⟨m, -, ⟨i, role, -, hfigure⟩ | ⟨rect, align, rfl⟩⟩ := mem_node_cases he
  · exact Element.bindings_of_isFigure hfigure.isFigure
  · rfl

theorem bindings_lifeline {l : Lifeline α} {n : Nat} {e : Element Nat α}
    (he : e ∈ lifeline l n) : e.bindings = [] := by
  rw [List.mem_singleton.mp he]
  rfl

/-- An arrow is bound to shapes among those it was given. -/
theorem mem_connector_bindings {s : Settings α} {dialect : Dialect}
    {shapes : List (Element Nat α)} {r : RoutedEdge α} {n : Nat} {e : Element Nat α}
    (he : e ∈ connector s dialect shapes r n) {b : Binding Nat α} (hb : b ∈ e.bindings) :
    ∃ x ∈ shapes, x.id = b.target ∧ x.role = .shape := by
  have hshape : ∀ {id : String} {i : Nat}, shapeOf? shapes id = some i →
      ∃ x ∈ shapes, x.id = i ∧ x.role = .shape := by
    intro id i h
    obtain ⟨x, hx, hid, hrole, -⟩ := shapeOf?_eq_some h
    exact ⟨x, hx, hid, hrole⟩
  rcases connector_cases s dialect shapes r n with
    ⟨-, h⟩ | ⟨i, j, a, -, hs, ht, ha, ⟨-, -, h⟩ | ⟨label, rect, -, -, h⟩⟩
  · rw [h] at he
    cases he
  · rw [h] at he
    rw [List.mem_singleton.mp he, ha.bindings_eq] at hb
    rcases List.mem_pair.mp hb with rfl | rfl
    · exact hshape hs
    · exact hshape ht
  · rw [h] at he
    rcases List.mem_pair.mp he with rfl | rfl
    · rw [ha.bindings_eq] at hb
      rcases List.mem_pair.mp hb with rfl | rfl
      · exact hshape hs
      · exact hshape ht
    · cases hb

/-! ### Roles -/

section Roles

variable {s : Settings α} {d : Diagram} {n : Nat} {e : Element Nat α}

theorem fields_of_mem_frame {f : Frame α} (he : e ∈ frame s d f n) :
    e.role.isOfNode = false ∧ e.isArrow = false := by
  rcases frame_cases s d f n with ⟨-, h⟩ | ⟨a, rect, -, ha, -, h⟩
  · rw [h] at he
    cases he
  · rw [h] at he
    rcases List.mem_pair.mp he with rfl | rfl
    · rw [ha.role_eq]
      exact ⟨rfl, (Element.fields_of_isFigure ha.isFigure).2.1⟩
    · exact ⟨rfl, rfl⟩

theorem fields_of_mem_lifeline {l : Lifeline α} (he : e ∈ lifeline l n) :
    e.role.isOfNode = false ∧ e.isArrow = false := by
  rw [List.mem_singleton.mp he]
  exact ⟨rfl, rfl⟩

/-- Nothing that is drawn for an edge passes for a node. -/
theorem role_of_mem_connector {dialect : Dialect} {es : List (Element Nat α)}
    {r : RoutedEdge α} (he : e ∈ connector s dialect es r n) : e.role.isOfNode = false := by
  rcases connector_cases s dialect es r n with
    ⟨-, h⟩ | ⟨i, j, a, -, -, -, ha, ⟨-, -, h⟩ | ⟨label, rect, -, -, h⟩⟩
  · rw [h] at he
    cases he
  · rw [h] at he
    rw [List.mem_singleton.mp he, ha.role_eq]
    rfl
  · rw [h] at he
    rcases List.mem_pair.mp he with rfl | rfl
    · rw [ha.role_eq]
      rfl
    · rfl

end Roles

/-! ### The whole outline -/

section Draw

variable (s : Settings α) (d : Diagram) (l : Layout α)

/-- The frames and nodes of an outline, which stand in front of all else. -/
def shapes : List (Element Nat α) :=
  assemble 0 (l.frames.map (frame s d) ++ l.nodes.map (node s d))

def lines : List (Element Nat α) :=
  assemble (shapes s d l).length
    (l.lifelines.map lifeline ++ l.edges.map (connector s d.dialect (shapes s d l)))

/-- An outline is what is drawn, reconciled. -/
theorem draw_eq : draw s d l = Element.reconcile (shapes s d l ++ lines s d l) :=
  rfl

theorem tidy_shapes : Tidy 0 (shapes s d l) := by
  refine tidy_assemble (fun g hg n => ?_) 0
  rcases List.mem_append.mp hg with hg | hg
  · obtain ⟨f, -, rfl⟩ := List.mem_map.mp hg
    exact tidy_frame s d f n
  · obtain ⟨p, -, rfl⟩ := List.mem_map.mp hg
    exact tidy_node s d p n

theorem tidy_lines : Tidy (shapes s d l).length (lines s d l) := by
  refine tidy_assemble (fun g hg n => ?_) _
  rcases List.mem_append.mp hg with hg | hg
  · obtain ⟨l, -, rfl⟩ := List.mem_map.mp hg
    exact tidy_lifeline l n
  · obtain ⟨e, -, rfl⟩ := List.mem_map.mp hg
    exact tidy_connector s d.dialect _ e n

/-- What is drawn is tidy before it is reconciled. -/
theorem tidy_outline : Tidy 0 (shapes s d l ++ lines s d l) :=
  (tidy_shapes s d l).append (by simpa using tidy_lines s d l)

/-- Every element of an outline belongs to the group of something in the layout. -/
theorem mem_outline_cases {e : Element Nat α} (he : e ∈ shapes s d l ++ lines s d l) :
    (∃ f ∈ l.frames, ∃ n, e ∈ frame s d f n) ∨ (∃ p ∈ l.nodes, ∃ n, e ∈ node s d p n) ∨
      (∃ i ∈ l.lifelines, ∃ n, e ∈ lifeline i n) ∨
        ∃ r ∈ l.edges, ∃ n, e ∈ connector s d.dialect (shapes s d l) r n := by
  rcases List.mem_append.mp he with he | he
  · obtain ⟨g, hg, n, hn⟩ := mem_assemble he
    rcases List.mem_append.mp hg with hg | hg
    · obtain ⟨f, hf, rfl⟩ := List.mem_map.mp hg
      exact .inl ⟨f, hf, n, hn⟩
    · obtain ⟨p, hp, rfl⟩ := List.mem_map.mp hg
      exact .inr (.inl ⟨p, hp, n, hn⟩)
  · obtain ⟨g, hg, n, hn⟩ := mem_assemble he
    rcases List.mem_append.mp hg with hg | hg
    · obtain ⟨i, hi, rfl⟩ := List.mem_map.mp hg
      exact .inr (.inr (.inl ⟨i, hi, n, hn⟩))
    · obtain ⟨r, hr, rfl⟩ := List.mem_map.mp hg
      exact .inr (.inr (.inr ⟨r, hr, n, hn⟩))

/-- Whatever is bound in an outline is bound to a shape of it. -/
theorem mem_outline_bindings {e : Element Nat α} (he : e ∈ shapes s d l ++ lines s d l)
    {b : Binding Nat α} (hb : b ∈ e.bindings) :
    ∃ x ∈ shapes s d l, x.id = b.target ∧ x.role = .shape := by
  rcases mem_outline_cases s d l he with
    ⟨f, -, n, hn⟩ | ⟨p, -, n, hn⟩ | ⟨i, -, n, hn⟩ | ⟨r, -, n, hn⟩
  · rw [bindings_frame hn] at hb
    cases hb
  · rw [bindings_node hn] at hb
    cases hb
  · rw [bindings_lifeline hn] at hb
    cases hb
  · exact mem_connector_bindings hn hb

/-- The references of an outline hold together. -/
theorem linked_draw : Linked (draw s d l) := by
  have tidy := tidy_outline s d l
  refine tidy.labelled.linked_reconcile tidy.placed.ids_nodup fun a ha b hb => ?_
  obtain ⟨x, hx, h⟩ := mem_outline_bindings s d l ha hb
  exact ⟨x, List.mem_append_left _ hx, h⟩

/-- The ids of an outline are its positions. -/
theorem ids_draw : (draw s d l).map (·.id) = List.range (draw s d l).length := by
  have placed := (tidy_outline s d l).placed
  rw [draw_eq, Element.reconcile_eq_map, List.map_map, List.length_map, List.range_eq_range']
  exact placed

end Draw

end Outline

end Whiteboard
