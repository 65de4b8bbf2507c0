import Mathlib.Data.List.Find
import Whiteboard.Proofs.Layout.Order
import Whiteboard.Proofs.Scene.Integrity

/-!
What a scene depicts, from back to front.

A `Depiction` is what an element shows without its place: what it stands for, what it is drawn for,
what it says, and what is drawn at its ends. The depictions of a scene are those of the visible
frames, of the nodes, of the lifelines and of the resolved edges, in this order, and the index
tokens count them up (`emission`). Nothing is lost and nothing is drawn twice, although nodes are
regrouped by the layout and edges are dropped both by the layout and by the outline.
-/

namespace Whiteboard

variable {ι κ α : Type}

structure Depiction where
  role : Role
  /-- The id of the node or subgraph it is drawn for. -/
  owner : Option String := none
  text : Option String := none
  /-- It is drawn as an arrow. -/
  isArrow : Bool := false
  /-- For each of its ends, what the element there stands for and is drawn for. -/
  ends : List (Option (Role × Option String)) := []
deriving DecidableEq, Repr

namespace Element

/-- What the element with an id stands for and is drawn for. -/
def identify [DecidableEq ι] (es : List (Element ι α)) (id : ι) : Option (Role × Option String) :=
  (es.find? (·.id == id)).map fun x => (x.role, x.owner)

def depict [DecidableEq ι] (es : List (Element ι α)) (e : Element ι α) : Depiction where
  role := e.role
  owner := e.owner
  text := e.text?
  isArrow := e.isArrow
  ends := e.bindings.map fun b => identify es b.target

/-- Reconciling changes nothing of what is shown. -/
theorem depict_reconcile [DecidableEq ι] (es : List (Element ι α)) :
    (reconcile es).map (depict (reconcile es)) = es.map (depict es) := by
  have hidentify : ∀ id, identify (reconcile es) id = identify es id := by
    intro id
    rw [identify, reconcile_eq_map, List.find?_map, Option.map_map]
    rfl
  have hdepict : ∀ e, depict (reconcile es) (reconciled es e) = depict es e := by
    intro e
    rw [depict, depict, funext hidentify]
    rfl
  calc
    (reconcile es).map (depict (reconcile es))
        = (es.map (reconciled es)).map (depict (reconcile es)) := by
          conv => lhs; arg 2; rw [reconcile_eq_map]
    _ = es.map (depict es) := by
      rw [List.map_map]
      exact List.map_congr_left fun e _ => hdepict e

/-- Renaming changes nothing of what is shown, as long as elements are kept apart. -/
theorem depict_rename [DecidableEq ι] [DecidableEq κ] {es : List (Element ι α)} {f : ι → κ}
    (linked : Linked es) (apart : KeepsApart f es) :
    (es.map (Element.map f)).map (depict (es.map (Element.map f))) = es.map (depict es) := by
  rw [List.map_map]
  refine List.map_congr_left fun e he => ?_
  have hidentify : ∀ b ∈ e.bindings,
      identify (es.map (Element.map f)) (f b.target) = identify es b.target := by
    intro b hb
    obtain ⟨x, hx, hid, -⟩ := linked.binding_mem e he b hb
    have hfind : es.find? (fun y => f y.id == f b.target) = es.find? (·.id == b.target) := by
      refine List.find?_congr fun y hy => ?_
      rw [← hid, Bool.eq_iff_iff, beq_iff_eq, beq_iff_eq]
      exact ⟨apart y hy x hx, congrArg f⟩
    rw [identify, List.find?_map, Option.map_map, identify, ← hfind]
    rfl
  unfold depict
  simp only [Function.comp_apply, role_map, owner_map, text?_map, isArrow_map, bindings_map,
    List.map_map, Depiction.mk.injEq, true_and]
  exact List.map_congr_left hidentify

end Element

/-! ### What is expected -/

namespace Depiction

def ofFrame (f : Frame α) : List Depiction :=
  [{ role := .frame, owner := some f.id },
    { role := .frameTitle, owner := some f.id, text := some f.label }]

/-- The shape of a node and its label, and a line below the name of an entity with attributes. What
is drawn for an id that several nodes share is drawn as the first of them. -/
def ofNode (d : Diagram) (n : Node) : List Depiction :=
  let drawn := (d.node? n.id).getD n
  [{ role := .shape, owner := some n.id },
    { role := .nodeLabel, owner := some n.id, text := some drawn.label }] ++
    if d.dialect = .entityRelation ∧ drawn.isMultiline then
      [{ role := .separator, owner := some n.id }]
    else []

def ofLifeline (id : String) : Depiction :=
  { role := .lifeline, owner := some id }

/-- The arrow between the shapes of two nodes, and its label unless it is empty. -/
def ofEdge (e : Edge) : List Depiction :=
  { role := .connector
    isArrow := true
    ends := [some (.shape, some e.source), some (.shape, some e.target)] } ::
    match e.label with
    | none => []
    | some label => if label = "" then [] else [{ role := .connectorLabel, text := some label }]

/-- Everything that is drawn for a diagram under a layout, from back to front. -/
def ofDrawing [Scalar α] (d : Diagram) (l : Layout α) : List Depiction :=
  (l.frames.filter fun f => Stencil.isVisible f.rect).flatMap ofFrame ++
    d.nodes.flatMap (ofNode d) ++
    (if d.dialect = .sequence then d.nodes.map fun n => ofLifeline n.id else []) ++
    d.resolvedEdges.flatMap ofEdge

/-- What of a drawing meets a condition, if no lifeline does and nothing of an edge. -/
theorem filter_ofDrawing [Scalar α] {p : Depiction → Bool}
    (hlifeline : ∀ id, p (ofLifeline id) = false) (hedge : ∀ e, (ofEdge e).filter p = [])
    (d : Diagram) (l : Layout α) :
    (ofDrawing d l).filter p =
      (l.frames.filter fun f => Stencil.isVisible f.rect).flatMap (fun f => (ofFrame f).filter p) ++
        d.nodes.flatMap fun n => (ofNode d n).filter p := by
  have hlifelines : (if d.dialect = .sequence then d.nodes.map fun n => ofLifeline n.id
      else []).filter p = [] := by
    split
    · rw [List.filter_map, List.map_eq_nil_iff, List.filter_eq_nil_iff]
      intro n _
      simp [hlifeline]
    · rfl
  have hedges : (d.resolvedEdges.flatMap ofEdge).filter p = [] := by
    rw [List.filter_flatMap, List.flatMap_eq_nil_iff]
    exact fun e _ => hedge e
  rw [ofDrawing, List.filter_append, List.filter_append, List.filter_append, hlifelines, hedges,
    List.append_nil, List.append_nil, List.filter_flatMap, List.filter_flatMap]

end Depiction

/-! ### What the groups show -/

namespace Outline

open Stencil (text labelOf? isVisible)

/-- Groups that show the same at every position show it one behind the other. -/
theorem map_assemble {β γ : Type} {group : β → Group α} {view : Element Nat α → γ}
    {shown : β → List γ} {xs : List β} (h : ∀ x ∈ xs, ∀ n, (group x n).map view = shown x)
    (n : Nat) : (assemble n (xs.map group)).map view = xs.flatMap shown := by
  induction xs generalizing n with
  | nil => rfl
  | cons x xs ih =>
      rw [List.map_cons, assemble, List.map_append, h x List.mem_cons_self, List.flatMap_cons,
        ih fun y hy => h y (List.mem_cons_of_mem _ hy)]

/-- What is in a group is in the elements of the groups. -/
theorem exists_mem_assemble {gs : List (Group α)} {g : Group α} (h : g ∈ gs) (n : Nat) :
    ∃ m, ∀ e ∈ g m, e ∈ assemble n gs := by
  induction gs generalizing n with
  | nil => cases h
  | cons g' gs ih =>
      rcases List.mem_cons.mp h with rfl | h
      · exact ⟨n, fun e he => List.mem_append_left _ he⟩
      · obtain ⟨m, hm⟩ := ih h (n + (g' n).length)
        exact ⟨m, fun e he => List.mem_append_right _ (hm e he)⟩

/-- A figure shows its role and its owner. -/
theorem IsFigure.depict_eq {n : Nat} {role : Role} {owner : Option String} {e : Element Nat α}
    (h : IsFigure n role owner e) (es : List (Element Nat α)) :
    e.depict es = { role, owner } := by
  obtain ⟨hbindings, harrow, -, htext⟩ := Element.fields_of_isFigure h.isFigure
  simp [Element.depict, h.role_eq, h.owner_eq, htext, harrow, hbindings]

/-- An arrow shows the owners of its two ends. -/
theorem IsConnector.depict_eq {n source target : Nat} {gap : α} {a : Element Nat α}
    (h : IsConnector n source target gap a) (es : List (Element Nat α)) :
    a.depict es =
      { role := .connector
        isArrow := true
        ends := [Element.identify es source, Element.identify es target] } := by
  obtain ⟨-, htext⟩ := Element.fields_of_isArrow h.isArrow
  simp [Element.depict, h.role_eq, h.owner_eq, htext, h.isArrow, h.bindings_eq]

variable [Scalar α]

/-- A text shows its words and the owner of what contains it. -/
theorem depict_text (s : Settings α) (id : Nat) (content : String) (rect : Rect α) (align : Align)
    (container : Option Nat) (role : Role) (owner : Option String) (es : List (Element Nat α)) :
    (text s id content rect align container role owner).depict es =
      { role, owner, text := some content } := rfl

/-- A frame and its title are shown, or neither. -/
theorem depict_frame (s : Settings α) (d : Diagram) (f : Frame α) (n : Nat)
    (es : List (Element Nat α)) :
    (frame s d f n).map (Element.depict es) =
      if isVisible f.rect then Depiction.ofFrame f else [] := by
  rcases frame_cases s d f n with ⟨hv, h⟩ | ⟨a, rect, hv, ha, -, h⟩
  · rw [h, hv]
    rfl
  · rw [h, hv, List.map_cons, ha.depict_eq, List.map_singleton, depict_text]
    rfl

/-- A node shows as the first node of the diagram with its id. -/
theorem depict_node (s : Settings α) (d : Diagram) (p : PlacedNode α) (n : Nat)
    (es : List (Element Nat α)) :
    (node s d p n).map (Element.depict es) = (d.node? p.id).elim [] (Depiction.ofNode d) := by
  rcases node_cases s d p n with ⟨hm, h⟩ | ⟨m, a, rect, align, hm, ha, -, h⟩
  · rw [h, hm]
    rfl
  · have hdrawn : (d.node? m.id).getD m = m := by
      rw [Diagram.id_of_node? hm, hm, Option.getD_some]
    rw [hm, Option.elim_some, Depiction.ofNode, hdrawn]
    rcases h with ⟨hline, h⟩ | ⟨line, hline, hl, -, h⟩
    · have hnot : ¬ (d.dialect = .entityRelation ∧ m.isMultiline = true) := by
        simpa using hline
      rw [h, if_neg hnot, List.map_cons, ha.depict_eq, List.map_singleton, depict_text]
      rfl
    · have hboth : d.dialect = .entityRelation ∧ m.isMultiline = true := by
        simpa using hline
      rw [h, if_pos hboth, List.map_cons, ha.depict_eq, List.map_cons, depict_text,
        List.map_singleton, hl.depict_eq]
      rfl

/-- Each node of a diagram shows, under its own id. -/
theorem elim_node? {d : Diagram} {n : Node} (hn : n ∈ d.nodes) :
    (d.node? n.id).elim [] (Depiction.ofNode d) = Depiction.ofNode d n := by
  obtain ⟨m, hm⟩ := Diagram.exists_node? (Diagram.hasNode_of_mem hn)
  rw [hm, Option.elim_some]
  unfold Depiction.ofNode
  rw [Diagram.id_of_node? hm, hm, Option.getD_some, Option.getD_some]

theorem depict_lifeline (l : Lifeline α) (n : Nat) (es : List (Element Nat α)) :
    (lifeline l n).map (Element.depict es) = [Depiction.ofLifeline l.id] := by
  obtain ⟨a, ha, -, h⟩ := lifeline_eq l n
  rw [h, List.map_singleton, ha.depict_eq]
  rfl

/-! ### What the outline shows -/

variable (s : Settings α) {d : Diagram} {l : Layout α}

/-- There is a shape for every node of the diagram. -/
theorem isSome_shapeOf? (follows : l.Follows d) {id : String} (h : d.hasNode id = true) :
    (shapeOf? (shapes s d l) id).isSome = true := by
  obtain ⟨p, hp, hid⟩ := follows.exists_box h
  obtain ⟨m, hm⟩ := Diagram.exists_node? h
  have hgroup : node s d p ∈ l.frames.map (frame s d) ++ l.nodes.map (node s d) :=
    List.mem_append_right _ (List.mem_map_of_mem hp)
  obtain ⟨n, hn⟩ := exists_mem_assemble hgroup 0
  obtain ⟨a, ha, hrole, howner⟩ :
      ∃ a ∈ node s d p n, a.role = .shape ∧ a.owner = some id := by
    rcases node_cases s d p n with ⟨hnone, -⟩ | ⟨m', a, rect, align, hm', ha, -, h⟩
    · rw [hid, hm] at hnone
      cases hnone
    · rw [hid, hm] at hm'
      cases hm'
      refine ⟨a, ?_, ha.role_eq, Diagram.id_of_node? hm ▸ ha.owner_eq⟩
      rcases h with ⟨-, h⟩ | ⟨line, -, -, -, h⟩ <;> rw [h] <;> exact List.mem_cons_self
  rw [shapeOf?, Option.isSome_map, List.find?_isSome]
  exact ⟨a, List.mem_reverse.mpr (hn a ha), by simp [hrole, howner]⟩

/-- A shape that is found for an id identifies as the shape of that id. -/
theorem identify_of_shapeOf? {es : List (Element Nat α)}
    (hids : ((shapes s d l ++ es).map (·.id)).Nodup) {id : String} {i : Nat}
    (h : shapeOf? (shapes s d l) id = some i) :
    Element.identify (shapes s d l ++ es) i = some (.shape, some id) := by
  obtain ⟨x, hx, rfl, hrole, howner⟩ := shapeOf?_eq_some h
  rw [Element.identify, Roster.find?_key_eq Element.id hids (List.mem_append_left _ hx),
    Option.map_some, hrole, howner]

theorem ofEdge_eq (e : Edge) :
    Depiction.ofEdge e =
      { role := .connector
        isArrow := true
        ends := [some (.shape, some e.source), some (.shape, some e.target)] } ::
        (labelOf? e).toList.map fun label =>
          { role := .connectorLabel, text := some label } := by
  unfold Depiction.ofEdge labelOf?
  cases e.label with
  | none => rfl
  | some label =>
      by_cases h : label = ""
      · simp [h]
      · have hne : label.isEmpty = false := by simpa using h
        simp [h, hne, Option.filter_some]

/-- An edge with a route shows as an arrow between the shapes of its ends, any other as nothing. -/
theorem depict_connector (follows : l.Follows d) {es : List (Element Nat α)}
    (hids : ((shapes s d l ++ es).map (·.id)).Nodup) {e : RoutedEdge α} (he : e ∈ l.edges)
    (n : Nat) :
    (connector s d.dialect (shapes s d l) e n).map (Element.depict (shapes s d l ++ es)) =
      if e.isDrawable then Depiction.ofEdge e.edge else [] := by
  have hknown : e.isDrawable = true →
      d.hasNode e.edge.source = true ∧ d.hasNode e.edge.target = true := by
    intro h
    rw [follows.isDrawable_eq e he] at h
    exact Bool.and_eq_true_iff.mp h
  rcases connector_cases s d.dialect (shapes s d l) e n with
    ⟨hnone, h⟩ | ⟨i, j, a, hpoints, hi, hj, ha, h⟩
  · have hnot : ¬ e.isDrawable = true := by
      intro hd
      obtain ⟨hs, ht⟩ := hknown hd
      rcases hnone with hlt | hnone | hnone
      · have hle := of_decide_eq_true hd
        omega
      · simpa [hnone] using isSome_shapeOf? s follows hs
      · simpa [hnone] using isSome_shapeOf? s follows ht
    rw [h, if_neg hnot]
    rfl
  · have hdraw : e.isDrawable = true := decide_eq_true hpoints
    have harrow : a.depict (shapes s d l ++ es) = _ := ha.depict_eq _
    rw [identify_of_shapeOf? s hids hi, identify_of_shapeOf? s hids hj] at harrow
    rw [if_pos hdraw, ofEdge_eq]
    rcases h with ⟨hlabel, -, h⟩ | ⟨label, rect, hlabel, -, h⟩
    · rw [h, List.map_singleton, harrow, hlabel]
      rfl
    · rw [h, List.map_cons, harrow, List.map_singleton, depict_text, hlabel]
      rfl

theorem flatMap_filter {β γ : Type} (p : β → Bool) (g : β → List γ) (xs : List β) :
    (xs.flatMap fun x => if p x then g x else []) = (xs.filter p).flatMap g := by
  induction xs with
  | nil => rfl
  | cons x xs ih =>
      rw [List.flatMap_cons, ih]
      cases h : p x with
      | false => rw [List.filter_cons_of_neg (by simp [h]), if_neg (by simp), List.nil_append]
      | true => rw [List.filter_cons_of_pos h, if_pos rfl, List.flatMap_cons]

/-- The frames and nodes of an outline, as the frames and nodes of the diagram. -/
theorem depict_shapes (follows : l.Follows d) (es : List (Element Nat α)) :
    (shapes s d l).map (Element.depict es) =
      (l.frames.filter fun f => isVisible f.rect).flatMap Depiction.ofFrame ++
        d.nodes.flatMap (Depiction.ofNode d) := by
  have hframes : ∀ n, (assemble n (l.frames.map (frame s d))).map (Element.depict es) =
      (l.frames.filter fun f => isVisible f.rect).flatMap Depiction.ofFrame := by
    intro n
    rw [← flatMap_filter]
    exact map_assemble (fun f _ n => depict_frame s d f n es) n
  have hnodes : ∀ n, (assemble n (l.nodes.map (node s d))).map (Element.depict es) =
      d.nodes.flatMap (Depiction.ofNode d) := by
    intro n
    calc
      _ = l.nodes.flatMap fun p => (d.node? p.id).elim [] (Depiction.ofNode d) :=
        map_assemble (fun p _ n => depict_node s d p n es) n
      _ = (l.nodes.map (·.id)).flatMap fun id => (d.node? id).elim [] (Depiction.ofNode d) := by
        rw [List.flatMap_map]
      _ = d.nodes.flatMap fun n => (d.node? n.id).elim [] (Depiction.ofNode d) := by
        rw [follows.ids_nodes, List.flatMap_map]
      _ = d.nodes.flatMap (Depiction.ofNode d) :=
        List.flatMap_congr fun n hn => elim_node? hn
  rw [shapes, assemble_append, List.map_append, hframes, hnodes]

/-- The lifelines and arrows of an outline, as participants and resolved edges of the diagram. -/
theorem depict_lines (follows : l.Follows d)
    (hids : ((shapes s d l ++ lines s d l).map (·.id)).Nodup) :
    (lines s d l).map (Element.depict (shapes s d l ++ lines s d l)) =
      (if d.dialect = .sequence then d.nodes.map fun n => Depiction.ofLifeline n.id else []) ++
        d.resolvedEdges.flatMap Depiction.ofEdge := by
  have hlifelines : ∀ n es, (assemble n (l.lifelines.map lifeline)).map (Element.depict es) =
      if d.dialect = .sequence then d.nodes.map fun n => Depiction.ofLifeline n.id else [] := by
    intro n es
    calc
      _ = l.lifelines.flatMap fun p => [Depiction.ofLifeline p.id] :=
        map_assemble (fun p _ n => depict_lifeline p n es) n
      _ = (l.lifelines.map (·.id)).map Depiction.ofLifeline := by
        rw [List.map_map, ← List.map_eq_flatMap]
        rfl
      _ = _ := by
        rw [follows.ids_lifelines]
        split
        · exact List.map_map
        · rfl
  have hconnectors : ∀ n, (assemble n (l.edges.map (connector s d.dialect (shapes s d l)))).map
      (Element.depict (shapes s d l ++ lines s d l)) =
        d.resolvedEdges.flatMap Depiction.ofEdge := by
    intro n
    rw [← follows.drawable_edges, List.flatMap_map, ← flatMap_filter]
    exact map_assemble (fun e he n => depict_connector s follows hids he n) n
  conv => lhs; arg 2; rw [lines, assemble_append]
  rw [List.map_append, hlifelines, hconnectors]

/-- What an outline shows is what is to be drawn. -/
theorem depict_draw (follows : l.Follows d) :
    (draw s d l).map (Element.depict (draw s d l)) = Depiction.ofDrawing d l := by
  have hids := (tidy_outline s d l).placed.ids_nodup
  rw [draw_eq, Element.depict_reconcile, List.map_append, depict_shapes s follows,
    depict_lines s follows hids, ← List.append_assoc]
  rfl

end Outline

/-! ### What the scene shows -/

namespace Scene

/-- What the elements of a scene show, from back to front. -/
def depictions (scene : Scene α) : List Depiction :=
  scene.elements.map (Element.depict scene.elements)

/-- Index tokens stand in the order of their stamps. -/
theorem indexes_ofOutline {stamps : List Source.Stamp} {outline : List (Element Nat α)}
    (h : stamps.length = outline.length) :
    (ofOutline stamps outline).items.map (·.index) = stamps.map (·.index) := by
  have hzip : (outline.zip stamps).map Prod.snd = stamps := List.map_snd_zip (Nat.le_of_eq h)
  conv => rhs; rw [← hzip, List.map_map]
  rw [ofOutline, List.map_map]
  rfl

/-- Elements of a role are counted by what is shown. -/
theorem length_withRole (scene : Scene α) (role : Role) :
    (scene.withRole role).length = scene.depictions.countP (·.role == role) := by
  rw [withRole, ← List.countP_eq_length_filter, depictions, List.countP_map]
  rfl

/-- Arrows are counted by what is shown. -/
theorem length_arrows (scene : Scene α) :
    scene.arrows.length = scene.depictions.countP (·.isArrow) := by
  rw [arrows, ← List.countP_eq_length_filter, depictions, List.countP_map]
  rfl

/-- If every item counts alike, all of them count as often as there are items. -/
theorem countP_flatMap_of_const {β γ : Type} {p : γ → Bool} {g : β → List γ} {k : Nat}
    (h : ∀ x, (g x).countP p = k) (xs : List β) :
    (xs.flatMap g).countP p = k * xs.length := by
  have hconst : List.countP p ∘ g = fun _ => k := funext h
  rw [List.countP_flatMap, hconst, List.map_const', List.sum_replicate_nat,
    Nat.mul_comm]

variable [Scalar α] (g : Generator) (s : Settings α) (d : Diagram)

/-- A scene shows everything that is drawn for its diagram, and nothing else. -/
theorem depictions_ofDiagram :
    (ofDiagram g s d).depictions = Depiction.ofDrawing d (Layout.ofDiagram s d) := by
  obtain ⟨f, apart, helements⟩ := elements_draw g s d (Layout.ofDiagram s d)
  rw [depictions, ofDiagram, helements, Element.depict_rename (Outline.linked_draw s d _) apart]
  exact Outline.depict_draw s (Layout.follows_ofDiagram s d)

/-- Index tokens are issued in the order of the elements. -/
theorem indexes_ofDiagram :
    (ofDiagram g s d).items.map (·.index) =
      (List.range (ofDiagram g s d).items.length).map Source.indexToken := by
  have hlength : ∀ n, (Source.stamps n (Source.ofSeed g s.seed)).length = n := fun n =>
    Source.length_stamps n _
  rw [← List.length_map (·.index), ofDiagram, draw_eq, indexes_ofOutline (hlength _),
    List.length_map, hlength, Source.indexes_stamps, List.range_eq_range']
  rfl

/-- How often something is drawn, if nothing but nodes and edges show it. -/
theorem countP_ofDrawing {p : Depiction → Bool} {k m : Nat} {d : Diagram} {l : Layout α}
    (hframe : ∀ f : Frame α, (Depiction.ofFrame f).countP p = 0)
    (hnode : ∀ n, (Depiction.ofNode d n).countP p = k)
    (hlifeline : ∀ id, p (Depiction.ofLifeline id) = false)
    (hedge : ∀ e, (Depiction.ofEdge e).countP p = m) :
    (Depiction.ofDrawing d l).countP p = k * d.nodes.length + m * d.resolvedEdges.length := by
  have hlifelines : (if d.dialect = .sequence then
      d.nodes.map fun n => Depiction.ofLifeline n.id else []).countP p = 0 := by
    split
    · rw [List.countP_map, List.countP_eq_zero]
      intro n _
      simp [hlifeline]
    · rfl
  rw [Depiction.ofDrawing, List.countP_append, List.countP_append, List.countP_append, hlifelines,
    countP_flatMap_of_const hframe, countP_flatMap_of_const hnode, countP_flatMap_of_const hedge]
  omega

/-- Every node has one shape. -/
theorem countP_shape_ofDrawing (d : Diagram) (l : Layout α) :
    (Depiction.ofDrawing d l).countP (·.role == .shape) = d.nodes.length := by
  rw [countP_ofDrawing (k := 1) (m := 0) (fun _ => rfl) _ (fun _ => rfl)]
  · omega
  · intro e
    rw [Outline.ofEdge_eq]
    cases Stencil.labelOf? e <;> rfl
  · intro n
    unfold Depiction.ofNode
    dsimp only
    split <;> rfl

/-- Every edge between nodes has one arrow. -/
theorem countP_isArrow_ofDrawing (d : Diagram) (l : Layout α) :
    (Depiction.ofDrawing d l).countP (·.isArrow) = d.resolvedEdges.length := by
  rw [countP_ofDrawing (k := 0) (m := 1) (fun _ => rfl) _ (fun _ => rfl)]
  · omega
  · intro e
    rw [Outline.ofEdge_eq]
    cases Stencil.labelOf? e <;> rfl
  · intro n
    unfold Depiction.ofNode
    dsimp only
    split <;> rfl

/-- The elements of a scene, from back to front, are those of the visible frames, of the nodes, of
the lifelines and of the edges with two known ends; their index tokens count up. Therefore there are
as many shapes as nodes and as many arrows as such edges. -/
theorem emission :
    (ofDiagram g s d).depictions = Depiction.ofDrawing d (Layout.ofDiagram s d) ∧
      (ofDiagram g s d).items.map (·.index) =
        (List.range (ofDiagram g s d).items.length).map Source.indexToken ∧
      ((ofDiagram g s d).withRole .shape).length = d.nodes.length ∧
      (ofDiagram g s d).arrows.length = d.resolvedEdges.length := by
  refine ⟨depictions_ofDiagram g s d, indexes_ofDiagram g s d, ?_, ?_⟩
  · rw [length_withRole, depictions_ofDiagram, countP_shape_ofDrawing]
  · rw [length_arrows, depictions_ofDiagram, countP_isArrow_ofDrawing]

end Scene

end Whiteboard
