import Whiteboard.Proofs.Layout.Routing
import Whiteboard.Proofs.Scene.Shape

/-!
Connectors touch the shapes they are bound to.

An arrow keeps its points relative to its own corner; its `path` says where they lie, which is where
the layout has routed the edge (`path_of_mem_connector`). The shapes an arrow is bound to are those
of the ends of its edge (`ends_of_mem_arrows`). So what holds of routes and boxes holds of arrows
and shapes: the scene of a flowchart or an entity-relationship diagram is `Attached` to the diagram
(`arrows_attached`).
-/

namespace Whiteboard

variable {ι κ : Type}

def Element.path (e : Element ι Rat) : List (Point Rat) :=
  match e.body with
  | .arrow a => a.points.map fun p => ⟨e.rect.x + p.x, e.rect.y + p.y⟩
  | _ => []

@[simp] theorem Element.path_map (f : ι → κ) (e : Element ι Rat) : (e.map f).path = e.path := by
  unfold Element.path Element.map
  cases e.body <;> rfl

namespace Outline

/-- An arrow goes along the route of its edge. -/
theorem path_of_mem_connector {s : Settings Rat} {dialect : Dialect}
    {es : List (Element Nat Rat)} {r : RoutedEdge Rat} {n : Nat} {e : Element Nat Rat}
    (he : e ∈ connector s dialect es r n) (harrow : e.isArrow = true) : e.path = r.points := by
  have hback : ∀ origin : Point Rat, r.points.map (fun p =>
      (⟨origin.x + (p.x - origin.x), origin.y + (p.y - origin.y)⟩ : Point Rat)) = r.points := by
    intro origin
    conv => rhs; rw [← List.map_id r.points]
    refine List.map_congr_left fun p _ => ?_
    rw [add_sub_cancel, add_sub_cancel]
    rfl
  unfold connector at he
  by_cases hp : 2 ≤ r.points.length
  · rw [dif_pos hp] at he
    cases hs : shapeOf? es r.edge.source with
    | none =>
        rw [hs] at he
        cases he
    | some source =>
        cases ht : shapeOf? es r.edge.target with
        | none =>
            rw [hs, ht] at he
            cases he
        | some target =>
            rw [hs, ht] at he
            dsimp only at he
            cases hl : Stencil.labelOf? r.edge with
            | none =>
                rw [hl] at he
                rw [List.mem_singleton.mp he]
                exact (List.map_map ..).trans (hback _)
            | some label =>
                rw [hl] at he
                rcases List.mem_pair.mp he with rfl | rfl
                · exact (List.map_map ..).trans (hback _)
                · cases harrow
  · rw [dif_neg hp] at he
    cases he

end Outline

namespace Scene

def element? {α : Type} (scene : Scene α) (id : String) : Option (Element String α) :=
  scene.elements.find? (·.id == id)

def ends {α : Type} (scene : Scene α) (a : Element String α) : List (Option (Element String α)) :=
  a.bindings.map fun b => scene.element? b.target

/-- The shape last drawn for a node id is an element of the scene, and found under its id there. -/
theorem exists_shapeOf? {α : Type} [Scalar α] {g : Generator} {s : Settings α} {d : Diagram}
    {l : Layout α} {f : Nat → String} (apart : KeepsApart f (Outline.draw s d l))
    (helements : (draw g s d l).elements = (Outline.draw s d l).map (Element.map f))
    {id : String} {i : Nat} (h : Outline.shapeOf? (Outline.shapes s d l) id = some i) :
    ∃ x, (draw g s d l).element? (f i) = some x ∧ x ∈ (draw g s d l).elements ∧
      x.role = .shape ∧ x.owner = some id := by
  obtain ⟨e, he, rfl, hrole, howner⟩ := Outline.shapeOf?_eq_some h
  have hx := (mem_elements_draw helements).mpr ⟨e, List.mem_append_left _ he, rfl⟩
  have linked : Linked (draw g s d l).elements := by
    rw [helements]
    exact (Outline.linked_draw s d l).rename apart
  exact ⟨_, Roster.find?_key_eq Element.id linked.ids_nodup hx, hx, hrole, howner⟩

/-- An arrow is drawn along the route of an edge and bound to the shapes of its two ends. -/
theorem ends_of_mem_arrows {g : Generator} {s : Settings Rat} {d : Diagram} {l : Layout Rat}
    {a : Element String Rat} (ha : a ∈ (draw g s d l).arrows) :
    ∃ r ∈ l.edges, r.isDrawable = true ∧ a.path = r.points ∧
      ∃ x ∈ (draw g s d l).elements, ∃ y ∈ (draw g s d l).elements,
        (draw g s d l).ends a = [some x, some y] ∧
        x.role = .shape ∧ x.owner = some r.edge.source ∧
        y.role = .shape ∧ y.owner = some r.edge.target ∧
        (r.edge.source = r.edge.target → x = y) := by
  obtain ⟨hmem, harrow⟩ := List.mem_filter.mp ha
  obtain ⟨f, apart, helements⟩ := elements_draw g s d l
  obtain ⟨e, he, rfl⟩ := (mem_elements_draw helements).mp hmem
  have harrow' : e.isArrow = true := (Element.isArrow_map f _).symm.trans harrow
  obtain ⟨r, hr, n, hn⟩ := Outline.connector_of_isArrow he harrow'
  refine ⟨r, hr, ?_⟩
  have hpath : e.path = r.points := Outline.path_of_mem_connector hn harrow'
  rcases Outline.connector_cases s d.dialect (Outline.shapes s d l) r n with
    ⟨-, h⟩ | ⟨i, j, a, hpoints, hi, hj, ha, h⟩
  · rw [h] at hn
    cases hn
  · obtain rfl : e = a := by
      rcases h with ⟨-, -, h⟩ | ⟨label, rect, -, -, h⟩
      · rw [h] at hn
        exact List.mem_singleton.mp hn
      · rw [h] at hn
        rcases List.mem_pair.mp hn with rfl | rfl
        · rfl
        · cases harrow'
    obtain ⟨x, hx, hxMem, hxRole, hxOwner⟩ := exists_shapeOf? apart helements hi
    obtain ⟨y, hy, hyMem, hyRole, hyOwner⟩ := exists_shapeOf? apart helements hj
    refine ⟨decide_eq_true hpoints, ?_, x, hxMem, y, hyMem, ?_, hxRole, hxOwner, hyRole, hyOwner,
      ?_⟩
    · rw [Element.path_map]
      exact hpath
    · rw [ends, Element.bindings_map, Element.bindings_reconciled, ha.bindings_eq]
      simp only [List.map_cons, List.map_nil, Binding.map, hx, hy]
    · intro hself
      rw [hself, hj] at hi
      cases hi
      exact Option.some.inj (hx.symm.trans hy)

/-- Every arrow belongs to an edge, begins on the border of the shape of its source and ends on the
border of that of its target; a loop leaves its shape on the right. -/
def Attached (scene : Scene Rat) (d : Diagram) : Prop :=
  ∀ a ∈ scene.arrows, ∃ e ∈ d.resolvedEdges, ∃ x y, scene.ends a = [some x, some y] ∧
    x.role = .shape ∧ x.owner = some e.source ∧ y.role = .shape ∧ y.owner = some e.target ∧
    (e.source ≠ e.target → ∃ u v, a.path = [u, v] ∧ x.rect.OnBorder u ∧ y.rect.OnBorder v) ∧
    (e.source = e.target → x = y ∧ Route.LeavesRight x.rect a.path)

/-- The arrows of flowcharts and entity-relationship diagrams are attached to their shapes. -/
theorem arrows_attached (g : Generator) (direction : Option Direction) (d : Diagram)
    (hd : d.dialect ≠ .sequence) (hids : d.ids.Nodup) :
    (ofDiagram g ({ Settings.standard with direction } : Settings Rat) d).Attached d := by
  intro a ha
  have follows := Layout.follows_ofDiagram ({ Settings.standard with direction } : Settings Rat) d
  obtain ⟨r, hr, hdraw, hpath, x, hx, y, hy, hends, hxRole, hxOwner, hyRole, hyOwner, hself⟩ :=
    ends_of_mem_arrows ha
  have hresolved : r.edge ∈ d.resolvedEdges := by
    rw [← follows.drawable_edges]
    exact List.mem_map_of_mem (List.mem_filter.mpr ⟨hr, hdraw⟩)
  obtain ⟨p, q, hp, hq, hloop, hstraight⟩ :=
    Layout.routed_of_mem (Settings.roomy_standard direction) hd hr hdraw
  -- the box of a shape is the one that the route goes by
  have hrect : ∀ {z : Element String Rat} {id : String} {b : PlacedNode Rat},
      z ∈ (ofDiagram g ({ Settings.standard with direction } : Settings Rat) d).elements →
      z.role = .shape → z.owner = some id →
      Layout.find? (Layout.ofDiagram { Settings.standard with direction } d).nodes id = some b →
      z.rect = b.rect := by
    intro z id b hz hrole howner hb
    obtain ⟨c, hc, m, hm, shows⟩ := shows_of_mem_draw hz hrole
    have hid : c.id = id := by
      rw [← Diagram.id_of_node? hm]
      exact Option.some.inj (shows.owner_eq.symm.trans howner)
    rw [shows.rect_eq, Option.some.inj ((Layout.find?_of_mem hids hc).symm.trans (hid ▸ hb))]
  have hxRect := hrect hx hxRole hxOwner hp
  have hyRect := hrect hy hyRole hyOwner hq
  refine ⟨r.edge, hresolved, x, y, hends, hxRole, hxOwner, hyRole, hyOwner, fun hne => ?_,
    fun heq => ⟨hself heq, ?_⟩⟩
  · obtain ⟨u, v, lateral, hpoints, hpAdmits, hqAdmits, joins⟩ := hstraight hne
    obtain ⟨hu, hv⟩ := joins.onBorder hpAdmits hqAdmits
    exact ⟨u, v, hpath.trans hpoints, hxRect ▸ hu, hyRect ▸ hv⟩
  · rw [hpath, hxRect]
    exact hloop heq

/-- Two entities with a relationship each way, and one from the first to itself. -/
def ledger : Diagram where
  dialect := .entityRelation
  nodes := [.bare "ACCOUNT", .bare "ENTRY"]
  edges :=
    [{ source := "ACCOUNT", target := "ENTRY" }, { source := "ENTRY", target := "ACCOUNT" },
      { source := "ACCOUNT", target := "ACCOUNT" }]

/-- The arrows of `ledger`. -/
theorem ledger_attached :
    ledger.dialect ≠ .sequence ∧ ledger.ids.Nodup ∧
      (ofDiagram .keystream (.standard : Settings Rat) ledger).arrows.length = 3 ∧
      (ofDiagram .keystream (.standard : Settings Rat) ledger).Attached ledger := by
  refine ⟨by decide, by decide, ?_, arrows_attached .keystream none ledger (by decide) (by decide)⟩
  rw [length_arrows, depictions_ofDiagram, countP_isArrow_ofDrawing]
  rfl

end Scene

end Whiteboard
