import Whiteboard.Proofs.Scene.Builder

/-!
The references of a finished scene.

A builder draws an outline under the stamps of its seed (`draw_eq`). As no two stamps share an id,
this keeps every element apart from every other (`keepsApart_idAt`), so that all references of the
outline arrive in the scene (`reference_integrity`).
-/

namespace Whiteboard.Scene

variable {α : Type}

/-- All ids in a scene name what they are meant to name. -/
structure Intact (scene : Scene α) : Prop where
  /-- No two elements share an id. -/
  ids_nodup : (scene.elements.map (·.id)).Nodup
  /-- Each end of an arrow names exactly one element, and that is a shape. -/
  binding_names_shape : ∀ a ∈ scene.arrows, ∀ b ∈ a.bindings,
    ∃ x, scene.elements.filter (·.id == b.target) = [x] ∧ x.role = .shape
  /-- An element refers back to an arrow exactly if the arrow is bound to it at one of its ends. -/
  arrow_reference_iff : ∀ e ∈ scene.elements, ∀ id,
    { id, kind := .arrow } ∈ e.bound ↔
      ∃ a ∈ scene.arrows, a.id = id ∧ ∃ b ∈ a.bindings, b.target = e.id
  /-- It does so once, even if both ends are bound to it. -/
  arrow_reference_once : ∀ e ∈ scene.elements, ∀ id,
    e.bound.count { id, kind := .arrow } ≤ 1
  /-- An element refers back to a text exactly if it contains the text. -/
  text_reference_iff : ∀ e ∈ scene.elements, ∀ id,
    { id, kind := .text } ∈ e.bound ↔
      ∃ t ∈ scene.elements, t.text?.isSome ∧ t.id = id ∧ t.container? = some e.id
  /-- The list of texts holds the text elements with what they say, from back to front. -/
  texts_eq : scene.texts.map (fun (id, text) => (id, some text)) =
    (scene.elements.filter (·.text?.isSome)).map fun t => (t.id, t.text?)

/-- What an element contains is a text. -/
theorem text?_isSome_of_container? {ι : Type} {e : Element ι α} {id : ι}
    (h : e.container? = some id) : e.text?.isSome = true := by
  unfold Element.container? at h
  unfold Element.text?
  cases hbody : e.body with
  | text t => rfl
  | _ =>
      rw [hbody] at h
      cases h

/-- A scene whose elements are linked is intact. -/
theorem intact_of_linked {scene : Scene α} (linked : Linked scene.elements) : Intact scene where
  ids_nodup := linked.ids_nodup
  binding_names_shape a ha b hb := by
    obtain ⟨x, hx, hid, hrole⟩ := linked.binding_mem a (List.mem_filter.mp ha).1 b hb
    refine ⟨x, ?_, hrole⟩
    rw [← hid]
    exact Roster.filter_key_eq Element.id linked.ids_nodup hx
  arrow_reference_iff e he id := by
    rw [linked.arrow_reference_iff e he id]
    constructor
    · rintro ⟨a, ha, hid, b, hb, htarget⟩
      have harrow := Element.isArrow_of_mem_bindings hb
      exact ⟨a, List.mem_filter.mpr ⟨ha, harrow⟩, hid, b, hb, htarget⟩
    · rintro ⟨a, ha, h⟩
      exact ⟨a, (List.mem_filter.mp ha).1, h⟩
  arrow_reference_once e he id :=
    List.nodup_iff_count_le_one.mp (linked.references_nodup e he).of_map _
  text_reference_iff e he id := by
    rw [linked.text_reference_iff e he id]
    constructor
    · rintro ⟨t, ht, hid, hc⟩
      exact ⟨t, ht, text?_isSome_of_container? hc, hid, hc⟩
    · rintro ⟨t, ht, -, h⟩
      exact ⟨t, ht, h⟩
  texts_eq := by
    unfold texts
    induction scene.elements with
    | nil => rfl
    | cons e es ih => cases he : e.text? <;> simp_all

/-! ### From outline to scene -/

/-- The elements of a scene are those of its outline under other ids. -/
theorem elements_ofOutline {stamps : List Source.Stamp} {outline : List (Element Nat α)}
    (h : stamps.length = outline.length) :
    (ofOutline stamps outline).elements = outline.map (Element.map (idAt stamps)) := by
  have hzip : (outline.zip stamps).map Prod.fst = outline :=
    List.map_fst_zip (Nat.le_of_eq h.symm)
  unfold elements ofOutline
  rw [List.map_map]
  conv => rhs; rw [← hzip, List.map_map]
  rfl

/-- Stamps without a shared id give different ids to different positions. -/
theorem keepsApart_idAt {stamps : List Source.Stamp} (hids : (stamps.map (·.id)).Nodup)
    {outline : List (Element Nat α)} (hbound : ∀ e ∈ outline, e.id < stamps.length) :
    KeepsApart (idAt stamps) outline := by
  have hget : ∀ {i}, i < stamps.length → (stamps.map (·.id))[i]? = some (idAt stamps i) := by
    intro i hi
    simp [idAt, hi]
  intro x hx y hy hxy
  have hi := hbound x hx
  have hj := hbound y hy
  refine (List.getElem?_inj (by simpa using hi) hids).mp ?_
  rw [hget hi, hget hj, hxy]

variable [Scalar α]

/-- A scene is an outline whose ids are kept apart. -/
theorem elements_draw (g : Generator) (s : Settings α) (d : Diagram) (l : Layout α) :
    ∃ f : Nat → String, KeepsApart f (Outline.draw s d l) ∧
      (draw g s d l).elements = (Outline.draw s d l).map (Element.map f) := by
  have hlength : (Source.stamps (Outline.draw s d l).length (Source.ofSeed g s.seed)).length =
      (Outline.draw s d l).length := Source.length_stamps _ _
  rw [draw_eq]
  refine ⟨_, keepsApart_idAt (Source.ids_stamps_nodup _ _) ?_, elements_ofOutline hlength⟩
  intro e he
  rw [hlength, ← List.mem_range, ← Outline.ids_draw]
  exact List.mem_map_of_mem he

/-- The references of a scene are intact, whatever the diagram: its edges may name no node, join a
node to itself or run in parallel, and its node ids may repeat. -/
theorem reference_integrity (g : Generator) (s : Settings α) (d : Diagram) :
    Intact (ofDiagram g s d) := by
  obtain ⟨f, apart, helements⟩ := elements_draw g s d (Layout.ofDiagram s d)
  apply intact_of_linked
  rw [ofDiagram, helements]
  exact (Outline.linked_draw s d _).rename apart

end Whiteboard.Scene
