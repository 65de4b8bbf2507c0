import Whiteboard.Proofs.Scene.Reconcile

/-!
References that hold together.

`Labelled` says that texts and what contains them refer to each other, `Linked` says the same of
arrows and shapes as well. A labelled list whose arrows are bound to shapes becomes linked by
reconciling (`Labelled.linked_reconcile`), and a linked list stays linked when its elements are
renamed, provided no two of them get the same id (`Linked.rename`). Under the same condition it
makes no difference whether elements are renamed before they are reconciled or after
(`Element.reconcile_map`).
-/

namespace Whiteboard

variable {ι κ μ α : Type}

def Element.container? (e : Element ι α) : Option ι :=
  match e.body with
  | .text t => t.container
  | _ => none

def Body.isFigure : Body ι α → Bool
  | .arrow _ | .text _ => false
  | .rectangle | .ellipse | .diamond | .line _ => true

/-- Texts and what contains them refer to each other, and nothing else is referred to. -/
structure Labelled (es : List (Element ι α)) : Prop where
  text_reference_iff : ∀ e ∈ es, ∀ id : ι,
    { id, kind := .text } ∈ e.bound ↔ ∃ t ∈ es, t.id = id ∧ t.container? = some e.id
  container_mem : ∀ t ∈ es, ∀ id, t.container? = some id → ∃ e ∈ es, e.id = id
  kind_eq_text : ∀ e ∈ es, ∀ r ∈ e.bound, r.kind = .text
  references_nodup : ∀ e ∈ es, (e.bound.map (·.id)).Nodup

/-- All references between elements hold together: no two elements share an id, arrows are bound to
shapes, and whatever is bound to an element or contained in it is referred to once. -/
structure Linked (es : List (Element ι α)) : Prop where
  ids_nodup : (es.map (·.id)).Nodup
  binding_mem : ∀ a ∈ es, ∀ b ∈ a.bindings, ∃ x ∈ es, x.id = b.target ∧ x.role = .shape
  arrow_reference_iff : ∀ e ∈ es, ∀ id : ι,
    { id, kind := .arrow } ∈ e.bound ↔ ∃ a ∈ es, a.id = id ∧ ∃ b ∈ a.bindings, b.target = e.id
  text_reference_iff : ∀ e ∈ es, ∀ id : ι,
    { id, kind := .text } ∈ e.bound ↔ ∃ t ∈ es, t.id = id ∧ t.container? = some e.id
  container_mem : ∀ t ∈ es, ∀ id, t.container? = some id → ∃ e ∈ es, e.id = id
  references_nodup : ∀ e ∈ es, (e.bound.map (·.id)).Nodup

namespace Element

/-- A text is bound to nothing. -/
theorem bindings_of_container? {e : Element ι α} {id : ι} (h : e.container? = some id) :
    e.bindings = [] := by
  unfold container? at h
  unfold bindings
  split at h
  · rename_i t ht
    rw [ht]
  · cases h

/-- Only arrows are bound to anything. -/
theorem isArrow_of_mem_bindings {e : Element ι α} {b : Binding ι α} (h : b ∈ e.bindings) :
    e.isArrow = true := by
  unfold bindings at h
  unfold isArrow
  split at h
  · rfl
  · cases h

/-- An arrow is contained in nothing and says nothing. -/
theorem fields_of_isArrow {e : Element ι α} (h : e.isArrow = true) :
    e.container? = none ∧ e.text? = none := by
  unfold isArrow at h
  unfold container? text?
  cases hbody : e.body with
  | arrow a => exact ⟨rfl, rfl⟩
  | _ =>
      rw [hbody] at h
      cases h

theorem container?_of_isArrow {e : Element ι α} (h : e.isArrow = true) :
    e.container? = none :=
  (fields_of_isArrow h).1

/-- A figure is no arrow, is contained in nothing and says nothing. -/
theorem fields_of_isFigure {e : Element ι α} (h : e.body.isFigure = true) :
    e.bindings = [] ∧ e.isArrow = false ∧ e.container? = none ∧ e.text? = none := by
  unfold bindings isArrow container? text?
  cases hbody : e.body with
  | arrow a =>
      rw [hbody] at h
      cases h
  | text t =>
      rw [hbody] at h
      cases h
  | _ => exact ⟨rfl, rfl, rfl, rfl⟩

/-- Only arrows are bound to something. -/
theorem bindings_of_isFigure {e : Element ι α} (h : e.body.isFigure = true) :
    e.bindings = [] :=
  (fields_of_isFigure h).1

/-- Only texts are contained in something. -/
theorem container?_of_isFigure {e : Element ι α} (h : e.body.isFigure = true) :
    e.container? = none :=
  (fields_of_isFigure h).2.2.1

/-- In a list without shared ids, an id tells the element. -/
theorem eq_of_id_eq {es : List (Element ι α)} (hids : (es.map (·.id)).Nodup) {x y : Element ι α}
    (hx : x ∈ es) (hy : y ∈ es) (h : x.id = y.id) : x = y :=
  List.inj_on_of_nodup_map hids hx hy h

@[simp] theorem container?_reconciled [DecidableEq ι] (es : List (Element ι α))
    (e : Element ι α) : (reconciled es e).container? = e.container? := rfl

end Element

theorem exists_mem_map {β γ : Type} {g : β → γ} {xs : List β} {p : γ → Prop} :
    (∃ y ∈ xs.map g, p y) ↔ ∃ x ∈ xs, p (g x) := by
  simp only [List.mem_map, exists_exists_and_eq_and]

/-! ### Lists behind one another -/

/-- A text is not in the container of an element of another list. -/
private theorem text_reference_append {xs ys : List (Element ι α)} (hx : Labelled xs)
    (hy : Labelled ys) (hne : ∀ x ∈ xs, ∀ y ∈ ys, x.id ≠ y.id) {e : Element ι α} (he : e ∈ xs)
    (id : ι) :
    { id, kind := .text } ∈ e.bound ↔
      ∃ t ∈ xs ++ ys, t.id = id ∧ t.container? = some e.id := by
  rw [hx.text_reference_iff e he]
  constructor
  · rintro ⟨t, ht, h⟩
    exact ⟨t, List.mem_append_left _ ht, h⟩
  · rintro ⟨t, ht, hid, hc⟩
    rcases List.mem_append.mp ht with ht | ht
    · exact ⟨t, ht, hid, hc⟩
    · obtain ⟨y, hyMem, hyId⟩ := hy.container_mem t ht _ hc
      exact absurd hyId.symm (hne e he y hyMem)

theorem Labelled.nil : Labelled ([] : List (Element ι α)) := by
  constructor <;> intro e he <;> cases he

/-- Labelled lists without a common id are labelled together. -/
theorem Labelled.append {xs ys : List (Element ι α)} (hx : Labelled xs) (hy : Labelled ys)
    (hne : ∀ x ∈ xs, ∀ y ∈ ys, x.id ≠ y.id) : Labelled (xs ++ ys) where
  text_reference_iff e he id := by
    rcases List.mem_append.mp he with he | he
    · exact text_reference_append hx hy hne he id
    · rw [text_reference_append hy hx (fun y hy' x hx' => (hne x hx' y hy').symm) he id]
      simp only [List.mem_append, or_comm]
  container_mem t ht id hc := by
    rcases List.mem_append.mp ht with ht | ht
    · obtain ⟨e, he, hid⟩ := hx.container_mem t ht id hc
      exact ⟨e, List.mem_append_left _ he, hid⟩
    · obtain ⟨e, he, hid⟩ := hy.container_mem t ht id hc
      exact ⟨e, List.mem_append_right _ he, hid⟩
  kind_eq_text e he := by
    rcases List.mem_append.mp he with he | he
    · exact hx.kind_eq_text e he
    · exact hy.kind_eq_text e he
  references_nodup e he := by
    rcases List.mem_append.mp he with he | he
    · exact hx.references_nodup e he
    · exact hy.references_nodup e he

/-! ### Reconciling -/

section Reconcile

variable [DecidableEq ι] {es : List (Element ι α)}

/-- Nothing refers back to what is bound to an element before reconciling. -/
private theorem mem_missing_iff (labelled : Labelled es) (hids : (es.map (·.id)).Nodup)
    {e : Element ι α} (he : e ∈ es) {id : ι} :
    id ∈ Element.missing es e ↔ ∃ a ∈ es, a.id = id ∧ ∃ b ∈ a.bindings, b.target = e.id := by
  rw [Element.mem_missing]
  constructor
  · rintro ⟨⟨a, ha, hb, hid⟩, -⟩
    exact ⟨a, ha, hid, hb⟩
  · rintro ⟨a, ha, hid, hb⟩
    refine ⟨⟨a, ha, hb, hid⟩, ?_⟩
    rintro ⟨r, hr, hrid⟩
    -- `r` could only refer to a text, and the arrow `a` is none
    have hmem : { id, kind := .text } ∈ e.bound := by
      rw [← hrid, ← labelled.kind_eq_text e he r hr]
      exact hr
    obtain ⟨t, ht, htid, hc⟩ := (labelled.text_reference_iff e he id).mp hmem
    have hta : t = a := Element.eq_of_id_eq hids ht ha (htid.trans hid.symm)
    obtain ⟨b, hb, -⟩ := hb
    rw [← hta, Element.bindings_of_container? hc] at hb
    exact List.not_mem_nil hb

/-- A labelled list whose arrows are bound to shapes is linked once it is reconciled. -/
theorem Labelled.linked_reconcile (labelled : Labelled es) (hids : (es.map (·.id)).Nodup)
    (hshape : ∀ a ∈ es, ∀ b ∈ a.bindings, ∃ x ∈ es, x.id = b.target ∧ x.role = .shape) :
    Linked (Element.reconcile es) := by
  rw [Element.reconcile_eq_map]
  constructor
  case ids_nodup =>
    rw [List.map_map]
    exact hids
  case binding_mem =>
    simp only [List.forall_mem_map, exists_mem_map]
    exact hshape
  case arrow_reference_iff =>
    simp only [List.forall_mem_map, exists_mem_map]
    intro e he id
    have hold : { id, kind := .arrow } ∉ e.bound := by
      intro h
      cases labelled.kind_eq_text e he _ h
    have hnew : id ∈ Element.missing es e ↔ _ := mem_missing_iff labelled hids he
    simpa [Element.bound_reconciled, hold] using hnew
  case text_reference_iff =>
    simp only [List.forall_mem_map, exists_mem_map]
    intro e he id
    have hold := labelled.text_reference_iff e he id
    simpa [Element.bound_reconciled] using hold
  case container_mem =>
    simp only [List.forall_mem_map, exists_mem_map]
    exact labelled.container_mem
  case references_nodup =>
    simp only [List.forall_mem_map]
    intro e he
    have hnew : ((Element.missing es e).map fun a =>
        ({ id := a, kind := .arrow } : BackReference ι)).map (·.id) = Element.missing es e := by
      rw [List.map_map]
      exact List.map_id _
    rw [Element.bound_reconciled, List.map_append, hnew]
    refine List.nodup_append.mpr
      ⟨labelled.references_nodup e he, Element.missing_nodup es e, ?_⟩
    rintro a ha b hb rfl
    exact (Element.mem_missing.mp hb).2 (List.mem_map.mp ha)

end Reconcile

/-! ### Renaming -/

namespace Element

variable (f : ι → κ) (e : Element ι α)

@[simp] theorem id_map : (e.map f).id = f e.id := rfl

@[simp] theorem role_map : (e.map f).role = e.role := rfl

@[simp] theorem owner_map : (e.map f).owner = e.owner := rfl

@[simp] theorem bound_map : (e.map f).bound = e.bound.map (BackReference.map f) := rfl

@[simp] theorem bindings_map : (e.map f).bindings = e.bindings.map (Binding.map f) := by
  unfold bindings map
  cases e.body with
  | arrow a => cases hs : a.startBinding <;> cases ht : a.endBinding <;> simp [Body.map, hs, ht]
  | _ => rfl

@[simp] theorem text?_map : (e.map f).text? = e.text? := by
  unfold text? map
  cases e.body <;> rfl

@[simp] theorem isArrow_map : (e.map f).isArrow = e.isArrow := by
  unfold isArrow map
  cases e.body <;> rfl

@[simp] theorem container?_map : (e.map f).container? = e.container?.map f := by
  unfold container? map
  cases e.body <;> rfl

end Element

section Rename

variable {es : List (Element ι α)} {f : ι → κ}

/-- No two elements get the same id under a renaming. -/
def KeepsApart (f : ι → κ) (es : List (Element ι α)) : Prop :=
  ∀ x ∈ es, ∀ y ∈ es, f x.id = f y.id → x.id = y.id

/-- Ids that are renamed to the same one were the same. -/
theorem KeepsApart.eq (apart : KeepsApart f es) {i j : ι} (hi : ∃ x ∈ es, x.id = i)
    (hj : ∃ y ∈ es, y.id = j) (h : f i = f j) : i = j := by
  obtain ⟨x, hx, rfl⟩ := hi
  obtain ⟨y, hy, rfl⟩ := hj
  exact apart x hx y hy h

/-- Different ids are renamed to different ones. -/
theorem KeepsApart.nodup_map (apart : KeepsApart f es) {is : List ι} (hnodup : is.Nodup)
    (hmem : ∀ i ∈ is, ∃ x ∈ es, x.id = i) : (is.map f).Nodup := by
  apply hnodup.map_on
  intro i hi j hj
  exact apart.eq (hmem i hi) (hmem j hj)

/-- A back-reference after renaming comes from one before. -/
theorem mem_map_bound {e : Element ι α} {kind : BackReferenceKind} {id : κ} :
    { id, kind } ∈ (e.map f).bound ↔ ∃ i, { id := i, kind } ∈ e.bound ∧ f i = id := by
  rw [Element.bound_map, List.mem_map]
  constructor
  · rintro ⟨r, hr, h⟩
    cases h
    exact ⟨r.id, hr, rfl⟩
  · rintro ⟨i, hi, rfl⟩
    exact ⟨_, hi, rfl⟩

/-- What an element refers back to is an element. -/
theorem Linked.reference_mem (linked : Linked es) {e : Element ι α} (he : e ∈ es)
    {r : BackReference ι} (hr : r ∈ e.bound) : ∃ x ∈ es, x.id = r.id := by
  obtain ⟨id, kind⟩ := r
  cases kind with
  | arrow =>
      obtain ⟨a, ha, hid, -⟩ := (linked.arrow_reference_iff e he id).mp hr
      exact ⟨a, ha, hid⟩
  | text =>
      obtain ⟨t, ht, hid, -⟩ := (linked.text_reference_iff e he id).mp hr
      exact ⟨t, ht, hid⟩

/-- A renaming that keeps the elements of a linked list apart keeps the list linked. -/
theorem Linked.rename (linked : Linked es) (apart : KeepsApart f es) :
    Linked (es.map (Element.map f)) := by
  constructor
  case ids_nodup =>
    have hcomp : ((fun x => x.id) ∘ Element.map f : Element ι α → κ) = f ∘ (·.id) := rfl
    rw [List.map_map, hcomp, ← List.map_map]
    exact apart.nodup_map linked.ids_nodup fun i hi => List.mem_map.mp hi
  case binding_mem =>
    simp only [List.forall_mem_map, Element.bindings_map, exists_mem_map]
    intro a ha b hb
    obtain ⟨x, hx, hid, hrole⟩ := linked.binding_mem a ha b hb
    exact ⟨x, hx, congrArg f hid, hrole⟩
  case arrow_reference_iff =>
    simp only [List.forall_mem_map, exists_mem_map, Element.bindings_map, mem_map_bound]
    intro e he id
    constructor
    · rintro ⟨i, hi, rfl⟩
      obtain ⟨a, ha, rfl, b, hb, hbe⟩ := (linked.arrow_reference_iff e he i).mp hi
      exact ⟨a, ha, rfl, b, hb, congrArg f hbe⟩
    · rintro ⟨a, ha, rfl, b, hb, hbe⟩
      obtain ⟨x, hx, hxid, -⟩ := linked.binding_mem a ha b hb
      have htarget : b.target = e.id := apart.eq ⟨x, hx, hxid⟩ ⟨e, he, rfl⟩ hbe
      exact ⟨a.id, (linked.arrow_reference_iff e he a.id).mpr ⟨a, ha, rfl, b, hb, htarget⟩, rfl⟩
  case text_reference_iff =>
    simp only [List.forall_mem_map, exists_mem_map, Element.container?_map, mem_map_bound,
      Option.map_eq_some_iff]
    intro e he id
    constructor
    · rintro ⟨i, hi, rfl⟩
      obtain ⟨t, ht, rfl, hc⟩ := (linked.text_reference_iff e he i).mp hi
      exact ⟨t, ht, rfl, e.id, hc, rfl⟩
    · rintro ⟨t, ht, rfl, c, hc, hce⟩
      have hcontainer : c = e.id := apart.eq (linked.container_mem t ht c hc) ⟨e, he, rfl⟩ hce
      exact ⟨t.id, (linked.text_reference_iff e he t.id).mpr ⟨t, ht, rfl, hcontainer ▸ hc⟩, rfl⟩
  case container_mem =>
    simp only [List.forall_mem_map, exists_mem_map, Element.container?_map,
      Option.map_eq_some_iff]
    rintro t ht id ⟨c, hc, rfl⟩
    obtain ⟨e, he, hid⟩ := linked.container_mem t ht c hc
    exact ⟨e, he, congrArg f hid⟩
  case references_nodup =>
    simp only [List.forall_mem_map, Element.bound_map, List.map_map]
    intro e he
    have hcomp : ((fun r => r.id) ∘ BackReference.map f : BackReference ι → κ) = f ∘ (·.id) := rfl
    rw [hcomp, ← List.map_map]
    apply apart.nodup_map (linked.references_nodup e he)
    intro i hi
    obtain ⟨r, hr, rfl⟩ := List.mem_map.mp hi
    exact linked.reference_mem he hr

end Rename

/-! ### Renaming by two functions -/

theorem Body.map_map (f : ι → κ) (g : κ → μ) (b : Body ι α) : (b.map f).map g = b.map (g ∘ f) := by
  cases b with
  | arrow a =>
      simp only [map, Option.map_map]
      rfl
  | text t => simp only [map, Option.map_map]
  | _ => rfl

namespace Element

theorem map_map (f : ι → κ) (g : κ → μ) (e : Element ι α) : (e.map f).map g = e.map (g ∘ f) := by
  unfold map
  simp only [Body.map_map, List.map_map]
  rfl

/-- Renaming goes by what becomes of the ids that an element mentions. -/
theorem map_congr {f g : ι → κ} {e : Element ι α} (hid : f e.id = g e.id)
    (hbindings : ∀ b ∈ e.bindings, f b.target = g b.target)
    (hcontainer : ∀ id, e.container? = some id → f id = g id)
    (hbound : ∀ r ∈ e.bound, f r.id = g r.id) : e.map f = e.map g := by
  have hbody : e.body.map f = e.body.map g := by
    unfold bindings at hbindings
    unfold container? at hcontainer
    cases hb : e.body with
    | arrow a =>
        rw [hb] at hbindings
        have hends : ∀ b ∈ a.startBinding.toList ++ a.endBinding.toList,
            Binding.map f b = Binding.map g b := by
          intro b hb
          rw [Binding.map, hbindings b hb]
          rfl
        have hstart : a.startBinding.map (Binding.map f) = a.startBinding.map (Binding.map g) :=
          Option.map_congr fun b hb => hends b (by simp [Option.mem_def.mp hb])
        have hend : a.endBinding.map (Binding.map f) = a.endBinding.map (Binding.map g) :=
          Option.map_congr fun b hb => hends b (by simp [Option.mem_def.mp hb])
        rw [Body.map, hstart, hend]
        rfl
    | text t =>
        rw [hb] at hcontainer
        have hc : t.container.map f = t.container.map g :=
          Option.map_congr fun id hid => hcontainer id hid
        rw [Body.map, hc]
        rfl
    | _ => rfl
  have hrefs : e.bound.map (BackReference.map f) = e.bound.map (BackReference.map g) := by
    refine List.map_congr_left fun r hr => ?_
    rw [BackReference.map, hbound r hr]
    rfl
  rw [map, hid, hbody, hrefs]
  rfl

end Element

/-- Two renamings that agree on the elements of a linked list rename the list alike. -/
theorem Linked.map_congr {es : List (Element ι α)} (linked : Linked es) {f g : ι → κ}
    (h : ∀ x ∈ es, f x.id = g x.id) : es.map (Element.map f) = es.map (Element.map g) := by
  refine List.map_congr_left fun e he => Element.map_congr (h e he) ?_ ?_ ?_
  · intro b hb
    obtain ⟨x, hx, hid, -⟩ := linked.binding_mem e he b hb
    exact hid ▸ h x hx
  · intro id hc
    obtain ⟨x, hx, rfl⟩ := linked.container_mem e he id hc
    exact h x hx
  · intro r hr
    obtain ⟨x, hx, hid⟩ := linked.reference_mem he hr
    exact hid ▸ h x hx

/-! ### Reconciling renamed elements -/

section ReconcileMap

variable [DecidableEq ι] [DecidableEq κ] {es : List (Element ι α)} {f : ι → κ}

/-- Every id that some elements mention is that of one of them. -/
structure Closed (es : List (Element ι α)) : Prop where
  binding_mem : ∀ a ∈ es, ∀ b ∈ a.bindings, ∃ x ∈ es, x.id = b.target
  reference_mem : ∀ e ∈ es, ∀ r ∈ e.bound, ∃ x ∈ es, x.id = r.id

namespace Element

/-- Renaming keeps what is bound to what. -/
theorem bindsTo_map (closed : Closed es) (apart : KeepsApart f es) {a e : Element ι α}
    (ha : a ∈ es) (he : e ∈ es) : (a.map f).bindsTo (f e.id) = a.bindsTo e.id := by
  rw [Bool.eq_iff_iff, bindsTo_iff, bindsTo_iff, bindings_map, exists_mem_map]
  constructor
  · rintro ⟨b, hb, htarget⟩
    exact ⟨b, hb, apart.eq (closed.binding_mem a ha b hb) ⟨e, he, rfl⟩ htarget⟩
  · rintro ⟨b, hb, htarget⟩
    exact ⟨b, hb, congrArg f htarget⟩

/-- Renaming keeps the arrows of a shape and their order. -/
theorem boundTo_map (closed : Closed es) (apart : KeepsApart f es) {e : Element ι α}
    (he : e ∈ es) : boundTo (es.map (Element.map f)) (f e.id) = (boundTo es e.id).map f := by
  have hfilter : es.filter (fun a => (a.map f).bindsTo (f e.id)) =
      es.filter (·.bindsTo e.id) :=
    List.filter_congr fun a ha => bindsTo_map closed apart ha he
  have hids : ((es.filter (·.bindsTo e.id)).map (Element.map f)).map (·.id) =
      ((es.filter (·.bindsTo e.id)).map (·.id)).map f := by
    rw [List.map_map, List.map_map]
    rfl
  rw [boundTo, List.filter_map]
  simp only [Function.comp_def]
  rw [hfilter, hids, Roster.eraseDups_map, boundTo]
  intro i hi j hj
  obtain ⟨x, hx, rfl⟩ := List.mem_map.mp hi
  obtain ⟨y, hy, rfl⟩ := List.mem_map.mp hj
  exact apart x (List.mem_filter.mp hx).1 y (List.mem_filter.mp hy).1

/-- Renaming keeps what an element lacks. -/
theorem missing_map (closed : Closed es) (apart : KeepsApart f es) {e : Element ι α}
    (he : e ∈ es) : missing (es.map (Element.map f)) (e.map f) = (missing es e).map f := by
  rw [missing, id_map, boundTo_map closed apart he, List.filter_map, missing]
  refine congrArg (List.map f) (List.filter_congr fun i hi => ?_)
  obtain ⟨x, hx, -, hxi⟩ := mem_boundTo.mp hi
  have href : refersTo (e.map f).bound (f i) = refersTo e.bound i := by
    rw [Bool.eq_iff_iff, refersTo_iff, refersTo_iff, bound_map, exists_mem_map]
    constructor
    · rintro ⟨r, hr, hid⟩
      exact ⟨r, hr, apart.eq (closed.reference_mem e he r hr) ⟨x, hx, hxi⟩ hid⟩
    · rintro ⟨r, hr, hid⟩
      exact ⟨r, hr, congrArg f hid⟩
  rw [Function.comp_apply, href]

/-- Reconciling compares ids only with each other, so it does the same whatever the ids are. -/
theorem reconcile_map (closed : Closed es) (apart : KeepsApart f es) :
    reconcile (es.map (Element.map f)) = (reconcile es).map (Element.map f) := by
  rw [reconcile_eq_map, reconcile_eq_map, List.map_map, List.map_map]
  refine List.map_congr_left fun e he => ?_
  rw [Function.comp_apply, Function.comp_apply, reconciled, missing_map closed apart he]
  simp only [reconciled, Element.map, List.map_append, List.map_map]
  rfl

end Element

end ReconcileMap

end Whiteboard
