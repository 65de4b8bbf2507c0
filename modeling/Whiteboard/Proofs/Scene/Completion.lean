import Whiteboard.Proofs.Scene.Linked

/-!
Reconciling completes the back-references of any elements.

An element is `Completed` if behind its back-references stand those of the arrows bound to it that
nothing in it referred to, in the order of the arrows, and if nothing else of it has changed. Every
element of a list is completed by reconciling the list, and reconciling it again changes nothing
(`reconcile_completes`). Ids may repeat, bindings may name nothing or another arrow, and
back-references may be there from the start.
-/

namespace Whiteboard.Element

variable {ι α : Type} [DecidableEq ι]

/-- Where the first element with an id stands that is bound to a target. -/
def attachedAt (es : List (Element ι α)) (target id : ι) : Nat :=
  Roster.firstAt (fun x => x.bindsTo target) (·.id) es id

/-- What reconciling some elements makes of one of them: behind its back-references stand those of
some arrows, and nothing else has changed. -/
structure Completed (es : List (Element ι α)) (e e' : Element ι α) (added : List ι) : Prop where
  same : { e' with bound := e.bound } = e
  bound_eq : e'.bound = e.bound ++ added.map fun id => { id, kind := .arrow }
  /-- The arrows are those bound to the element that nothing in it referred back to. -/
  mem_added : ∀ id, id ∈ added ↔
    (∃ a ∈ es, a.isArrow = true ∧ (∃ b ∈ a.bindings, b.target = e.id) ∧ a.id = id) ∧
      ∀ r ∈ e.bound, r.id ≠ id
  added_nodup : added.Nodup
  /-- They stand in the order in which arrows with their ids are first bound to the element. -/
  ordered : added.Pairwise fun i j => attachedAt es e.id i < attachedAt es e.id j

/-- Reconciling adds what is missing and changes nothing else. -/
theorem completed_reconciled (es : List (Element ι α)) (e : Element ι α) :
    Completed es e (reconciled es e) (missing es e) where
  same := rfl
  bound_eq := rfl
  mem_added id := by
    rw [mem_missing]
    constructor
    · rintro ⟨⟨a, ha, ⟨b, hb, htarget⟩, hid⟩, hnone⟩
      exact ⟨⟨a, ha, isArrow_of_mem_bindings hb, ⟨b, hb, htarget⟩, hid⟩,
        fun r hr h => hnone ⟨r, hr, h⟩⟩
    · rintro ⟨⟨a, ha, -, hbound, hid⟩, hnone⟩
      exact ⟨⟨a, ha, hbound, hid⟩, fun ⟨r, hr, h⟩ => hnone r hr h⟩
  added_nodup := missing_nodup es e
  ordered := (Roster.pairwise_firstAt _ _ es).filter _

/-! ### Reconciling again -/

/-- Reconciling changes no binding. -/
theorem boundTo_reconcile (es : List (Element ι α)) (id : ι) :
    boundTo (reconcile es) id = boundTo es id := by
  rw [boundTo, reconcile_eq_map, List.filter_map, List.map_map]
  rfl

/-- A reconciled element refers back to everything bound to it. -/
theorem missing_reconciled (es : List (Element ι α)) (e : Element ι α) :
    missing (reconcile es) (reconciled es e) = [] := by
  rw [missing, boundTo_reconcile, id_reconciled, List.filter_eq_nil_iff]
  intro id hid
  rw [Bool.not_eq_true', Bool.not_eq_false, refersTo_iff, bound_reconciled]
  by_cases h : refersTo e.bound id = true
  · obtain ⟨r, hr, hrid⟩ := refersTo_iff.mp h
    exact ⟨r, List.mem_append_left _ hr, hrid⟩
  · have hmissing : id ∈ missing es e := List.mem_filter.mpr ⟨hid, by simpa using h⟩
    exact ⟨_, List.mem_append_right _ (List.mem_map_of_mem hmissing), rfl⟩

/-- After reconciling nothing is missing. -/
theorem reconciled_reconciled (es : List (Element ι α)) (e : Element ι α) :
    reconciled (reconcile es) (reconciled es e) = reconciled es e := by
  rw [reconciled, missing_reconciled, List.map_nil, List.append_nil]

/-- Reconciling completes every element of a list and leaves it in its place, and reconciling again
changes nothing. -/
theorem reconcile_completes (es : List (Element ι α)) :
    List.Forall₂ (fun e e' => ∃ added, Completed es e e' added) es (reconcile es) ∧
      reconcile (reconcile es) = reconcile es := by
  constructor
  · rw [reconcile_eq_map, List.forall₂_map_right_iff, List.forall₂_same]
    exact fun e _ => ⟨_, completed_reconciled es e⟩
  · calc
      reconcile (reconcile es) = (reconcile es).map (reconciled (reconcile es)) :=
        reconcile_eq_map _
      _ = es.map fun e => reconciled (reconcile es) (reconciled es e) := by
        conv => lhs; arg 2; rw [reconcile_eq_map]
        rw [List.map_map]
        rfl
      _ = reconcile es := by
        conv => rhs; rw [reconcile_eq_map]
        exact List.map_congr_left fun e _ => reconciled_reconciled es e

end Whiteboard.Element
