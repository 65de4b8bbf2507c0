import Whiteboard.Proofs.Roster
import Whiteboard.Scene.Reconcile

/-!
What reconciling adds to an element.

`reconcile` leaves an element as it is but for its back-references, and keeps those in front
(`bound_reconciled`). What it adds is `missing`: the elements bound to the id, in the order of
their first appearance, as far as nothing refers back to them yet. Nothing is assumed of the list:
ids may repeat, bindings may name nothing, and back-references may be there from the start.
-/

namespace Whiteboard.Element

variable {ι α : Type} [DecidableEq ι]

def refersTo (refs : List (BackReference ι)) (id : ι) : Bool :=
  refs.any (·.id == id)

theorem refersTo_iff {refs : List (BackReference ι)} {id : ι} :
    refersTo refs id = true ↔ ∃ r ∈ refs, r.id = id := by
  simp [refersTo]

theorem addArrow_of_refersTo {refs : List (BackReference ι)} {id : ι}
    (h : refersTo refs id = true) : addArrow refs id = refs :=
  if_pos h

theorem addArrow_of_not_refersTo {refs : List (BackReference ι)} {id : ι}
    (h : refersTo refs id = false) :
    addArrow refs id = refs ++ [{ id := id, kind := .arrow }] :=
  if_neg (by simpa [refersTo] using h)

/-- Distinct arrows are added behind what is there, except those referred to already. -/
theorem foldl_addArrow (ids : List ι) (hids : ids.Nodup) (refs : List (BackReference ι)) :
    ids.foldl addArrow refs =
      refs ++ (ids.filter fun a => !refersTo refs a).map fun a => { id := a, kind := .arrow } := by
  induction ids generalizing refs with
  | nil => simp
  | cons a ids ih =>
      obtain ⟨ha, hids⟩ := List.nodup_cons.mp hids
      rw [List.foldl_cons, ih hids]
      cases h : refersTo refs a with
      | true => rw [addArrow_of_refersTo h, List.filter_cons_of_neg (by simp [h])]
      | false =>
          -- the arrow just added is none of those still to come
          have hrest : (ids.filter fun b => !refersTo (addArrow refs a) b) =
              ids.filter fun b => !refersTo refs b := by
            refine List.filter_congr fun b hb => ?_
            have hne : ¬ a = b := fun e => ha (e ▸ hb)
            rw [addArrow_of_not_refersTo h]
            simp [refersTo, hne]
          rw [hrest, addArrow_of_not_refersTo h, List.filter_cons_of_pos (by simp [h])]
          simp

/-- What an element lacks: the elements bound to it that nothing in it refers back to. -/
def missing (es : List (Element ι α)) (e : Element ι α) : List ι :=
  (boundTo es e.id).filter fun a => !refersTo e.bound a

def reconciled (es : List (Element ι α)) (e : Element ι α) : Element ι α :=
  { e with bound := e.bound ++ (missing es e).map fun a => { id := a, kind := .arrow } }

/-- An arrow with both ends on a shape is listed once. -/
theorem boundTo_nodup (es : List (Element ι α)) (id : ι) : (boundTo es id).Nodup :=
  Roster.eraseDups_nodup _

/-- What is listed for an id is exactly what is bound to it. -/
theorem mem_boundTo {es : List (Element ι α)} {id a : ι} :
    a ∈ boundTo es id ↔ ∃ x ∈ es, x.bindsTo id = true ∧ x.id = a := by
  simp [boundTo, and_assoc]

theorem bindsTo_iff {e : Element ι α} {id : ι} :
    e.bindsTo id = true ↔ ∃ b ∈ e.bindings, b.target = id := by
  simp [bindsTo]

/-- Each element is reconciled on its own. -/
theorem reconcile_eq_map (es : List (Element ι α)) : reconcile es = es.map (reconciled es) := by
  refine List.map_congr_left fun e _ => ?_
  rw [foldl_addArrow _ (boundTo_nodup es e.id)]
  rfl

/-- An element lacks what is bound to it and not yet referred to. -/
theorem mem_missing {es : List (Element ι α)} {e : Element ι α} {a : ι} :
    a ∈ missing es e ↔
      (∃ x ∈ es, (∃ b ∈ x.bindings, b.target = e.id) ∧ x.id = a) ∧ ¬ ∃ r ∈ e.bound, r.id = a := by
  simp only [missing, List.mem_filter, mem_boundTo, bindsTo_iff, Bool.not_eq_true',
    ← Bool.not_eq_true, refersTo_iff]

/-- Nothing is missed twice. -/
theorem missing_nodup (es : List (Element ι α)) (e : Element ι α) : (missing es e).Nodup :=
  (boundTo_nodup es e.id).filter _

section Fields

variable (es : List (Element ι α)) (e : Element ι α)

@[simp] theorem id_reconciled : (reconciled es e).id = e.id := rfl

@[simp] theorem bindings_reconciled : (reconciled es e).bindings = e.bindings := rfl

/-- What is missing stands behind what was there. -/
theorem bound_reconciled :
    (reconciled es e).bound =
      e.bound ++ (missing es e).map fun a => { id := a, kind := .arrow } :=
  rfl

end Fields

end Whiteboard.Element
