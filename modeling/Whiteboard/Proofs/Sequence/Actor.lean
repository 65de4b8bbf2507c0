import Mathlib.Data.List.Induction
import Whiteboard.Proofs.Sequence.Conversation

/-!
Who is an actor.

A statement makes at most one participant an actor, and no statement takes it back. So the actors of
a conversation are the participants that some statement declares as such (`isActor_eq_any`),
wherever it stands and whatever else is said about them before or after it.
-/

namespace Whiteboard.Sequence

open Roster

def Statement.declaresActor (id : String) : Statement → Bool
  | declare kind id' _ => kind == .actor && id == id'
  | _ => false

/-- The participants are those ids of `acts` that are actors, and no other id is one. -/
structure Cast (ps : List Participant) (acts : String → Bool) : Prop where
  ids_nodup : (ps.map (·.id)).Nodup
  isActor_eq : ∀ p ∈ ps, p.isActor = acts p.id
  mem_ids : ∀ id, acts id = true → id ∈ ps.map (·.id)

theorem Cast.congr {ps : List Participant} {acts acts' : String → Bool} (cast : Cast ps acts)
    (h : ∀ id, acts id = acts' id) : Cast ps acts' :=
  funext h ▸ cast

/-- A change that may make its participant an actor and leaves the id as it is. -/
theorem Cast.change {ps : List Participant} {acts : String → Bool} (cast : Cast ps acts)
    (f : Participant → Participant) (actor : Bool) (hid : ∀ p, (f p).id = p.id)
    (hactor : ∀ p, (f p).isActor = (p.isActor || actor)) (id : String) :
    Cast (change id f ps) fun other => acts other || (actor && other == id) where
  ids_nodup := by
    rw [ids_change hid]
    exact enroll_nodup cast.ids_nodup id
  isActor_eq p hp := by
    have hnew : id ∉ ps.map (·.id) → acts id = false := fun hnone =>
      Bool.eq_false_iff.mpr fun h => hnone (cast.mem_ids id h)
    rcases mem_change (Sequence.change id f) (.bare id) rfl (fun _ _ => rfl) rfl cast.ids_nodup hp
      with ⟨hmem, hne⟩ | ⟨q, rfl, hq, hmem | ⟨rfl, hnone⟩⟩
    · rw [cast.isActor_eq p hmem, beq_false_of_ne hne, Bool.and_false, Bool.or_false]
    · rw [hactor, hid, cast.isActor_eq q hmem, hq, beq_self_eq_true, Bool.and_true]
    · rw [hactor, hid, hq, hnew hnone, beq_self_eq_true, Bool.and_true]
      rfl
  mem_ids other h := by
    rw [ids_change hid, mem_enroll]
    rcases Bool.or_eq_true_iff.mp h with h | h
    · exact .inl (cast.mem_ids other h)
    · exact .inr (beq_iff_eq.mp (Bool.and_eq_true_iff.mp h).2)

namespace Conversation

/-- Joining makes nobody an actor. -/
theorem cast_join {ps : List Participant} {acts : String → Bool} (cast : Cast ps acts)
    (id : String) : Cast (join id ps) acts := by
  have h := cast.change (fun p => p) false (fun _ => rfl) (fun p => (Bool.or_false _).symm) id
  exact h.congr fun other => Bool.or_false (acts other)

/-- A statement adds the actor it declares. -/
theorem cast_add {c : Conversation} {acts : String → Bool} (cast : Cast c.participants acts)
    (st : Statement) :
    Cast (c.add st).participants fun id => acts id || st.declaresActor id := by
  have hnone : ∀ id, acts id = (acts id || false) := fun id => (Bool.or_false _).symm
  cases st with
  | declare kind id otherName =>
      exact cast.change (·.declared kind otherName) (kind == .actor) (fun _ => rfl)
        (fun _ => rfl) id
  | mention id => exact (cast_join cast id).congr hnone
  | message m => exact (cast_join (cast_join cast m.sender) m.receiver).congr hnone

/-- Actors are those whom some statement declares as one, wherever it stands. -/
theorem cast_ofStatements (sts : List Statement) :
    Cast (ofStatements sts).participants fun id => sts.any (·.declaresActor id) := by
  induction sts using List.reverseRecOn with
  | nil => exact ⟨List.nodup_nil, fun p hp => absurd hp List.not_mem_nil, fun id h => by cases h⟩
  | append_singleton sts st ih =>
      rw [ofStatements, List.foldl_concat]
      refine (cast_add ih st).congr fun id => ?_
      rw [List.any_append, List.any_cons, List.any_nil, Bool.or_false]

/-- A participant is an actor exactly if some statement declares it as one. -/
theorem isActor_eq_any {sts : List Statement} {p : Participant}
    (hp : p ∈ (ofStatements sts).participants) : p.isActor = sts.any (·.declaresActor p.id) :=
  (cast_ofStatements sts).isActor_eq p hp

end Conversation

end Whiteboard.Sequence
