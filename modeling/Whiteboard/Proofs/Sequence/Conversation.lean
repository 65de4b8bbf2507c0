import Whiteboard.Proofs.Diagram.Records
import Whiteboard.Sequence.Conversation

/-!
What a conversation records of its statements.

Whatever changes a participant enrols its id first (`ids_change`), so the participants are the ids
that have been declared, mentioned or used in messages, in the order of their first appearance
(`records_toDiagram`).
-/

namespace Whiteboard.Sequence

open Roster

/-- The ids that a statement names; of a message, the sender and then the receiver. -/
def Statement.names : Statement → List String
  | declare _ id _ => [id]
  | mention id => [id]
  | message m => [m.sender, m.receiver]

def Statement.edges : Statement → List Edge
  | message m => [m.edge]
  | _ => []

/-- A message names both its ends. -/
theorem Statement.named (st : Statement) : Named st.names st.edges := by
  intro e he
  cases st with
  | message m =>
      rw [List.mem_singleton.mp he]
      exact ⟨List.mem_cons_self, List.mem_cons_of_mem _ List.mem_cons_self⟩
  | _ => cases he

/-- A change of a participant that keeps the id enrols the id. -/
theorem ids_change {f : Participant → Participant} (hf : ∀ p, (f p).id = p.id) (id : String)
    (ps : List Participant) : (change id f ps).map (·.id) = enroll (ps.map (·.id)) id := by
  refine map_change (change id f) ?_ ?_ hf ps
  · exact congrArg (· :: []) (hf (.bare id))
  · exact fun p ps => rfl

namespace Conversation

def ids (c : Conversation) : List String :=
  c.participants.map (·.id)

def edges (c : Conversation) : List Edge :=
  c.messages.map (·.edge)

/-- A statement enrolls the ids it names. -/
theorem ids_add (c : Conversation) (st : Statement) :
    (c.add st).ids = st.names.foldl enroll c.ids := by
  cases st with
  | declare kind id otherName =>
      exact ids_change (f := (·.declared kind otherName)) (fun p => rfl) id c.participants
  | mention id => exact ids_change (fun p => rfl) id c.participants
  | message m =>
      change (join m.receiver (join m.sender c.participants)).map (·.id) = _
      rw [join, ids_change (fun p => rfl), join, ids_change (fun p => rfl)]
      rfl

theorem edges_add (c : Conversation) (st : Statement) :
    (c.add st).edges = c.edges ++ st.edges := by
  cases st with
  | message m => exact List.map_append
  | _ => exact (List.append_nil _).symm

/-- The participants are the ids that the statements name, each at its first mention. -/
theorem ids_ofStatements (sts : List Statement) :
    (ofStatements sts).ids = (sts.flatMap Statement.names).eraseDups := by
  rw [ofStatements, foldl_flatMap ids_add]
  exact foldl_enroll [] _

/-- The diagram of a conversation records what its statements name and draw. -/
theorem records_toDiagram (sts : List Statement) (directive : Directive) (text : String) :
    ((ofStatements sts).toDiagram directive text).Records
      (sts.flatMap Statement.names) (sts.flatMap Statement.edges) := by
  have hids : ((ofStatements sts).toDiagram directive text).ids = (ofStatements sts).ids :=
    List.map_map
  refine Diagram.records_of_named ?_ ?_ (Named.flatMap Statement.named sts) ?_
  · rw [hids, ids_ofStatements]
  · exact foldl_append edges_add sts {}
  · intro g hg
    cases hg

end Conversation

end Whiteboard.Sequence
