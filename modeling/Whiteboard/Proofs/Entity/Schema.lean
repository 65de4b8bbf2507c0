import Whiteboard.Entity.Schema
import Whiteboard.Proofs.Diagram.Records

/-!
What a schema records of its lines.

Which lines are statements depends on whether a block is open, and nothing else of the schema
(`transcript`). An attribute is added to the entity whose block is open, which has been named before
(`Settled`), so only statements outside blocks name entities, and the entities are what they name,
in the order of the first mention (`records_toDiagram`).
-/

namespace Whiteboard.Entity

open Roster

/-! ### Statements -/

namespace Statement

/-- The ids that a statement names; of a relationship, the left one and then the right one. -/
def names : Statement → List String
  | relationship r => [r.left, r.right]
  | opening id _ _ => [id]

def edges : Statement → List Edge
  | relationship r => [r.edge]
  | opening _ _ _ => []

def opensBlock : Statement → Bool
  | relationship _ => false
  | opening _ _ closed => !closed

/-- A relationship names both its ends. -/
theorem named (st : Statement) : Named st.names st.edges := by
  intro e he
  cases st with
  | relationship r =>
      rw [List.mem_singleton.mp he]
      exact ⟨List.mem_cons_self, List.mem_cons_of_mem _ List.mem_cons_self⟩
  | opening id otherName closed => cases he

end Statement

def isHeader (line : List Char) : Bool :=
  Text.sameLetters line "erDiagram".toList

/-- What a line says while a block is open or not, as a statement outside blocks. -/
def heard? (inside : Bool) (line : List Char) : Option Statement :=
  if isHeader line || inside then none else Statement.ofLine? line

def insideAfter (inside : Bool) (line : List Char) : Bool :=
  if isHeader line then inside
  else if inside then BlockStatement.ofLine? line != some .close
  else (Statement.ofLine? line).any Statement.opensBlock

def transcript : (inside : Bool) → List (List Char) → List Statement
  | _, [] => []
  | inside, line :: lines =>
    (heard? inside line).toList ++ transcript (insideAfter inside line) lines

/-- The statements of a text that stand outside blocks. -/
def statements (body : List Char) : List Statement :=
  transcript false (Text.significantLines body)

/-! ### Entities -/

/-- A change of an entity that keeps the id enrols the id. -/
theorem ids_change {f : Table → Table} (hf : ∀ e, (f e).id = e.id) (id : String)
    (es : List Table) : (change id f es).map (·.id) = enroll (es.map (·.id)) id := by
  refine map_change (change id f) ?_ ?_ hf es
  · exact congrArg (· :: []) (hf { id })
  · exact fun e es => rfl

namespace Schema

def ids (s : Schema) : List String :=
  s.entities.map (·.id)

def edges (s : Schema) : List Edge :=
  s.relationships.map (·.edge)

/-- The entity whose block is open is there. -/
def Settled (s : Schema) : Prop :=
  ∀ id, s.inside = some id → id ∈ s.ids

/-- What a line that says at most one statement outside blocks does to a schema. -/
structure Takes (s t : Schema) (said : Option Statement) (inside : Bool) : Prop where
  ids_eq : t.ids = (said.toList.flatMap Statement.names).foldl enroll s.ids
  edges_eq : t.edges = s.edges ++ said.toList.flatMap Statement.edges
  inside_eq : t.inside.isSome = inside
  settled : t.Settled

/-- A line that says nothing leaves the schema as it is. -/
theorem takes_nothing {s : Schema} (settled : s.Settled) : s.Takes s none s.inside.isSome where
  ids_eq := rfl
  edges_eq := (List.append_nil _).symm
  inside_eq := rfl
  settled := settled

/-- A statement outside blocks is taken in. -/
theorem takes_add {s : Schema} (hinside : s.inside = none) (st : Statement) :
    s.Takes (s.add st) (some st) st.opensBlock := by
  cases st with
  | relationship r =>
      have hids : (introduce r.right (introduce r.left s.entities)).map (·.id) =
          enroll (enroll s.ids r.left) r.right := by
        rw [introduce, ids_change (fun e => rfl), introduce, ids_change (fun e => rfl)]
        rfl
      constructor
      case ids_eq => exact hids
      case edges_eq => exact List.map_append
      case inside_eq => exact congrArg Option.isSome hinside
      case settled =>
        intro id h
        rw [show (s.add (.relationship r)).inside = s.inside from rfl, hinside] at h
        cases h
  | opening id otherName closed =>
      have hids : (s.add (.opening id otherName closed)).ids = enroll s.ids id :=
        ids_change (f := fun e => { e with otherName := otherName.or e.otherName }) (fun e => rfl)
          id s.entities
      constructor
      case ids_eq => exact hids
      case edges_eq => exact (List.append_nil _).symm
      case inside_eq => cases closed <;> rfl
      case settled =>
        intro id' h
        cases closed with
        | true => cases h
        | false =>
            cases h
            rw [hids, mem_enroll]
            exact .inr rfl

/-- Inside a block nothing is named that was not there before. -/
theorem takes_addInside {s : Schema} (settled : s.Settled) {id : String}
    (hinside : s.inside = some id) (b : BlockStatement) :
    s.Takes (s.addInside id b) none (b != .close) := by
  rcases b with a | _
  · have hids : (s.addInside id (.attribute a)).ids = s.ids := by
      have h := ids_change (f := fun e => { e with attributes := e.attributes ++ [a] })
        (fun e => rfl) id s.entities
      exact h.trans (if_pos (settled id hinside))
    constructor
    case ids_eq => exact hids
    case edges_eq => exact (List.append_nil _).symm
    case inside_eq => exact congrArg Option.isSome hinside
    case settled =>
      intro id' h
      rw [hids]
      exact settled id' h
  · constructor
    case ids_eq => rfl
    case edges_eq => exact (List.append_nil _).symm
    case inside_eq => rfl
    case settled =>
      intro id' h
      cases h

/-- A line does what the transcript says it does. -/
theorem takes_addLine {s : Schema} (settled : s.Settled) (line : List Char) :
    s.Takes (s.addLine line) (heard? s.inside.isSome line) (insideAfter s.inside.isSome line) := by
  unfold addLine heard? insideAfter
  change s.Takes (if isHeader line = true then s else _) _ _
  cases isHeader line with
  | true => exact takes_nothing settled
  | false =>
      cases hinside : s.inside with
      | none =>
          cases hst : Statement.ofLine? line with
          | none =>
              have h := takes_nothing settled
              rw [hinside] at h
              exact h
          | some st => exact takes_add hinside st
      | some id =>
          cases hb : BlockStatement.ofLine? line with
          | none =>
              have h := takes_nothing settled
              rw [hinside] at h
              exact h
          | some b => exact takes_addInside settled hinside b

/-- Lines name and draw what the statements of their transcript do. -/
theorem foldl_addLine (lines : List (List Char)) {s : Schema} (settled : s.Settled) :
    (lines.foldl addLine s).ids =
        ((transcript s.inside.isSome lines).flatMap Statement.names).foldl enroll s.ids ∧
      (lines.foldl addLine s).edges =
        s.edges ++ (transcript s.inside.isSome lines).flatMap Statement.edges := by
  induction lines generalizing s with
  | nil => exact ⟨rfl, (List.append_nil _).symm⟩
  | cons line lines ih =>
      have takes := takes_addLine settled line
      obtain ⟨hids, hedges⟩ := ih takes.settled
      rw [takes.inside_eq, takes.ids_eq] at hids
      rw [takes.inside_eq, takes.edges_eq] at hedges
      rw [List.foldl_cons, hids, hedges, transcript, List.flatMap_append, List.flatMap_append,
        List.foldl_append, List.append_assoc]
      exact ⟨rfl, rfl⟩

/-- The diagram of a text about entities records what its statements name and draw. -/
theorem records_toDiagram (body : List Char) (directive : Directive) (text : String) :
    ((ofText body).toDiagram directive text).Records
      ((statements body).flatMap Statement.names) ((statements body).flatMap Statement.edges) := by
  have hids : ((ofText body).toDiagram directive text).ids = (ofText body).ids := List.map_map
  have hsettled : ({} : Schema).Settled := by
    intro id h
    cases h
  obtain ⟨hnames, hedges⟩ := foldl_addLine (Text.significantLines body) hsettled
  refine Diagram.records_of_named ?_ ?_ (Named.flatMap Statement.named _) ?_
  · rw [hids, ofText, hnames]
    exact foldl_enroll [] _
  · exact hedges
  · intro g hg
    cases hg

end Schema

end Whiteboard.Entity
