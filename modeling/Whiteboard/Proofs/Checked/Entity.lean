import Whiteboard.Entity.Schema
import Whiteboard.Proofs.Checked.Text

/-!
Reading an entity-relationship diagram by positions.

The labels of relationships are cut out of their quotes by offsets (`statement_eq`). The lines are
added up with the position of the entity whose block is open, which is that of the first entity with
its id as long as the block is open (`Tracks`), so that an attribute finds the entity it belongs to
(`schema_eq`).
-/

namespace Whiteboard.Checked.Entity

open Text Whiteboard.Entity

/-! ### Lines -/

def labelOf (cs : List Char) : Attempt (Option String) := do
  let label := trim (← unquote cs)
  pure (if label.isEmpty then none else some (String.ofList label))

def ending (cs : List Char) : Attempt (Option (Option String)) :=
  match trimStart cs with
  | [] => pure (some none)
  | ':' :: rest =>
    let label := trimStart rest
    if label.contains '\n' then pure none else return some (← labelOf label)
  | _ => pure none

def secondName (cs : List Char) : Attempt (Option (String × Option String)) :=
  match run? isNameChar (trimStart cs) with
  | none => pure none
  | some (right, rest) => return (← ending rest).map fun label => (String.ofList right, label)

def relationship (line : List Char) : Attempt (Option Relationship) :=
  (names line).findSomeM? fun name =>
    symbols.findSomeM? fun a =>
      match strip? a (trimStart name.2) with
      | none => pure none
      | some rest =>
        lines.findSomeM? fun dashes =>
          match strip? dashes.1 rest with
          | none => pure none
          | some rest =>
            symbols.findSomeM? fun b =>
              match strip? b rest with
              | none => pure none
              | some rest => return (← secondName rest).map fun second =>
                { left := String.ofList name.1
                  right := second.1
                  ends := some (String.ofList a, String.ofList b)
                  identifying := dashes.2
                  label := second.2 }

def plainRelationship (line : List Char) : Attempt (Option Relationship) :=
  (names line).findSomeM? fun name =>
    ['-', '.'].findSomeM? fun c =>
      (dashes c (trimStart name.2)).findSomeM? fun dashes =>
        return (← secondName dashes.2).map fun second =>
          { left := String.ofList name.1
            right := second.1
            identifying := c == '-'
            label := second.2 }

def statement (line : List Char) : Attempt (Option Statement) := do
  let line := trim line
  match ← relationship line with
  | some r => pure (some (.relationship r))
  | none =>
    match ← plainRelationship line with
    | some r => pure (some (.relationship r))
    | none => pure (opening? line)

theorem labelOf_eq (cs : List Char) : labelOf cs = pure (Whiteboard.Entity.labelOf cs) := by
  rw [labelOf, unquote_eq]
  rfl

theorem ending_eq (cs : List Char) : ending cs = pure (ending? cs) := by
  unfold ending ending?
  simp only [labelOf_eq, pure_bind]
  cases trimStart cs with
  | nil => rfl
  | cons c rest =>
      by_cases hc : c = ':'
      · subst hc
        simp only
        split <;> rfl
      · split <;> simp_all

theorem secondName_eq (cs : List Char) : secondName cs = pure (secondName? cs) := by
  rw [secondName, secondName?]
  cases run? isNameChar (trimStart cs) with
  | none => rfl
  | some pair =>
      simp only [ending_eq, pure_bind, Option.bind_eq_bind, Option.bind_some]
      cases ending? pair.2 <;> rfl

theorem relationship_eq (line : List Char) : relationship line = pure (relationship? line) := by
  refine findSomeM?_eq_pure (fun name => ?_) _
  refine findSomeM?_eq_pure (fun a => ?_) _
  cases strip? a (trimStart name.2) with
  | none => rfl
  | some rest =>
      simp only [Option.bind_eq_bind, Option.bind_some]
      refine findSomeM?_eq_pure (fun (token, identifying) => ?_) _
      dsimp only
      cases strip? token rest with
      | none => rfl
      | some rest =>
          simp only [Option.bind_some]
          refine findSomeM?_eq_pure (fun b => ?_) _
          cases strip? b rest with
          | none => rfl
          | some rest =>
              dsimp only
              rw [secondName_eq, pure_bind, Option.bind_some]
              cases secondName? rest <;> rfl

theorem plainRelationship_eq (line : List Char) :
    plainRelationship line = pure (plainRelationship? line) := by
  refine findSomeM?_eq_pure (fun name => ?_) _
  refine findSomeM?_eq_pure (fun c => ?_) _
  refine findSomeM?_eq_pure (fun (dashes, rest) => ?_) _
  dsimp only
  rw [secondName_eq, pure_bind]
  cases secondName? rest <;> rfl

theorem statement_eq (line : List Char) : statement line = pure (Statement.ofLine? line) := by
  rw [statement, relationship_eq, plainRelationship_eq, Statement.ofLine?]
  simp only [pure_bind]
  cases relationship? (trim line) with
  | some r => rfl
  | none =>
      cases plainRelationship? (trim line) with
      | some r => rfl
      | none => rfl

/-! ### Schemas -/

/-- A schema read so far, with the position of the entity whose block is open. -/
structure Progress where
  entities : List Table := []
  relationships : List Relationship := []
  inside : Option Nat := none

/-- The position of the first entity with an id, which comes last if it is new. -/
def introduce (id : String) (es : List Table) : Attempt (Nat × List Table) :=
  match es.findIdx? (·.id == id) with
  | some i => pure (i, es)
  | none => do
    let es := es ++ [{ id }]
    let last ← difference es.length 1
    pure (last, es)

def update (i : Nat) (f : Table → Table) (es : List Table) : Attempt (List Table) := do
  let e ← read es i
  write es i (f e)

/-- Gives an alias to the entity at a position, if there is one to give. -/
def rename (i : Nat) (otherName : Option String) (es : List Table) : Attempt (List Table) :=
  match otherName with
  | some name => update i (fun e => { e with otherName := some name }) es
  | none => pure es

def add (p : Progress) : Statement → Attempt Progress
  | .relationship r => do
    let (_, es) ← introduce r.left p.entities
    let (_, es) ← introduce r.right es
    pure { p with entities := es, relationships := p.relationships ++ [r] }
  | .opening id otherName closed => do
    let (i, es) ← introduce id p.entities
    let es ← rename i otherName es
    pure { p with entities := es, inside := if closed then none else some i }

/-- The schema after one more statement inside the block of the entity at a position. -/
def addInside (p : Progress) (i : Nat) : BlockStatement → Attempt Progress
  | .attribute a => do
    let es ← update i (fun e => { e with attributes := e.attributes ++ [a] }) p.entities
    pure { p with entities := es }
  | .close => pure { p with inside := none }

def addLine (p : Progress) (line : List Char) : Attempt Progress :=
  if sameLetters line "erDiagram".toList then pure p
  else
    match p.inside with
    | some i =>
      match BlockStatement.ofLine? line with
      | some s => addInside p i s
      | none => pure p
    | none => do
      match ← statement line with
      | some s => add p s
      | none => pure p

/-- The position of the open block is that of the first entity with its id. -/
inductive Marks (es : List Table) : Option Nat → Option String → Prop where
  | outside : Marks es none none
  | inside {i : Nat} {id : String} :
      es.findIdx? (·.id == id) = some i → Marks es (some i) (some id)

/-- What has been read by positions is a schema. -/
structure Tracks (p : Progress) (s : Schema) : Prop where
  entities : p.entities = s.entities
  relationships : p.relationships = s.relationships
  inside : Marks s.entities p.inside s.inside

variable {id : String} {es : List Table} {i : Nat} {f : Table → Table}

/-- Changing the entity of an id is setting the one at its position. -/
theorem change_of_findIdx? (h : es.findIdx? (·.id == id) = some i) :
    ∃ e, es[i]? = some e ∧ change id f es = es.set i (f e) := by
  induction es generalizing i with
  | nil => cases h
  | cons e es ih =>
      rw [change]
      by_cases hid : (e.id == id) = true
      · rw [List.findIdx?_cons, if_pos hid] at h
        cases h
        exact ⟨e, rfl, if_pos hid⟩
      · rw [List.findIdx?_cons, if_neg hid] at h
        obtain ⟨j, hj, rfl⟩ := Option.map_eq_some_iff.mp h
        obtain ⟨e', hget, hchange⟩ := ih hj
        refine ⟨e', by simpa using hget, ?_⟩
        rw [if_neg hid, hchange, List.set_cons_succ]

/-- An entity that is not there yet comes last. -/
theorem change_of_findIdx?_eq_none (h : es.findIdx? (·.id == id) = none) :
    change id f es = es ++ [f { id }] := by
  induction es with
  | nil => rfl
  | cons e es ih =>
      rw [List.findIdx?_cons] at h
      by_cases hid : (e.id == id) = true
      · rw [if_pos hid] at h
        cases h
      · rw [if_neg hid, Option.map_eq_none_iff] at h
        rw [change, if_neg hid, ih h, List.cons_append]

theorem introduce_of_findIdx? (h : es.findIdx? (·.id == id) = some i) :
    Whiteboard.Entity.introduce id es = es := by
  obtain ⟨e, hget, hchange⟩ := change_of_findIdx? (f := fun e => e) h
  obtain ⟨hlt, rfl⟩ := List.getElem?_eq_some_iff.mp hget
  rw [Whiteboard.Entity.introduce, hchange, List.set_getElem_self]

theorem introduce_of_findIdx?_eq_none (h : es.findIdx? (·.id == id) = none) :
    Whiteboard.Entity.introduce id es = es ++ [({ id } : Table)] :=
  change_of_findIdx?_eq_none h

/-- An id that is introduced is found, where the position says. -/
theorem introduce_eq (id : String) (es : List Table) :
    ∃ i, introduce id es = pure (i, Whiteboard.Entity.introduce id es) ∧
      (Whiteboard.Entity.introduce id es).findIdx? (·.id == id) = some i := by
  cases h : es.findIdx? (·.id == id) with
  | some i =>
      refine ⟨i, ?_, ?_⟩
      · rw [introduce, h, introduce_of_findIdx? h]
      · rw [introduce_of_findIdx? h, h]
  | none =>
      refine ⟨es.length, ?_, ?_⟩
      · rw [introduce, h, introduce_of_findIdx?_eq_none h]
        simp [difference]
      · rw [introduce_of_findIdx?_eq_none h, List.findIdx?_append, h]
        simp

/-- Introducing an id before it is changed makes no difference. -/
theorem change_introduce (id : String) (f : Table → Table) (es : List Table) :
    change id f (Whiteboard.Entity.introduce id es) = change id f es := by
  cases h : es.findIdx? (·.id == id) with
  | some i => rw [introduce_of_findIdx? h]
  | none =>
      have hnew : (es ++ [({ id } : Table)]).findIdx? (·.id == id) = some es.length := by
        rw [List.findIdx?_append, h]
        simp
      obtain ⟨e, hget, hchange⟩ := change_of_findIdx? (f := f) hnew
      have he : e = { id } := by simpa [eq_comm] using hget
      rw [introduce_of_findIdx?_eq_none h, hchange, change_of_findIdx?_eq_none h, he]
      simp

/-- The position of an open block is good for changing its entity. -/
theorem update_eq (h : es.findIdx? (·.id == id) = some i) :
    update i f es = pure (change id f es) := by
  obtain ⟨e, hget, hchange⟩ := change_of_findIdx? (f := f) h
  have hlt : i < es.length := (List.getElem?_eq_some_iff.mp hget).1
  rw [update, read_of_getElem? hget, pure_bind, write_of_lt hlt, hchange]

/-- A change that keeps the id leaves the entity where it is found. -/
theorem findIdx?_change (hf : ∀ e, (f e).id = e.id) (h : es.findIdx? (·.id == id) = some i) :
    (change id f es).findIdx? (·.id == id) = some i := by
  obtain ⟨e, hget, hchange⟩ := change_of_findIdx? (f := f) h
  have hids : (change id f es).map (·.id) = es.map (·.id) := by
    obtain ⟨hlt, rfl⟩ := List.getElem?_eq_some_iff.mp hget
    rw [hchange, List.map_set, hf, ← List.getElem_map Table.id, List.set_getElem_self]
    simpa using hlt
  have hmap (es : List Table) :
      es.findIdx? (·.id == id) = (es.map (·.id)).findIdx? (· == id) := by
    rw [List.findIdx?_map]
    rfl
  rw [hmap, hids, ← hmap, h]

variable {p : Progress} {s : Schema}

/-- What one statement outside a block preserves. -/
theorem add_eq (h : Tracks p s) (hp : p.inside = none) (hs : s.inside = none) (st : Statement) :
    ∃ p', add p st = pure p' ∧ Tracks p' (s.add st) := by
  cases st with
  | relationship r =>
      obtain ⟨i, hleft, -⟩ := introduce_eq r.left s.entities
      obtain ⟨j, hright, -⟩ := introduce_eq r.right (Whiteboard.Entity.introduce r.left s.entities)
      refine ⟨{ p with
          entities := (s.add (.relationship r)).entities
          relationships := s.relationships ++ [r] }, ?_, ⟨rfl, rfl, ?_⟩⟩
      · rw [add, h.entities, hleft, pure_bind]
        dsimp only
        rw [hright, pure_bind, h.relationships]
        rfl
      · simp only [Schema.add, hp, hs]
        exact .outside
  | opening id otherName closed =>
      obtain ⟨i, hid, hfound⟩ := introduce_eq id s.entities
      let f (e : Table) : Table := { e with otherName := otherName.or e.otherName }
      have hrename : rename i otherName (Whiteboard.Entity.introduce id s.entities) =
          pure (change id f s.entities) := by
        cases otherName with
        | none => rfl
        | some name =>
            rw [← change_introduce]
            exact update_eq hfound
      have hfound : (change id f s.entities).findIdx? (·.id == id) = some i := by
        rw [← change_introduce]
        exact findIdx?_change (fun _ => rfl) hfound
      refine ⟨{ p with
          entities := change id f s.entities
          inside := if closed then none else some i }, ?_, ⟨rfl, h.relationships, ?_⟩⟩
      · rw [add, h.entities, hid, pure_bind]
        dsimp only
        rw [hrename, pure_bind]
      · cases closed with
        | true => exact .outside
        | false => exact .inside hfound

/-- What one statement inside a block preserves. -/
theorem addInside_eq (h : Tracks p s) (hp : p.inside = some i) (hs : s.inside = some id)
    (hi : s.entities.findIdx? (·.id == id) = some i) (st : BlockStatement) :
    ∃ p', addInside p i st = pure p' ∧ Tracks p' (s.addInside id st) := by
  rcases st with a | _
  · refine ⟨{ p with entities := (s.addInside id (.attribute a)).entities }, ?_,
      ⟨rfl, h.relationships, ?_⟩⟩
    · rw [addInside, h.entities, update_eq hi, pure_bind]
      rfl
    · simp only [Schema.addInside, hp, hs]
      exact .inside (findIdx?_change (fun _ => rfl) hi)
  · exact ⟨_, rfl, ⟨h.entities, h.relationships, .outside⟩⟩

/-- What one line preserves. -/
theorem addLine_eq (line : List Char) (h : Tracks p s) :
    ∃ p', addLine p line = pure p' ∧ Tracks p' (s.addLine line) := by
  rw [addLine, Schema.addLine]
  split
  · exact ⟨p, rfl, h⟩
  · have hmarks := h.inside
    generalize hp : p.inside = inside at hmarks
    generalize hs : s.inside = inside' at hmarks
    cases hmarks with
    | outside =>
        dsimp only
        rw [statement_eq, pure_bind]
        cases Statement.ofLine? line with
        | none => exact ⟨p, rfl, h⟩
        | some st => exact add_eq h hp hs st
    | inside hi =>
        dsimp only
        cases BlockStatement.ofLine? line with
        | none => exact ⟨p, rfl, h⟩
        | some st => exact addInside_eq h hp hs hi st

def schema (body : List Char) : Attempt (List Table × List Relationship) := do
  let p ← (significantLines body).foldlM addLine {}
  pure (p.entities, p.relationships)

/-- A schema is read without an overrun. -/
theorem schema_eq (body : List Char) :
    schema body = pure ((Schema.ofText body).entities, (Schema.ofText body).relationships) := by
  have hstart : Tracks {} {} := ⟨rfl, rfl, .outside⟩
  obtain ⟨p, hfold, htracks⟩ := foldlM_simulates addLine_eq hstart (significantLines body)
  rw [schema, hfold, pure_bind, htracks.entities, htracks.relationships]
  rfl

end Whiteboard.Checked.Entity
