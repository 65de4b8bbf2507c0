import Whiteboard.Proofs.Entity.Title
import Whiteboard.Proofs.Entity.Written

/-!
What the lines of a text tell of its entities.

A line is read by what is open, and the event it tells is either a statement where no block is open
or a statement inside the block of an entity. The last event tells which block is open
(`Event.block`), so the events of a text can be listed without the schema (`events`). From them the
schema follows: there is one entity for each id that is named outside blocks, called by its last
alias, and it has the attributes that were told inside its blocks, in order (`Tells.foldl_addLine`).
No attribute has a line break in it, so each of them is one line of the label (`splitOn_label`).
-/

namespace Whiteboard.Entity

open Roster Text

/-- What a line tells where it stands. -/
inductive Event where
  /-- A statement while no block is open. -/
  | outside (st : Statement)
  /-- A statement while the block of the entity `id` is open. -/
  | inside (id : String) (b : BlockStatement)
deriving DecidableEq, Repr

namespace Event

def block : Event → Option String
  | outside (.opening id _ closed) => if closed then none else some id
  | outside (.relationship _) => none
  | inside id (.attribute _) => some id
  | inside _ .close => none

/-- What a line tells while the block of an entity, or no block, is open. -/
def ofLine? (block : Option String) (line : List Char) : Option Event :=
  if isHeader line then none
  else
    match block with
    | some id => (BlockStatement.ofLine? line).map (inside id)
    | none => (Statement.ofLine? line).map outside

def statement? : Event → Option Statement
  | outside st => some st
  | inside _ _ => none

def alias? (id : String) : Event → Option String
  | outside (.opening other otherName _) => if other = id then otherName else none
  | _ => none

def attribute? (id : String) : Event → Option Attribute
  | inside other (.attribute a) => if other = id then some a else none
  | _ => none

end Event

/-- What some lines tell, one after the other, from a block on or from outside. -/
def events : Option String → List (List Char) → List Event
  | _, [] => []
  | block, line :: lines =>
    match Event.ofLine? block line with
    | none => events block lines
    | some e => e :: events e.block lines

/-- The attributes that some events give to an entity, in order. -/
def attributesOf (es : List Event) (id : String) : List Attribute :=
  es.filterMap (Event.attribute? id)

/-- What an entity is called after some events: its last alias that is not empty, else its id. -/
def titleOf (es : List Event) (id : String) : String :=
  ((es.filterMap (Event.alias? id)).filter (· ≠ "")).getLast?.getD id

/-- The entity of an id as some events describe it. -/
def told (es : List Event) (id : String) : Table where
  id
  otherName := (es.filterMap (Event.alias? id)).getLast?
  attributes := attributesOf es id

/-! ### Single lines -/

/-- Outside blocks a line is read as a statement, and inside a block as one about its entity. -/
theorem Event.cases_of_ofLine? {block : Option String} {line : List Char} {e : Event}
    (h : Event.ofLine? block line = some e) :
    (block = none ∧ ∃ st, Statement.ofLine? line = some st ∧ e = .outside st) ∨
      ∃ id, block = some id ∧ ∃ b, BlockStatement.ofLine? line = some b ∧ e = .inside id b := by
  unfold Event.ofLine? at h
  split at h
  · cases h
  · cases block with
    | some id =>
        obtain ⟨b, hb, rfl⟩ := Option.map_eq_some_iff.mp h
        exact .inr ⟨id, rfl, b, hb, rfl⟩
    | none =>
        obtain ⟨st, hst, rfl⟩ := Option.map_eq_some_iff.mp h
        exact .inl ⟨rfl, st, hst, rfl⟩

namespace Schema

def addEvent (s : Schema) : Event → Schema
  | .outside st => s.add st
  | .inside id b => s.addInside id b

/-- A line that tells nothing changes nothing. -/
theorem addLine_eq_addEvent (s : Schema) (line : List Char) :
    s.addLine line = ((Event.ofLine? s.inside line).map s.addEvent).getD s := by
  unfold addLine Event.ofLine?
  change (if isHeader line = true then s else _) = _
  cases isHeader line with
  | true => rfl
  | false =>
      cases s.inside with
      | some id => cases BlockStatement.ofLine? line <;> rfl
      | none => cases Statement.ofLine? line <;> rfl

/-- The last event tells which block is open. -/
theorem inside_addEvent {s : Schema} {line : List Char} {e : Event}
    (h : Event.ofLine? s.inside line = some e) : (s.addEvent e).inside = e.block := by
  rcases Event.cases_of_ofLine? h with ⟨hinside, st, -, rfl⟩ | ⟨id, hinside, b, -, rfl⟩
  · cases st with
    | relationship r => exact hinside
    | opening id otherName closed => rfl
  · rcases b with a | _
    · exact hinside
    · rfl

end Schema

/-- One more event changes what is told of the entity it is about. -/
theorem told_concat (es : List Event) (e : Event) (id : String) :
    told (es ++ [e]) id =
      { id
        otherName := (e.alias? id).or (told es id).otherName
        attributes := (told es id).attributes ++ (e.attribute? id).toList } := by
  have hone : ∀ {β : Type} (f : Event → Option β), [e].filterMap f = (f e).toList := by
    intro β f
    rw [List.filterMap_cons]
    cases f e <;> rfl
  have hlast : ((e.alias? id).toList).getLast? = e.alias? id := by cases e.alias? id <;> rfl
  rw [told, told, attributesOf, attributesOf, List.filterMap_append, List.filterMap_append, hone,
    hone, List.getLast?_append, hlast]

/-! ### The schema that is told -/

namespace Schema

variable {s s' : Schema} {es es' : List Event}

/-- The entities are those that the events describe, each under its own id. -/
structure Tells (s : Schema) (es : List Event) : Prop where
  ids_nodup : s.ids.Nodup
  entities_eq : s.entities = s.ids.map (told es)
  /-- Nothing was told of an id that is not there. -/
  unknown : ∀ id, id ∉ s.ids → told es id = { id }
  settled : s.Settled

/-- A change of one entity that is told, and of which nothing else is told. -/
theorem Tells.change (tells : s.Tells es) {id : String} {f : Table → Table}
    (hf : ∀ e, (f e).id = e.id) (hentities : s'.entities = change id f s.entities)
    (settled : s'.Settled) (hsame : told es' id = f (told es id))
    (hother : ∀ other, other ≠ id → told es' other = told es other) : s'.Tells es' := by
  have hids : s'.ids = enroll s.ids id := by
    rw [ids, hentities, ids_change hf]
    rfl
  constructor
  case ids_nodup =>
    rw [hids]
    exact enroll_nodup tells.ids_nodup id
  case entities_eq =>
    rw [hentities, hids, tells.entities_eq]
    refine change_map (Entity.change id f) (f { id }) rfl (fun _ _ => rfl) tells.ids_nodup
      (fun _ => rfl) hsame (fun hnew => ?_) hother
    rw [hsame, tells.unknown id hnew]
  case unknown =>
    intro other hnone
    rw [hids, mem_enroll, not_or] at hnone
    rw [hother other hnone.2, tells.unknown other hnone.1]
  case settled => exact settled

/-- An event that describes nothing new leaves what is told. -/
theorem Tells.congr (tells : s.Tells es) (hentities : s'.entities = s.entities)
    (settled : s'.Settled) (htold : ∀ id, told es' id = told es id) : s'.Tells es' := by
  have hids : s'.ids = s.ids := congrArg (List.map Table.id) hentities
  constructor
  case ids_nodup => exact hids ▸ tells.ids_nodup
  case entities_eq => rw [hentities, hids, funext htold, tells.entities_eq]
  case unknown =>
    intro id hnone
    rw [htold, tells.unknown id (hids ▸ hnone)]
  case settled => exact settled

/-- A statement outside blocks is told as an event. -/
theorem Tells.add (tells : s.Tells es) (hinside : s.inside = none) (st : Statement) :
    (s.add st).Tells (es ++ [.outside st]) := by
  have settled : (s.add st).Settled := (takes_add hinside st).settled
  cases st with
  | relationship r =>
      have htold : ∀ id, told (es ++ [.outside (.relationship r)]) id = told es id := by
        intro id
        rw [told_concat]
        simp [Event.alias?, Event.attribute?, told]
      have hleft : ({ s with entities := introduce r.left s.entities } : Schema).Tells es := by
        refine tells.change (fun _ => rfl) rfl ?_ rfl fun _ _ => rfl
        intro id h
        rw [hinside] at h
        cases h
      exact hleft.change (fun _ => rfl) rfl settled (htold _) fun other _ => htold other
  | opening id otherName closed =>
      refine tells.change (f := fun e => { e with otherName := otherName.or e.otherName })
        (fun _ => rfl) rfl settled ?_ ?_
      · rw [told_concat]
        simp [Event.alias?, Event.attribute?, told]
      · intro other hne
        rw [told_concat]
        simp [Event.alias?, Event.attribute?, told, Ne.symm hne]

/-- A statement inside a block is told of its entity. -/
theorem Tells.addInside (tells : s.Tells es) {id : String} (hinside : s.inside = some id)
    (b : BlockStatement) : (s.addInside id b).Tells (es ++ [.inside id b]) := by
  have settled : (s.addInside id b).Settled := (takes_addInside tells.settled hinside b).settled
  rcases b with a | _
  · refine tells.change (f := fun e => { e with attributes := e.attributes ++ [a] })
      (fun _ => rfl) rfl settled ?_ ?_
    · rw [told_concat]
      simp [Event.alias?, Event.attribute?, told]
    · intro other hne
      rw [told_concat]
      simp [Event.alias?, Event.attribute?, told, Ne.symm hne]
  · refine tells.congr rfl settled fun id => ?_
    rw [told_concat]
    simp [Event.alias?, Event.attribute?, told]

/-- What a line tells is true of the schema behind it. -/
theorem Tells.addEvent (tells : s.Tells es) {line : List Char} {e : Event}
    (h : Event.ofLine? s.inside line = some e) : (s.addEvent e).Tells (es ++ [e]) := by
  rcases Event.cases_of_ofLine? h with ⟨hinside, st, -, rfl⟩ | ⟨id, hinside, b, -, rfl⟩
  · exact tells.add hinside st
  · exact tells.addInside hinside b

/-- What some lines tell is true of the schema behind them. -/
theorem Tells.foldl_addLine (tells : s.Tells es) (lines : List (List Char)) :
    (lines.foldl addLine s).Tells (es ++ events s.inside lines) := by
  induction lines generalizing s es with
  | nil => exact (List.append_nil es).symm ▸ tells
  | cons line lines ih =>
      rw [List.foldl_cons, addLine_eq_addEvent, events]
      cases h : Event.ofLine? s.inside line with
      | none => exact ih tells
      | some e =>
          have hrest := ih (tells.addEvent h)
          rw [inside_addEvent h, List.append_assoc] at hrest
          exact hrest

/-- The entities of a text are those that its statements outside blocks name, as its events describe
them. -/
theorem entities_ofText (body : List Char) :
    (ofText body).entities =
      (ofText body).ids.map (told (events none (significantLines body))) := by
  have hempty : ({} : Schema).Tells [] := {
    ids_nodup := List.nodup_nil
    entities_eq := rfl
    unknown := fun _ _ => rfl
    settled := nofun }
  exact (hempty.foldl_addLine (significantLines body)).entities_eq

end Schema

/-! ### Where events come from -/

/-- An event is told by one of the lines. -/
theorem exists_line_of_mem_events {block : Option String} {lines : List (List Char)} {e : Event}
    (h : e ∈ events block lines) :
    ∃ line ∈ lines, ∃ block', Event.ofLine? block' line = some e := by
  induction lines generalizing block with
  | nil => cases h
  | cons line lines ih =>
      rw [events] at h
      cases hline : Event.ofLine? block line with
      | none =>
          rw [hline] at h
          obtain ⟨l, hl, hread⟩ := ih h
          exact ⟨l, List.mem_cons_of_mem _ hl, hread⟩
      | some e' =>
          rw [hline] at h
          rcases List.mem_cons.mp h with rfl | h
          · exact ⟨line, List.mem_cons_self, block, hline⟩
          · obtain ⟨l, hl, hread⟩ := ih h
            exact ⟨l, List.mem_cons_of_mem _ hl, hread⟩

/-- The statements outside blocks are those of the transcript. -/
theorem filterMap_statement?_events (block : Option String) (lines : List (List Char)) :
    (events block lines).filterMap Event.statement? = transcript block.isSome lines := by
  induction lines generalizing block with
  | nil => rfl
  | cons line lines ih =>
      rw [events, transcript]
      unfold Event.ofLine? heard? insideAfter
      cases isHeader line with
      | true => exact ih block
      | false =>
          cases block with
          | some id =>
              rcases hb : BlockStatement.ofLine? line with _ | a | _
              · exact ih (some id)
              · exact ih (some id)
              · exact ih none
          | none =>
              rcases hst : Statement.ofLine? line with _ | r | ⟨id, otherName, closed⟩
              · exact ih none
              · exact congrArg (Statement.relationship r :: ·) (ih none)
              · cases closed with
                | true => exact congrArg (Statement.opening id otherName true :: ·) (ih none)
                | false => exact congrArg (Statement.opening id otherName false :: ·) (ih (some id))

/-! ### Aliases -/

/-- Only the opening of a block gives an alias. -/
theorem Event.alias?_eq_some_iff {e : Event} {id name : String} :
    e.alias? id = some name ↔ ∃ closed, e = .outside (.opening id (some name) closed) := by
  rcases e with (r | ⟨other, otherName, closed⟩) | ⟨other, b⟩
  · simp [Event.alias?]
  · simp [Event.alias?]
  · simp [Event.alias?]

theorem ne_empty_of_mem_aliasOf {inside : List Char} {name : String}
    (h : name ∈ aliasOf inside) : name ≠ "" := by
  unfold aliasOf at h
  split at h
  · cases h
  · rename_i hne
    rw [← Option.some.inj h]
    simpa using hne

/-- No statement gives an empty alias. -/
theorem ne_empty_of_ofLine? {line : List Char} {id name : String} {closed : Bool}
    (h : Statement.ofLine? line = some (.opening id (some name) closed)) : name ≠ "" := by
  rcases Option.or_eq_some_iff.mp h with h | ⟨-, h⟩
  · obtain ⟨r, -, heq⟩ := Option.map_eq_some_iff.mp h
    cases heq
  · rcases Option.or_eq_some_iff.mp h with h | ⟨-, h⟩
    · obtain ⟨r, -, heq⟩ := Option.map_eq_some_iff.mp h
      cases heq
    · obtain ⟨i, rest, closed', -, heq⟩ := exists_of_opening? h
      exact ne_empty_of_mem_aliasOf (Statement.opening.inj heq).2.1.symm

/-- The aliases of an entity are all of them not empty, so the last one is its name. -/
theorem name_told (block : Option String) (lines : List (List Char)) (id : String) :
    (told (events block lines) id).name = titleOf (events block lines) id := by
  have hkeep : ∀ name ∈ (events block lines).filterMap (Event.alias? id),
      decide (name ≠ "") = true := by
    intro name hname
    obtain ⟨e, he, hname⟩ := List.mem_filterMap.mp hname
    obtain ⟨closed, rfl⟩ := Event.alias?_eq_some_iff.mp hname
    obtain ⟨line, -, block', hline⟩ := exists_line_of_mem_events he
    rcases Event.cases_of_ofLine? hline with ⟨-, st, hst, heq⟩ | ⟨id', -, b, -, heq⟩
    · cases heq
      exact decide_eq_true (ne_empty_of_ofLine? hst)
    · cases heq
  rw [titleOf, List.filter_eq_self.mpr hkeep]
  rfl

/-! ### The lines of a label -/

theorem break_not_mem_writeKeys (ks : List Key) : '\n' ∉ writeKeys ks := by
  have hkey : ∀ k : Key, '\n' ∉ k.text.toList := by
    intro k
    cases k <;> decide
  cases ks with
  | nil => exact List.not_mem_nil
  | cons k ks => simp [writeKeys, hkey]

/-- What is shown of an attribute stands on one line. -/
theorem oneLine_display {line : List Char} {a : Attribute} (h : attribute? line = some a) :
    OneLine a.display := by
  obtain ⟨⟨typeName, rest⟩, htype, h⟩ := Option.bind_eq_some_iff.mp h
  obtain ⟨⟨gap, rest⟩, -, h⟩ := Option.bind_eq_some_iff.mp h
  obtain ⟨⟨name, rest⟩, hname, h⟩ := Option.bind_eq_some_iff.mp h
  dsimp only at h
  split at h
  · cases h
    have htype' : '\n' ∉ typeName :=
      fun hmem => absurd (all_of_run? htype _ hmem) (by decide)
    have hname' : '\n' ∉ name := fun hmem => absurd (all_of_run? hname _ hmem) (by decide)
    rw [OneLine, toList_display]
    simp [htype', hname', break_not_mem_writeKeys]
  · cases h

/-- Only an attribute inside the block of an entity is one of it. -/
theorem Event.attribute?_eq_some_iff {e : Event} {id : String} {a : Attribute} :
    e.attribute? id = some a ↔ e = .inside id (.attribute a) := by
  rcases e with st | ⟨other, a' | _⟩
  · simp [Event.attribute?]
  · simp [Event.attribute?]
  · simp [Event.attribute?]

/-- An attribute is shown on one line. -/
theorem oneLine_of_mem_attributesOf {block : Option String} {lines : List (List Char)}
    {id : String} {a : Attribute} (h : a ∈ attributesOf (events block lines) id) :
    OneLine a.display := by
  obtain ⟨e, he, ha⟩ := List.mem_filterMap.mp h
  rw [Event.attribute?_eq_some_iff] at ha
  subst ha
  obtain ⟨line, -, block', hline⟩ := exists_line_of_mem_events he
  rcases Event.cases_of_ofLine? hline with ⟨-, st, -, heq⟩ | ⟨id', -, b, hb, heq⟩
  · cases heq
  · cases heq
    unfold BlockStatement.ofLine? at hb
    dsimp only at hb
    split at hb
    · cases hb
    · obtain ⟨a', ha', heq⟩ := Option.map_eq_some_iff.mp hb
      cases heq
      exact oneLine_display ha'

/-- The lines of a label are the name and the attributes, if each of them is one line. -/
theorem splitOn_label {e : Table} (hname : OneLine e.name)
    (hattributes : ∀ a ∈ e.attributes, OneLine a.display) :
    e.label.toList.splitOn '\n' =
      (e.name :: e.attributes.map Attribute.display).map String.toList := by
  rw [Table.label, String.toList_intercalate]
  apply List.splitOn_intercalate
  · intro l hl
    obtain ⟨t, ht, rfl⟩ := List.mem_map.mp hl
    rcases List.mem_cons.mp ht with rfl | ht
    · exact hname
    · obtain ⟨a, ha, rfl⟩ := List.mem_map.mp ht
      exact hattributes a ha
  · simp

/-- A label has more than one line if its entity has attributes. -/
theorem break_mem_label_iff {e : Table} (hname : OneLine e.name) :
    '\n' ∈ e.label.toList ↔ e.attributes ≠ [] := by
  rw [Table.label, String.toList_intercalate]
  cases e.attributes with
  | nil => simpa [OneLine] using hname
  | cons a as => simp [List.intercalate_cons_cons]

/-- The label of an entity that a text names has a line for its title and one for each of its
attributes. -/
theorem label_told {body : List Char} {id : String} (hid : id ∈ (Schema.ofText body).ids) :
    (told (events none (significantLines body)) id).label.toList.splitOn '\n' =
        (titleOf (events none (significantLines body)) id ::
          (attributesOf (events none (significantLines body)) id).map Attribute.display).map
            String.toList ∧
      ('\n' ∈ (told (events none (significantLines body)) id).label.toList ↔
        attributesOf (events none (significantLines body)) id ≠ []) := by
  have hmem : told (events none (significantLines body)) id ∈ (Schema.ofText body).entities := by
    rw [Schema.entities_ofText]
    exact List.mem_map_of_mem hid
  have hname := ((Schema.titled_ofText body).entities _ hmem).name
  constructor
  · rw [splitOn_label hname fun a ha => oneLine_of_mem_attributesOf ha, name_told]
    rfl
  · exact break_mem_label_iff hname

end Whiteboard.Entity
