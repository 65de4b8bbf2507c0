import Whiteboard.Proofs.Entity.Schema
import Whiteboard.Proofs.Text.Line

/-!
The name of an entity is the first line of its label.

A statement is read from a single line, so what it names has no line break in it
(`oneLine_of_ofLine?`), and no entity gets a name with one (`titled_ofText`). So the label of an
entity, which puts its attributes on lines of their own, still tells its name
(`firstLine_label`).
-/

namespace Whiteboard

/-- A text without a line break. -/
def OneLine (s : String) : Prop :=
  '\n' ∉ s.toList

def firstLine (s : String) : String :=
  String.ofList (s.toList.takeWhile (· != '\n'))

theorem OneLine.ofList {cs : List Char} (h : '\n' ∉ cs) : OneLine (String.ofList cs) := by
  rwa [OneLine, String.toList_ofList]

end Whiteboard

namespace Whiteboard.Entity

open Roster Text

/-! ### What one line names -/

/-- The names that a statement gives: those of entities, and an alias. -/
def Statement.titles : Statement → List String
  | relationship r => [r.left, r.right]
  | opening id otherName _ => id :: otherName.toList

/-- A name is on one line. -/
theorem oneLine_of_run? {cs run rest : List Char} (h : run? isNameChar cs = some (run, rest)) :
    OneLine (String.ofList run) :=
  .ofList fun hmem => absurd (all_of_run? h _ hmem) (by decide)

theorem oneLine_of_mem_names {cs left rest : List Char} (h : (left, rest) ∈ names cs)
    (hcs : '\n' ∉ cs) : OneLine (String.ofList left) := by
  obtain ⟨n, -, ⟨⟩⟩ := List.mem_map.mp h
  exact .ofList fun hmem => hcs (List.mem_of_mem_take hmem)

theorem oneLine_of_secondName? {cs : List Char} {right : String} {label : Option String}
    (h : secondName? cs = some (right, label)) : OneLine right := by
  simp only [secondName?, Option.bind_eq_bind, Option.bind_eq_some_iff, Option.some.injEq,
    Prod.mk.injEq, Prod.exists] at h
  obtain ⟨run, rest, hrun, -, -, rfl, -⟩ := h
  exact oneLine_of_run? hrun

theorem oneLine_of_relationship? {line : List Char} (hline : '\n' ∉ line) {r : Relationship}
    (h : relationship? line = some r) : OneLine r.left ∧ OneLine r.right := by
  obtain ⟨⟨left, rest⟩, hleft, h⟩ := List.exists_of_findSome?_eq_some h
  obtain ⟨a, -, h⟩ := List.exists_of_findSome?_eq_some h
  obtain ⟨rest, -, h⟩ := Option.bind_eq_some_iff.mp h
  obtain ⟨⟨token, identifying⟩, -, h⟩ := List.exists_of_findSome?_eq_some h
  obtain ⟨rest, -, h⟩ := Option.bind_eq_some_iff.mp h
  obtain ⟨b, -, h⟩ := List.exists_of_findSome?_eq_some h
  obtain ⟨rest, -, h⟩ := Option.bind_eq_some_iff.mp h
  obtain ⟨⟨right, label⟩, hright, h⟩ := Option.bind_eq_some_iff.mp h
  cases h
  exact ⟨oneLine_of_mem_names hleft hline, oneLine_of_secondName? hright⟩

theorem oneLine_of_plainRelationship? {line : List Char} (hline : '\n' ∉ line) {r : Relationship}
    (h : plainRelationship? line = some r) : OneLine r.left ∧ OneLine r.right := by
  obtain ⟨⟨left, rest⟩, hleft, h⟩ := List.exists_of_findSome?_eq_some h
  obtain ⟨c, -, h⟩ := List.exists_of_findSome?_eq_some h
  obtain ⟨⟨run, rest⟩, -, h⟩ := List.exists_of_findSome?_eq_some h
  obtain ⟨⟨right, label⟩, hright, h⟩ := Option.bind_eq_some_iff.mp h
  cases h
  exact ⟨oneLine_of_mem_names hleft hline, oneLine_of_secondName? hright⟩

theorem dropOne_suffix (c : Char) (cs : List Char) : dropOne c cs <:+ cs := by
  unfold dropOne
  split
  · exact List.suffix_refl _
  · split
    · exact List.suffix_cons _ _
    · exact List.suffix_refl _

/-- An alias is a part of the text it is read from. -/
theorem otherName?_subset {cs inside rest : List Char} (h : otherName? cs = some (inside, rest)) :
    inside ⊆ cs := by
  obtain ⟨behind, hstrip, h⟩ := Option.bind_eq_some_iff.mp h
  obtain ⟨rest, -, h⟩ := Option.bind_eq_some_iff.mp h
  cases h
  have hcs : behind ⊆ cs := by
    rw [strip?_eq_some.mp hstrip]
    exact List.subset_append_right _ _
  have hsuffix : dropOne '"' (trimStart behind) <:+ behind :=
    (dropOne_suffix '"' _).trans (List.dropWhile_suffix isBlank)
  exact fun c hc => hcs (hsuffix.subset (List.takeWhile_subset _ hc))

/-- An alias as it is kept: without the blanks around it, and not if it is empty. -/
def aliasOf (inside : List Char) : Option String :=
  if (trim inside).isEmpty then none else some (String.ofList (trim inside))

theorem oneLine_of_mem_aliasOf {inside : List Char} (h : '\n' ∉ inside) {name : String}
    (hname : name ∈ aliasOf inside) : OneLine name := by
  unfold aliasOf at hname
  split at hname
  · cases hname
  · rw [← Option.some.inj hname]
    exact .ofList fun hmem => h ((trim_isInfix inside).subset hmem)

/-- An opening names an entity at its beginning and keeps the alias behind the name. -/
theorem exists_of_opening? {line : List Char} {st : Statement} (h : opening? line = some st) :
    ∃ id rest closed, run? isNameChar line = some (id, rest) ∧
      st = .opening (String.ofList id)
        (aliasOf ((otherName? (trimStart rest)).getD ([], trimStart rest)).1) closed := by
  obtain ⟨⟨id, rest⟩, hid, h⟩ := Option.bind_eq_some_iff.mp h
  obtain ⟨behind, -, h⟩ := Option.bind_eq_some_iff.mp h
  dsimp only at h
  split at h
  · exact ⟨id, rest, false, hid, (Option.some.inj h).symm⟩
  · exact ⟨id, rest, true, hid, (Option.some.inj h).symm⟩
  · cases h

/-- The opening of a block names its entity on one line. -/
theorem oneLine_of_opening? {line : List Char} (hline : '\n' ∉ line) {st : Statement}
    (h : opening? line = some st) : ∀ t ∈ st.titles, OneLine t := by
  obtain ⟨id, rest, closed, hid, rfl⟩ := exists_of_opening? h
  have hrest : '\n' ∉ trimStart rest := by
    intro hmem
    apply hline
    rw [(eq_append_of_run? hid).1]
    exact List.mem_append_right _ ((List.dropWhile_suffix isBlank).subset hmem)
  have hnamed : '\n' ∉ ((otherName? (trimStart rest)).getD ([], trimStart rest)).1 := by
    cases hname : otherName? (trimStart rest) with
    | none => exact List.not_mem_nil
    | some p => exact fun hmem => hrest (otherName?_subset hname hmem)
  intro t ht
  rcases List.mem_cons.mp ht with rfl | ht
  · exact oneLine_of_run? hid
  · exact oneLine_of_mem_aliasOf hnamed (Option.mem_toList.mp ht)

/-- What a statement names has no line break in it. -/
theorem oneLine_of_ofLine? {line : List Char} (hline : '\n' ∉ line) {st : Statement}
    (h : Statement.ofLine? line = some st) : ∀ t ∈ st.titles, OneLine t := by
  have htrim : '\n' ∉ trim line := fun hmem => hline ((trim_isInfix line).subset hmem)
  have hpair : ∀ r : Relationship, OneLine r.left ∧ OneLine r.right →
      ∀ t ∈ (Statement.relationship r).titles, OneLine t := by
    rintro r ⟨hleft, hright⟩ t ht
    rcases List.mem_pair.mp ht with rfl | rfl
    · exact hleft
    · exact hright
  rcases Option.or_eq_some_iff.mp h with h | ⟨-, h⟩
  · obtain ⟨r, hr, rfl⟩ := Option.map_eq_some_iff.mp h
    exact hpair r (oneLine_of_relationship? htrim hr)
  · rcases Option.or_eq_some_iff.mp h with h | ⟨-, h⟩
    · obtain ⟨r, hr, rfl⟩ := Option.map_eq_some_iff.mp h
      exact hpair r (oneLine_of_plainRelationship? htrim hr)
    · exact oneLine_of_opening? htrim h

/-! ### What entities are called -/

/-- The entity has its names on one line each. -/
structure HasTitle (e : Table) : Prop where
  id : OneLine e.id
  otherName : ∀ name ∈ e.otherName, OneLine name

/-- An entity is shown under a name on one line. -/
theorem HasTitle.name {e : Table} (titled : HasTitle e) : OneLine e.name := by
  unfold Table.name
  cases h : e.otherName with
  | none => exact titled.id
  | some name => exact titled.otherName name h

/-- The first line of a label is the name. -/
theorem firstLine_label {e : Table} (h : OneLine e.name) : firstLine e.label = e.name := by
  have hkeep : ∀ c ∈ e.name.toList, (c != '\n') = true :=
    fun c hc => bne_iff_ne.mpr fun heq => h (heq ▸ hc)
  have hline :
      ∃ rest, e.label.toList = e.name.toList ++ rest ∧ rest.takeWhile (· != '\n') = [] := by
    unfold Table.label
    cases e.attributes.map Attribute.display with
    | nil => exact ⟨[], by simp, rfl⟩
    | cons a as =>
        refine ⟨'\n' :: ("\n".intercalate (a :: as)).toList, ?_, rfl⟩
        rw [String.intercalate_cons_of_ne_nil (List.cons_ne_nil a as), String.toList_append,
          String.toList_append, List.append_assoc]
        rfl
  obtain ⟨rest, hlabel, hrest⟩ := hline
  rw [firstLine, hlabel, List.takeWhile_append_of_pos hkeep, hrest, List.append_nil,
    String.ofList_toList]

namespace Schema

/-- All entities have names on one line, and so has the one whose block is open. -/
structure Titled (s : Schema) : Prop where
  entities : ∀ e ∈ s.entities, HasTitle e
  inside : ∀ id ∈ s.inside, OneLine id

variable {s : Schema}

/-- A change that keeps names on one line does so for all entities. -/
theorem titled_change {es : List Table} (hes : ∀ e ∈ es, HasTitle e) {id : String}
    (hid : OneLine id) {f : Table → Table} (hf : ∀ e : Table, HasTitle e → HasTitle (f e)) :
    ∀ e ∈ change id f es, HasTitle e := by
  have hnew : HasTitle { id } := ⟨hid, fun name h => by cases h⟩
  exact forall_change (change id f) { id } rfl (fun _ _ => rfl) (hf _ hnew) hf hes

theorem titled_add (titled : s.Titled) {st : Statement} (hst : ∀ t ∈ st.titles, OneLine t) :
    (s.add st).Titled := by
  cases st with
  | relationship r =>
      have hleft : OneLine r.left := hst _ List.mem_cons_self
      have hright : OneLine r.right := hst _ (List.mem_cons_of_mem _ List.mem_cons_self)
      constructor
      case entities =>
        exact titled_change (titled_change titled.entities hleft fun _ h => h) hright fun _ h => h
      case inside => exact titled.inside
  | opening id otherName closed =>
      have hid : OneLine id := hst _ List.mem_cons_self
      constructor
      case entities =>
        refine titled_change titled.entities hid fun e he => ⟨he.id, fun name hname => ?_⟩
        rcases Option.or_eq_some_iff.mp hname with hname | ⟨-, hname⟩
        · exact hst name (List.mem_cons_of_mem _ (Option.mem_toList.mpr hname))
        · exact he.otherName name hname
      case inside =>
        intro other h
        cases closed with
        | true => cases h
        | false =>
            cases h
            exact hid

theorem titled_addInside (titled : s.Titled) {id : String} (hid : OneLine id)
    (b : BlockStatement) : (s.addInside id b).Titled := by
  rcases b with a | _
  · constructor
    case entities =>
      exact titled_change titled.entities hid fun e he => ⟨he.id, he.otherName⟩
    case inside => exact titled.inside
  · exact ⟨titled.entities, fun id h => by cases h⟩

/-- A line keeps names on one line. -/
theorem titled_addLine (titled : s.Titled) {line : List Char} (hline : '\n' ∉ line) :
    (s.addLine line).Titled := by
  unfold addLine
  split
  · exact titled
  · cases hinside : s.inside with
    | some id =>
        cases BlockStatement.ofLine? line with
        | none => exact titled
        | some b => exact titled_addInside titled (titled.inside id hinside) b
    | none =>
        cases hst : Statement.ofLine? line with
        | none => exact titled
        | some st => exact titled_add titled (oneLine_of_ofLine? hline hst)

theorem titled_foldl_addLine {lines : List (List Char)} (hlines : ∀ line ∈ lines, '\n' ∉ line)
    (titled : s.Titled) : (lines.foldl addLine s).Titled := by
  induction lines generalizing s with
  | nil => exact titled
  | cons line lines ih =>
      obtain ⟨hline, hlines⟩ := List.forall_mem_cons.mp hlines
      exact ih hlines (titled_addLine titled hline)

/-- In the schema of a text every entity has its name on one line. -/
theorem titled_ofText (body : List Char) : (ofText body).Titled := by
  have hempty : ({} : Schema).Titled := ⟨nofun, nofun⟩
  exact titled_foldl_addLine (fun line hline => break_not_mem_of_mem hline) hempty

end Schema

end Whiteboard.Entity
