import Whiteboard.Proofs.Document

/-!
Which nodes a subgraph takes in.

A subgraph reaches from its header to the end that closes it, and takes in whatever is mentioned
there, in blocks inside it as well. Only those whose header stands outside all others are kept
(`outermost`), and an end with nothing to close closes nothing. A chart gathers them in one pass, in
which each statement opens a subgraph, adds to the last one or leaves them all alone
(`subgraphs_add`), so the subgraphs of a flowchart are its outermost blocks
(`subgraphs_outermost`).
-/

namespace Whiteboard

open Roster

/-- Puts some ids at the end of the members, each unless it is one already. -/
def Subgraph.addMembers (g : Subgraph) (ids : List String) : Subgraph :=
  { g with members := ids.foldl enroll g.members }

namespace Flowchart

/-- How many subgraphs are open behind a statement that is met with some of them open. -/
def Statement.depthAfter (depth : Nat) : Statement → Nat
  | subgraph _ _ => depth + 1
  | close => depth - 1
  | _ => depth

def depthAfter (depth : Nat) (sts : List Statement) : Nat :=
  sts.foldl Statement.depthAfter depth

/-- The statements up to the one behind which no subgraph is open any more, or all of them if there
is none. -/
def inside (depth : Nat) : List Statement → List Statement
  | [] => []
  | st :: sts => if depth = 0 then [] else st :: inside (st.depthAfter depth) sts

def namesInside (depth : Nat) (sts : List Statement) : List String :=
  (inside depth sts).flatMap Statement.names

/-- The subgraphs whose headers are met with none open, each with the ids named up to its end. -/
def outermost (depth : Nat) : List Statement → List Subgraph
  | [] => []
  | .subgraph id label :: sts =>
    if depth = 0 then
      { id, label, members := (namesInside 1 sts).eraseDups } :: outermost 1 sts
    else outermost (depth + 1) sts
  | st :: sts => outermost (st.depthAfter depth) sts

/-! ### Members of a subgraph -/

theorem addMember_eq (g : Subgraph) (id : String) : g.addMember id = g.addMembers [id] := by
  rw [Subgraph.addMembers, List.foldl_cons, List.foldl_nil, ← Chart.members_addMember]
  unfold Subgraph.addMember
  split <;> rfl

theorem addMembers_nil : (·.addMembers []) = (id : Subgraph → Subgraph) := rfl

/-- Members can be added in two parts. -/
theorem addMembers_addMembers (g : Subgraph) (ids ids' : List String) :
    (g.addMembers ids).addMembers ids' = g.addMembers (ids ++ ids') := by
  unfold Subgraph.addMembers
  rw [List.foldl_append]

theorem changeLast_id (gs : List Subgraph) : changeLast id gs = gs := by
  rcases List.eq_nil_or_concat' gs with rfl | ⟨gs, g, rfl⟩
  · rfl
  · rw [changeLast_concat]
    rfl

/-- Two changes to the last subgraph are one. -/
theorem changeLast_changeLast (f f' : Subgraph → Subgraph) (gs : List Subgraph) :
    changeLast f' (changeLast f gs) = changeLast (f' ∘ f) gs := by
  rcases List.eq_nil_or_concat' gs with rfl | ⟨gs, g, rfl⟩
  · rfl
  · rw [changeLast_concat, changeLast_concat, changeLast_concat]
    rfl

theorem namesInside_zero (sts : List Statement) : namesInside 0 sts = [] := by
  cases sts <;> rfl

/-- What a statement names counts as long as a subgraph is open. -/
theorem namesInside_cons {depth : Nat} (hdepth : depth ≠ 0) (st : Statement)
    (sts : List Statement) :
    namesInside depth (st :: sts) = st.names ++ namesInside (st.depthAfter depth) sts := by
  rw [namesInside, inside, if_neg hdepth, List.flatMap_cons, namesInside]

/-- The last of some subgraphs takes in the ids named before all open ones are closed. -/
def takeIn (depth : Nat) (sts : List Statement) (gs : List Subgraph) : List Subgraph :=
  changeLast (·.addMembers (namesInside depth sts)) gs

theorem takeIn_zero (sts : List Statement) (gs : List Subgraph) : takeIn 0 sts gs = gs := by
  rw [takeIn, namesInside_zero, addMembers_nil, changeLast_id]

/-- Inside a subgraph, a statement adds what it names. -/
theorem takeIn_cons {depth : Nat} (hdepth : depth ≠ 0) (st : Statement) (sts : List Statement)
    (gs : List Subgraph) :
    takeIn depth (st :: sts) gs =
      takeIn (st.depthAfter depth) sts (changeLast (·.addMembers st.names) gs) := by
  rw [takeIn, takeIn, changeLast_changeLast, namesInside_cons hdepth]
  congr 1
  funext g
  exact (addMembers_addMembers g st.names _).symm

/-- A statement that names nothing leaves the members to those behind it. -/
theorem takeIn_cons_of_names_eq_nil {depth : Nat} {st : Statement} (hnames : st.names = [])
    (hdepth : depth = 0 → st.depthAfter depth = 0) (sts : List Statement) (gs : List Subgraph) :
    takeIn depth (st :: sts) gs = takeIn (st.depthAfter depth) sts gs := by
  by_cases h : depth = 0
  · rw [hdepth h, h, takeIn_zero, takeIn_zero]
  · rw [takeIn_cons h, hnames, addMembers_nil, changeLast_id]

/-- Inside a subgraph no other one is kept. -/
theorem outermost_cons {depth : Nat} (hdepth : depth ≠ 0) (st : Statement)
    (sts : List Statement) : outermost depth (st :: sts) = outermost (st.depthAfter depth) sts := by
  cases st with
  | subgraph id label => exact if_neg hdepth
  | header _ => rfl
  | close => rfl
  | path _ _ => rfl

/-! ### One statement -/

namespace Chart

theorem depth_foldl_addReference (rs : List Reference) (c : Chart) :
    (rs.foldl addReference c).depth = c.depth := by
  induction rs generalizing c with
  | nil => rfl
  | cons r rs ih => exact ih (c.addReference r)

/-- Mentions inside a subgraph add to the last one. -/
theorem subgraphs_foldl_addReference (rs : List Reference) (c : Chart) :
    (rs.foldl addReference c).subgraphs =
      if c.depth = 0 then c.subgraphs
      else changeLast (·.addMembers (rs.map (·.id))) c.subgraphs := by
  induction rs generalizing c with
  | nil =>
      rw [List.map_nil, addMembers_nil, changeLast_id, ite_self]
      rfl
  | cons r rs ih =>
      have hdepth : (c.addReference r).depth = c.depth := rfl
      rw [List.foldl_cons, ih, hdepth, addReference]
      split
      · rfl
      · dsimp only
        rw [changeLast_changeLast]
        congr 1
        funext g
        rw [Function.comp_apply, addMember_eq, addMembers_addMembers]
        rfl

/-- A statement opens and closes subgraphs as told by its kind alone. -/
theorem depth_add (c : Chart) (st : Statement) : (c.add st).depth = st.depthAfter c.depth := by
  cases st with
  | path first hops => exact depth_foldl_addReference (first :: hops.map Hop.target) c
  | header _ => rfl
  | subgraph _ _ => rfl
  | close => rfl

/-- What is there and what is to come make up the same subgraphs before and behind a statement. -/
theorem subgraphs_add (c : Chart) (st : Statement) (sts : List Statement) :
    takeIn (c.add st).depth sts (c.add st).subgraphs ++ outermost (c.add st).depth sts =
      takeIn c.depth (st :: sts) c.subgraphs ++ outermost c.depth (st :: sts) := by
  rw [depth_add]
  cases st with
  | header _ => rw [takeIn_cons_of_names_eq_nil rfl fun h => h]; rfl
  | close => rw [takeIn_cons_of_names_eq_nil rfl fun h => congrArg (· - 1) h]; rfl
  | subgraph id label =>
      by_cases hdepth : c.depth = 0
      · have hnew : (c.add (.subgraph id label)).subgraphs =
            c.subgraphs ++ [{ id := id, label := label }] := if_pos hdepth
        have hmembers : (namesInside 1 sts).foldl enroll [] = (namesInside 1 sts).eraseDups :=
          foldl_enroll [] _
        have hdepth' : (Statement.subgraph id label).depthAfter c.depth = 1 :=
          congrArg (· + 1) hdepth
        rw [hnew, hdepth', hdepth, takeIn_zero, takeIn, changeLast_concat, outermost, if_pos rfl,
          Subgraph.addMembers, hmembers, List.append_assoc]
        rfl
      · have hold : (c.add (.subgraph id label)).subgraphs = c.subgraphs := if_neg hdepth
        rw [hold, outermost_cons hdepth,
          takeIn_cons_of_names_eq_nil rfl fun h => absurd h hdepth]
  | path first hops =>
      have hpath : (c.add (.path first hops)).subgraphs =
          ((first :: hops.map Hop.target).foldl addReference c).subgraphs := rfl
      rw [hpath, subgraphs_foldl_addReference]
      by_cases hdepth : c.depth = 0
      · rw [if_pos hdepth, hdepth, takeIn_zero]
        exact congrArg (· ++ outermost 0 sts) (takeIn_zero sts c.subgraphs)
      · rw [if_neg hdepth, takeIn_cons hdepth]
        rfl

/-! ### All statements -/

/-- Statements complete the subgraph that is open and add those they open outside all others. -/
theorem subgraphs_foldl_add (sts : List Statement) (c : Chart) :
    (sts.foldl add c).subgraphs = takeIn c.depth sts c.subgraphs ++ outermost c.depth sts := by
  induction sts generalizing c with
  | nil => exact (List.append_nil _).symm ▸ (changeLast_id c.subgraphs).symm
  | cons st sts ih => rw [List.foldl_cons, ih, subgraphs_add]

/-- The subgraphs of a chart are the outermost ones of its statements. -/
theorem subgraphs_ofStatements (sts : List Statement) :
    (ofStatements sts).subgraphs = outermost 0 sts :=
  subgraphs_foldl_add sts {}

end Chart

/-! ### Mentions inside and outside -/

/-- Some statement names an id while a subgraph is open. -/
def NamedInside (depth : Nat) (sts : List Statement) (id : String) : Prop :=
  ∃ before st after, sts = before ++ st :: after ∧ 0 < depthAfter depth before ∧ id ∈ st.names

/-- An id is named inside by the first statement or by a later one. -/
theorem namedInside_cons {depth : Nat} {st : Statement} {sts : List Statement} {id : String} :
    NamedInside depth (st :: sts) id ↔
      0 < depth ∧ id ∈ st.names ∨ NamedInside (st.depthAfter depth) sts id := by
  constructor
  · rintro ⟨before, st', after, heq, hdepth, hid⟩
    cases before with
    | nil =>
        cases heq
        exact .inl ⟨hdepth, hid⟩
    | cons _ before =>
        cases heq
        exact .inr ⟨before, st', after, rfl, hdepth, hid⟩
  · rintro (⟨hdepth, hid⟩ | ⟨before, st', after, rfl, hdepth, hid⟩)
    · exact ⟨[], st, sts, rfl, hdepth, hid⟩
    · exact ⟨st :: before, st', after, rfl, hdepth, hid⟩

/-- A member is an id named inside, whether of a subgraph that is still to come or of one that is
open already. -/
theorem mem_outermost (depth : Nat) (sts : List Statement) (id : String) :
    ((∃ g ∈ outermost depth sts, id ∈ g.members) ∨ id ∈ namesInside depth sts) ↔
      NamedInside depth sts id := by
  induction sts generalizing depth with
  | nil => simp [outermost, namesInside, inside, NamedInside]
  | cons st sts ih =>
      rw [namedInside_cons, ← ih]
      by_cases hdepth : depth = 0
      · rw [hdepth, namesInside_zero]
        cases st with
        | subgraph id' label =>
            simp [outermost, Statement.depthAfter, or_comm]
        | _ => simp [outermost, Statement.depthAfter, namesInside_zero]
      · rw [outermost_cons hdepth, namesInside_cons hdepth, List.mem_append, or_left_comm,
          and_iff_right (Nat.pos_of_ne_zero hdepth)]

end Flowchart

namespace Document

open Flowchart

/-- A flowchart has one subgraph for each header that stands outside all others, in order, and its
members are what is named from there until it is closed, each at its first mention. What is named
outside all subgraphs is not a member of any for that. -/
theorem subgraphs_outermost {text : String} {d : Diagram} (h : parse text = .ok d)
    (hd : d.dialect = .flowchart) :
    let sts := statements (Directive.strip text.toList)
    (d.subgraphs = (outermost 0 sts).map fun g =>
        { g with style := d.directive.overrides.get? g.id }) ∧
      ∀ id, (∃ g ∈ d.subgraphs, id ∈ g.members) ↔ NamedInside 0 sts id := by
  intro sts
  obtain ⟨dialect, rfl⟩ := parse_eq_ok h
  obtain rfl : dialect = .flowchart := (dialect_read ..).symm.trans hd
  have hsubgraphs : (read .flowchart (Directive.ofText text.toList) text
      (Directive.strip text.toList)).subgraphs = (outermost 0 sts).map fun g =>
        { g with style := (Directive.ofText text.toList).overrides.get? g.id } := by
    rw [← Chart.subgraphs_ofStatements]
    rfl
  refine ⟨hsubgraphs, fun id => ?_⟩
  have hnone : id ∉ namesInside 0 sts := by
    rw [namesInside_zero]
    exact List.not_mem_nil
  rw [hsubgraphs, ← mem_outermost, or_iff_left hnone]
  simp only [List.mem_map, exists_exists_and_eq_and]

/-- A chart with an end in front of its subgraphs, a subgraph inside another one, more ends than
subgraphs and a subgraph without an end. -/
def campus : String :=
  "graph TD\nend\nGate --> Hall\nsubgraph north\nHall\nsubgraph labs\nAttic\nend\nRoof\nend\n" ++
    "end\nGate\nsubgraph south\nRoof"

def campusDiagram : Diagram where
  dialect := .flowchart
  nodes := [.bare "Gate", .bare "Hall", .bare "Attic", .bare "Roof"]
  edges := [{ source := "Gate", target := "Hall", stroke := some .solid }]
  subgraphs :=
    [{ id := "north", label := "north", members := ["Hall", "Attic", "Roof"] },
      { id := "south", label := "south", members := ["Roof"] }]
  text := campus

/-- The subgraphs of `campus`. -/
theorem campus_outermost :
    let sts := statements (Directive.strip campus.toList)
    parse campus = .ok campusDiagram ∧
      (campusDiagram.subgraphs = (outermost 0 sts).map fun g => { g with style := none }) ∧
      NamedInside 0 sts "Attic" ∧ ¬ NamedInside 0 sts "Gate" := by
  intro sts
  have hparse : parse campus = .ok campusDiagram := by decide +kernel
  obtain ⟨hsubgraphs, hmembers⟩ := subgraphs_outermost hparse rfl
  refine ⟨hparse, hsubgraphs, (hmembers "Attic").mp (by decide +kernel), ?_⟩
  rw [← hmembers]
  decide +kernel

end Document

end Whiteboard
