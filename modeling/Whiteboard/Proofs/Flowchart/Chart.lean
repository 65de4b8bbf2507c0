import Whiteboard.Flowchart.Chart
import Whiteboard.Proofs.Diagram.Records

/-!
What a chart records of its statements.

A mention enrols its id (`ids_mention`), in the chart and in the outermost open subgraph. So the
nodes of a chart are the ids of all references in the order of the first mention, and every member
of a subgraph is one of them (`records_toDiagram`).
-/

namespace Whiteboard.Flowchart

open Roster

def Statement.names (st : Statement) : List String :=
  st.references.map (·.id)

theorem id_node (r : Reference) : r.node.id = r.id := by
  unfold Reference.node
  split <;> rfl

theorem id_redefine (r : Reference) (n : Node) : (r.redefine n).id = n.id := by
  unfold Reference.redefine
  split <;> rfl

/-- A mention enrols its id. -/
theorem ids_mention (ns : List Node) (r : Reference) :
    (mention ns r).map (·.id) = enroll (ns.map (·.id)) r.id := by
  refine map_change (f := r.redefine) (mention · r) ?_ ?_ ?_ ns
  · exact congrArg (· :: []) (id_node r)
  · exact fun n ns => rfl
  · exact id_redefine r

/-- A hop leads from a node of the path to the next. -/
theorem named_edgesFrom (source : String) (hops : List Hop) :
    Named (source :: hops.map (·.target.id)) (edgesFrom source hops) := by
  induction hops generalizing source with
  | nil =>
      intro e he
      cases he
  | cons p hops ih =>
      intro e he
      rcases List.mem_cons.mp he with rfl | he
      · exact ⟨List.mem_cons_self, List.mem_cons_of_mem _ List.mem_cons_self⟩
      · obtain ⟨hsource, htarget⟩ := ih p.target.id e he
        exact ⟨List.mem_cons_of_mem _ hsource, List.mem_cons_of_mem _ htarget⟩

/-- A path names both ends of each of its edges. -/
theorem Statement.named (st : Statement) : Named st.names st.edges := by
  cases st with
  | path first hops =>
      have hnames : (path first hops).names = first.id :: hops.map (·.target.id) := by
        rw [names, references, List.map_cons, List.map_map]
        rfl
      rw [hnames]
      exact named_edgesFrom first.id hops
  | _ =>
      intro e he
      cases he

theorem changeLast_concat (f : Subgraph → Subgraph) (gs : List Subgraph) (g : Subgraph) :
    changeLast f (gs ++ [g]) = gs ++ [f g] := by
  induction gs with
  | nil => rfl
  | cons g' gs ih =>
      cases hgs : gs ++ [g] with
      | nil => simp at hgs
      | cons g'' gs' =>
          rw [List.cons_append, hgs, changeLast, ← hgs, ih]
          · rfl
          · simp

namespace Chart

def ids (c : Chart) : List String :=
  c.nodes.map (·.id)

/-! ### One statement -/

theorem ids_addReference (c : Chart) (r : Reference) :
    (c.addReference r).ids = enroll c.ids r.id :=
  ids_mention c.nodes r

theorem ids_foldl_addReference (rs : List Reference) (c : Chart) :
    (rs.foldl addReference c).ids = (rs.map (·.id)).foldl enroll c.ids := by
  induction rs generalizing c with
  | nil => rfl
  | cons r rs ih => rw [List.foldl_cons, ih, ids_addReference, List.map_cons, List.foldl_cons]

/-- A statement enrolls the ids it names. -/
theorem ids_add (c : Chart) (st : Statement) : (c.add st).ids = st.names.foldl enroll c.ids := by
  cases st with
  | path first hops => exact ids_foldl_addReference (first :: hops.map Hop.target) c
  | _ => rfl

theorem edges_foldl_addReference (rs : List Reference) (c : Chart) :
    (rs.foldl addReference c).edges = c.edges := by
  induction rs generalizing c with
  | nil => rfl
  | cons r rs ih => exact ih (c.addReference r)

/-- A statement adds its own edges. -/
theorem edges_add (c : Chart) (st : Statement) : (c.add st).edges = c.edges ++ st.edges := by
  cases st with
  | path first hops =>
      have h := edges_foldl_addReference (first :: hops.map Hop.target) c
      exact congrArg (· ++ edgesFrom first.id hops) h
  | _ => exact (List.append_nil c.edges).symm

/-! ### Members -/

/-- The members of the subgraphs are nodes of the chart, each once. -/
def Grouped (c : Chart) : Prop :=
  ∀ g ∈ c.subgraphs, g.members.Nodup ∧ ∀ id ∈ g.members, id ∈ c.ids

/-- A change to the last subgraph touches no other. -/
theorem mem_changeLast {f : Subgraph → Subgraph} {gs : List Subgraph} {g : Subgraph}
    (h : g ∈ changeLast f gs) : g ∈ gs ∨ ∃ g' ∈ gs, g = f g' := by
  induction gs using changeLast.induct with
  | case1 => cases h
  | case2 g' => exact .inr ⟨g', List.mem_singleton_self g', List.mem_singleton.mp h⟩
  | case3 g' gs hne ih =>
      rw [changeLast] at h
      · rcases List.mem_cons.mp h with rfl | h
        · exact .inl List.mem_cons_self
        · rcases ih h with h | ⟨g'', hmem, heq⟩
          · exact .inl (List.mem_cons_of_mem g' h)
          · exact .inr ⟨g'', List.mem_cons_of_mem g' hmem, heq⟩
      · exact hne

theorem members_addMember (g : Subgraph) (id : String) :
    (g.addMember id).members = enroll g.members id := by
  unfold Subgraph.addMember enroll
  by_cases h : id ∈ g.members
  · rw [if_pos (List.contains_iff_mem.mpr h), if_pos h]
  · rw [if_neg (by simpa using h), if_neg h]

/-- A mention makes a member of what it makes a node of. -/
theorem Grouped.addReference {c : Chart} (grouped : c.Grouped) (r : Reference) :
    (c.addReference r).Grouped := by
  have hkeep : ∀ {id}, id ∈ c.ids → id ∈ (c.addReference r).ids := by
    intro id h
    rw [ids_addReference, mem_enroll]
    exact .inl h
  have hold : ∀ g ∈ c.subgraphs,
      g.members.Nodup ∧ ∀ id ∈ g.members, id ∈ (c.addReference r).ids := by
    intro g hg
    obtain ⟨hnodup, hmem⟩ := grouped g hg
    exact ⟨hnodup, fun id hid => hkeep (hmem id hid)⟩
  intro g hg
  change g ∈ (if c.depth = 0 then c.subgraphs else changeLast (·.addMember r.id) c.subgraphs) at hg
  split at hg
  · exact hold g hg
  · rcases mem_changeLast hg with hg | ⟨g', hg', rfl⟩
    · exact hold g hg
    · obtain ⟨hnodup, hmem⟩ := hold g' hg'
      rw [members_addMember]
      refine ⟨enroll_nodup hnodup r.id, fun id hid => ?_⟩
      rcases mem_enroll.mp hid with hid | rfl
      · exact hmem id hid
      · rw [ids_addReference, mem_enroll]
        exact .inr rfl

theorem Grouped.foldl_addReference {c : Chart} (grouped : c.Grouped) (rs : List Reference) :
    (rs.foldl Chart.addReference c).Grouped := by
  induction rs generalizing c with
  | nil => exact grouped
  | cons r rs ih => exact ih (grouped.addReference r)

/-- A statement keeps members among the nodes. -/
theorem Grouped.add {c : Chart} (grouped : c.Grouped) (st : Statement) : (c.add st).Grouped := by
  cases st with
  | path first hops => exact grouped.foldl_addReference (first :: hops.map Hop.target)
  | subgraph id label =>
      intro g hg
      change g ∈ (if c.depth = 0 then c.subgraphs ++ [{ id := id, label := label }]
        else c.subgraphs) at hg
      split at hg
      · rcases List.mem_append.mp hg with hg | hg
        · exact grouped g hg
        · rw [List.mem_singleton.mp hg]
          exact ⟨List.nodup_nil, fun id hid => absurd hid List.not_mem_nil⟩
      · exact grouped g hg
  | header _ => exact grouped
  | close => exact grouped

/-- Statements keep members among the nodes. -/
theorem grouped_foldl_add (sts : List Statement) {c : Chart} (grouped : c.Grouped) :
    (sts.foldl add c).Grouped := by
  induction sts generalizing c with
  | nil => exact grouped
  | cons st sts ih => exact ih (grouped.add st)

/-! ### All statements -/

/-- The diagram of a flowchart records what its statements name and draw. -/
theorem records_toDiagram (sts : List Statement) (directive : Directive) (text : String) :
    ((ofStatements sts).toDiagram directive text).Records
      (sts.flatMap Statement.names) (sts.flatMap Statement.edges) := by
  have hids : ((ofStatements sts).toDiagram directive text).ids = (ofStatements sts).ids :=
    List.map_map
  have hgrouped : (ofStatements sts).Grouped :=
    grouped_foldl_add sts fun g hg => absurd hg List.not_mem_nil
  refine Diagram.records_of_named ?_ ?_ (Named.flatMap Statement.named sts) ?_
  · rw [hids, ofStatements, foldl_flatMap ids_add]
    exact foldl_enroll [] _
  · exact foldl_append edges_add sts {}
  · intro g hg
    obtain ⟨g', hg', rfl⟩ := List.mem_map.mp hg
    rw [hids]
    exact hgrouped g' hg'

end Chart

end Whiteboard.Flowchart
