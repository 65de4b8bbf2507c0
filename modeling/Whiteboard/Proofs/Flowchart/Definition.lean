import Whiteboard.Proofs.Document

/-!
Which definition of a node counts.

Of all references to an id, the last one with brackets says what shape and label the node has, and a
bare reference leaves them as they are; the first one, with brackets or without, says where the node
stands (`nodes_ofStatements`). Brackets say nothing else: with them or without them, a statement
draws the same edges and fills the same subgraphs (`nodeless_foldl_add`). So to change the brackets
of one reference changes at most the node it refers to (`sameBut_withDefinition`).
-/

namespace Whiteboard

open Roster

/-- Two diagrams differ in nothing but the node of an id, which stands at the same place in both. -/
structure Diagram.SameBut (id : String) (d d' : Diagram) : Prop where
  rest_eq : d' = { d with nodes := d'.nodes }
  ids_eq : d'.ids = d.ids
  node_eq : ∀ (i : Nat) (n : Node), d.nodes[i]? = some n → n.id ≠ id → d'.nodes[i]? = some n

namespace Flowchart

/-- What the last reference to an id that has brackets says of the node. -/
def lastDefinition? (rs : List Reference) (id : String) : Option Definition :=
  ((rs.filter (·.id == id)).filterMap (·.definition)).getLast?

/-- The node of an id as some references leave it. -/
def settled (rs : List Reference) (id : String) : Node :=
  Reference.node ⟨id, lastDefinition? rs id⟩

theorem id_settled (rs : List Reference) (id : String) : (settled rs id).id = id :=
  id_node ⟨id, lastDefinition? rs id⟩

/-- The last brackets decide the shape. -/
theorem shape_settled (rs : List Reference) (id : String) :
    (settled rs id).shape = (lastDefinition? rs id).elim .rectangle (·.shape) := by
  unfold settled Reference.node
  cases lastDefinition? rs id <;> rfl

/-- The last brackets decide the label. -/
theorem label_settled (rs : List Reference) (id : String) :
    (settled rs id).label = (lastDefinition? rs id).elim id (·.label) := by
  unfold settled Reference.node
  cases lastDefinition? rs id <;> rfl

/-! ### One more reference -/

/-- A later definition wins, a bare mention changes nothing. -/
theorem lastDefinition?_concat (rs : List Reference) (r : Reference) (id : String) :
    lastDefinition? (rs ++ [r]) id =
      if r.id = id then r.definition.or (lastDefinition? rs id) else lastDefinition? rs id := by
  unfold lastDefinition?
  rw [List.filter_append, List.filterMap_append, List.getLast?_append]
  by_cases h : r.id = id
  · rw [if_pos h]
    cases hdefinition : r.definition <;> simp [h, hdefinition]
  · rw [if_neg h]
    simp [h]

theorem lastDefinition?_eq_none {rs : List Reference} {id : String}
    (h : id ∉ rs.map (·.id)) : lastDefinition? rs id = none := by
  have hnone : rs.filter (·.id == id) = [] := by
    rw [List.filter_eq_nil_iff]
    intro r hr heq
    exact h (List.mem_map.mpr ⟨r, hr, beq_iff_eq.mp heq⟩)
  rw [lastDefinition?, hnone]
  rfl

/-- A reference does to a settled node what it does to the node in a list. -/
theorem settled_concat (rs : List Reference) (r : Reference) :
    settled (rs ++ [r]) r.id = r.redefine (settled rs r.id) := by
  unfold settled
  rw [lastDefinition?_concat, if_pos rfl]
  unfold Reference.redefine Reference.node
  cases r.definition with
  | none => rfl
  | some d => cases lastDefinition? rs r.id <;> rfl

/-- A reference to one id leaves the nodes of others as they are. -/
theorem settled_concat_of_ne (rs : List Reference) {r : Reference} {id : String} (h : id ≠ r.id) :
    settled (rs ++ [r]) id = settled rs id := by
  rw [settled, lastDefinition?_concat, if_neg (Ne.symm h), settled]

/-- The first reference to an id makes the node that it would make of a bare one. -/
theorem redefine_settled {rs : List Reference} {r : Reference} (h : r.id ∉ rs.map (·.id)) :
    r.redefine (settled rs r.id) = r.node := by
  rw [settled, lastDefinition?_eq_none h]
  unfold Reference.redefine Reference.node
  cases r.definition <;> rfl

/-- A mention of a node in a list that is given id by id. -/
theorem mention_map {ids : List String} {r : Reference} {node node' : String → Node}
    (hids : ids.Nodup) (hid : ∀ id, (node id).id = id)
    (hsame : node' r.id = r.redefine (node r.id))
    (hnew : r.id ∉ ids → node' r.id = r.node) (hother : ∀ id, id ≠ r.id → node' id = node id) :
    mention (ids.map node) r = (enroll ids r.id).map node' :=
  change_map (mention · r) r.node rfl (fun _ _ => rfl) hids hid hsame hnew hother

/-- After some mentions there is a node for each id, where it was mentioned first and as it was
defined last. -/
theorem foldl_mention (rs : List Reference) :
    rs.foldl mention [] = (rs.map (·.id)).eraseDups.map (settled rs) := by
  induction rs using List.reverseRecOn with
  | nil => rfl
  | append_singleton rs r ih =>
      rw [List.foldl_concat, ih, List.map_append, List.map_singleton, eraseDups_concat]
      refine mention_map (eraseDups_nodup _) (id_settled rs) (settled_concat rs r) ?_
        fun id h => settled_concat_of_ne rs h
      intro hnone
      rw [settled_concat, redefine_settled fun hmem => hnone (List.mem_eraseDups.mpr hmem)]

/-! ### Charts -/

namespace Chart

theorem nodes_foldl_addReference (rs : List Reference) (c : Chart) :
    (rs.foldl addReference c).nodes = rs.foldl mention c.nodes := by
  induction rs generalizing c with
  | nil => rfl
  | cons r rs ih => exact ih (c.addReference r)

/-- Nodes are told by the references of all statements, in order. -/
theorem nodes_foldl_add (sts : List Statement) (c : Chart) :
    (sts.foldl add c).nodes = (sts.flatMap Statement.references).foldl mention c.nodes := by
  induction sts generalizing c with
  | nil => rfl
  | cons st sts ih =>
      have hadd : (c.add st).nodes = st.references.foldl mention c.nodes := by
        cases st with
        | path first hops => exact nodes_foldl_addReference (first :: hops.map Hop.target) c
        | _ => rfl
      rw [List.foldl_cons, ih, hadd, List.flatMap_cons, List.foldl_append]

theorem map_id_references (sts : List Statement) :
    (sts.flatMap Statement.references).map (·.id) = sts.flatMap Statement.names :=
  List.map_flatMap

/-- The nodes of a chart stand where they are mentioned first, as they are defined last. -/
theorem nodes_ofStatements (sts : List Statement) :
    (ofStatements sts).nodes =
      (sts.flatMap Statement.names).eraseDups.map (settled (sts.flatMap Statement.references)) := by
  rw [ofStatements, nodes_foldl_add, foldl_mention, map_id_references]

end Chart

/-! ### Other brackets -/

/-- The reference at a position of the statement at a place. -/
def referenceAt? (sts : List Statement) (place position : Nat) : Option Reference :=
  sts[place]?.bind (·.references[position]?)

/-- The statement with other brackets, or none, at the reference at a position. -/
def Statement.withDefinition (position : Nat) (definition : Option Definition) :
    Statement → Statement
  | path first hops =>
    match position with
    | 0 => path { first with definition } hops
    | position + 1 =>
      path first (hops.modify position fun p => { p with target := { p.target with definition } })
  | st => st

/-- The statements with other brackets, or none, at one reference. -/
def withDefinition (sts : List Statement) (place position : Nat)
    (definition : Option Definition) : List Statement :=
  sts.modify place (·.withDefinition position definition)

def Statement.bare : Statement → Statement
  | path first hops =>
    path { first with definition := none }
      (hops.map fun p => { p with target := { p.target with definition := none } })
  | st => st

section Modify

variable {α β : Type} {f : α → α} {xs : List α} {i : Nat}

/-- A view that does not see a change of one element does not see it in the list. -/
theorem map_modify {g : α → β} (h : ∀ x, xs[i]? = some x → g (f x) = g x) :
    (xs.modify i f).map g = xs.map g := by
  apply List.ext_getElem?
  intro j
  rw [List.getElem?_map, List.getElem?_map, List.getElem?_modify]
  cases hx : xs[j]? with
  | none => rfl
  | some x =>
      by_cases hij : i = j
      · subst hij
        simp [h x hx]
      · simp [hij]

/-- A filter does not see a change of an element that it drops, before and after. -/
theorem filter_modify {p : α → Bool} (h : ∀ x, xs[i]? = some x → p x = false ∧ p (f x) = false) :
    (xs.modify i f).filter p = xs.filter p := by
  induction xs generalizing i with
  | nil => cases i <;> rfl
  | cons x xs ih =>
      cases i with
      | zero =>
          obtain ⟨hbefore, hafter⟩ := h x rfl
          rw [List.modify_zero_cons, List.filter_cons_of_neg (by simp [hafter]),
            List.filter_cons_of_neg (by simp [hbefore])]
      | succ i =>
          rw [List.modify_succ_cons, List.filter_cons, List.filter_cons, ih h]

end Modify

/-- Edges name the ends of a hop, not their brackets. -/
theorem edgesFrom_bare (source : String) (hops : List Hop) :
    edgesFrom source
        (hops.map fun p => { p with target := { p.target with definition := none } }) =
      edgesFrom source hops := by
  induction hops generalizing source with
  | nil => rfl
  | cons p hops ih => exact congrArg (p.edge source :: ·) (ih p.target.id)

namespace Statement

variable (position : Nat) (definition : Option Definition) (st : Statement)

/-- Other brackets change one reference. -/
theorem references_withDefinition :
    (st.withDefinition position definition).references =
      st.references.modify position fun r => { r with definition } := by
  cases st with
  | path first hops =>
      cases position with
      | zero => rfl
      | succ position =>
          rw [withDefinition, references, references, List.modify_succ_cons]
          congr 1
          apply List.ext_getElem?
          intro i
          simp only [List.getElem?_map, List.getElem?_modify]
          cases hops[i]? with
          | none => rfl
          | some p => by_cases h : position = i <;> simp [h]
  | header _ => cases position <;> rfl
  | subgraph _ _ => cases position <;> rfl
  | close => cases position <;> rfl

/-- Other brackets leave the rest of a statement as it is. -/
theorem bare_withDefinition : (st.withDefinition position definition).bare = st.bare := by
  cases st with
  | path first hops =>
      cases position with
      | zero => rfl
      | succ position => exact congrArg (path _) (map_modify fun _ _ => rfl)
  | _ => rfl

theorem names_bare : st.bare.names = st.names := by
  cases st with
  | path first hops => simp [bare, names, references]
  | _ => rfl

theorem edges_bare : st.bare.edges = st.edges := by
  cases st with
  | path first hops => exact edgesFrom_bare first.id hops
  | _ => rfl

end Statement

theorem bare_withDefinition (sts : List Statement) (place position : Nat)
    (definition : Option Definition) :
    (withDefinition sts place position definition).map Statement.bare =
      sts.map Statement.bare :=
  map_modify fun st _ => st.bare_withDefinition position definition

/-- The references to other ids keep their brackets. -/
theorem filter_references_withDefinition {sts : List Statement} {place position : Nat}
    {r : Reference} (hr : referenceAt? sts place position = some r)
    (definition : Option Definition) {id : String} (hid : id ≠ r.id) :
    ((withDefinition sts place position definition).flatMap Statement.references).filter
        (·.id == id) =
      (sts.flatMap Statement.references).filter (·.id == id) := by
  rw [List.filter_flatMap, List.filter_flatMap, List.flatMap_def, List.flatMap_def, withDefinition]
  congr 1
  refine map_modify fun st hst => ?_
  rw [Statement.references_withDefinition]
  refine filter_modify fun r' hr' => ?_
  obtain rfl : r' = r := by
    rw [referenceAt?, hst, Option.bind_some, hr'] at hr
    exact Option.some.inj hr
  simp [Ne.symm hid]

/-- Brackets in front of later ones have no say. -/
theorem settled_withDefinition {sts : List Statement} {place position : Nat}
    {r : Reference} (hr : referenceAt? sts place position = some r)
    (definition : Option Definition) {id : String} (hid : id ≠ r.id) :
    settled ((withDefinition sts place position definition).flatMap Statement.references) id =
      settled (sts.flatMap Statement.references) id := by
  unfold settled lastDefinition?
  rw [filter_references_withDefinition hr definition hid]

namespace Chart

def nodeless (c : Chart) : Chart :=
  { c with nodes := [] }

variable {c c' : Chart}

theorem nodeless_addReference (h : c.nodeless = c'.nodeless) {r r' : Reference}
    (hid : r.id = r'.id) : (c.addReference r).nodeless = (c'.addReference r').nodeless := by
  obtain ⟨hdirection, -, hedges, hsubgraphs, hdepth⟩ := (Chart.mk.injEq ..).mp h
  simp only [nodeless, addReference, hdirection, hedges, hsubgraphs, hdepth, hid]

theorem nodeless_foldl_addReference (h : c.nodeless = c'.nodeless) {rs rs' : List Reference}
    (hids : rs.map (·.id) = rs'.map (·.id)) :
    (rs.foldl addReference c).nodeless = (rs'.foldl addReference c').nodeless := by
  induction rs generalizing rs' c c' with
  | nil =>
      rw [List.map_eq_nil_iff.mp hids.symm]
      exact h
  | cons r rs ih =>
      cases rs' with
      | nil => cases hids
      | cons r' rs' =>
          obtain ⟨hid, hids⟩ := List.cons.inj hids
          exact ih (nodeless_addReference h hid) hids

/-- Statements that say the same apart from brackets do the same to a chart apart from its nodes. -/
theorem nodeless_add (h : c.nodeless = c'.nodeless) {st st' : Statement}
    (hst : st.bare = st'.bare) : (c.add st).nodeless = (c'.add st').nodeless := by
  have hnames : st.names = st'.names := by rw [← st.names_bare, hst, st'.names_bare]
  have hedges : st.edges = st'.edges := by rw [← st.edges_bare, hst, st'.edges_bare]
  -- All but a path do the same whether the nodes are there or not.
  have hadd : ∀ st : Statement, (c.nodeless.add st).nodeless = (c'.nodeless.add st).nodeless :=
    fun _ => by rw [h]
  cases st with
  | path first hops =>
      cases st' with
      | path first' hops' =>
          exact congrArg₂ (fun (c : Chart) edges => { c with edges := c.edges ++ edges })
            (nodeless_foldl_addReference h hnames) hedges
      | _ => cases hst
  | header direction =>
      cases st' <;> cases hst
      exact (hadd (.header direction) :)
  | subgraph id label =>
      cases st' <;> cases hst
      exact (hadd (.subgraph id label) :)
  | close =>
      cases st' <;> cases hst
      exact (hadd .close :)

/-- Apart from its nodes, a chart is told by what statements say apart from brackets. -/
theorem nodeless_foldl_add (h : c.nodeless = c'.nodeless) {sts sts' : List Statement}
    (hsts : sts.map Statement.bare = sts'.map Statement.bare) :
    (sts.foldl add c).nodeless = (sts'.foldl add c').nodeless := by
  induction sts generalizing sts' c c' with
  | nil =>
      rw [List.map_eq_nil_iff.mp hsts.symm]
      exact h
  | cons st sts ih =>
      cases sts' with
      | nil => cases hsts
      | cons st' sts' =>
          obtain ⟨hst, hsts⟩ := List.cons.inj hsts
          exact ih (nodeless_add h hst) hsts

/-- The nodes of a chart are the settled ones, in the order of their first mention. -/
theorem nodes_toDiagram (sts : List Statement) (directive : Directive) (text : String) :
    ((ofStatements sts).toDiagram directive text).nodes =
      (sts.flatMap Statement.names).eraseDups.map fun id =>
        let n := settled (sts.flatMap Statement.references) id
        { n with style := directive.overrides.styleOf n.id n.label n.shape } := by
  have hrestyle : ((ofStatements sts).toDiagram directive text).nodes =
      (ofStatements sts).nodes.map fun n =>
        { n with style := directive.overrides.styleOf n.id n.label n.shape } := rfl
  rw [hrestyle, nodes_ofStatements, List.map_map]
  rfl

/-- Other brackets at one reference change at most the node of that reference. -/
theorem sameBut_withDefinition {sts : List Statement} {place position : Nat} {r : Reference}
    (hr : referenceAt? sts place position = some r) (definition : Option Definition)
    (directive : Directive) (text : String) :
    Diagram.SameBut r.id ((ofStatements sts).toDiagram directive text)
      ((ofStatements (withDefinition sts place position definition)).toDiagram directive text) := by
  have hbare := bare_withDefinition sts place position definition
  have hnames : (withDefinition sts place position definition).flatMap Statement.names =
      sts.flatMap Statement.names := by
    rw [← funext Statement.names_bare, ← List.flatMap_map, hbare, List.flatMap_map]
  constructor
  case rest_eq =>
    have hrest : (ofStatements (withDefinition sts place position definition)).nodeless =
        (ofStatements sts).nodeless := nodeless_foldl_add rfl hbare
    obtain ⟨hdirection, -, hedges, hsubgraphs, -⟩ := (Chart.mk.injEq ..).mp hrest
    simp only [toDiagram, Diagram.restyle, hdirection, hedges, hsubgraphs]
  case ids_eq =>
    rw [(records_toDiagram _ directive text).ids_eq, hnames,
      (records_toDiagram sts directive text).ids_eq]
  case node_eq =>
    intro i n hn hne
    rw [nodes_toDiagram, List.getElem?_map, Option.map_eq_some_iff] at hn
    obtain ⟨id, hid, rfl⟩ := hn
    have hne : id ≠ r.id := fun heq => hne ((id_settled _ id).trans heq)
    rw [nodes_toDiagram, hnames, List.getElem?_map, hid, Option.map_some,
      settled_withDefinition hr definition hne]

end Chart

end Flowchart

namespace Document

open Flowchart

/-- The nodes of a flowchart stand where they are mentioned first and look as they are defined last,
and other brackets at one reference change at most the node of that reference. -/
theorem explicit_definitions_win {text : String} {d : Diagram} (h : parse text = .ok d)
    (hd : d.dialect = .flowchart) :
    let sts := statements (Directive.strip text.toList)
    let rs := sts.flatMap Statement.references
    d.ids = (rs.map (·.id)).eraseDups ∧
      (∀ n ∈ d.nodes,
        n.shape = (lastDefinition? rs n.id).elim .rectangle (·.shape) ∧
          n.label = (lastDefinition? rs n.id).elim n.id (·.label)) ∧
      ∀ sts place position r, referenceAt? sts place position = some r →
        ∀ definition directive text,
          Diagram.SameBut r.id ((Chart.ofStatements sts).toDiagram directive text)
            ((Chart.ofStatements (withDefinition sts place position definition)).toDiagram
              directive text) := by
  intro sts rs
  obtain ⟨dialect, rfl⟩ := parse_eq_ok h
  obtain rfl : dialect = .flowchart := (dialect_read ..).symm.trans hd
  refine ⟨?_, fun n hn => ?_, fun _ _ _ _ hr => Chart.sameBut_withDefinition hr⟩
  · rw [Chart.map_id_references]
    exact (Chart.records_toDiagram sts _ text).ids_eq
  · change n ∈ ((Chart.ofStatements sts).toDiagram (Directive.ofText text.toList) text).nodes at hn
    rw [Chart.nodes_toDiagram] at hn
    obtain ⟨id, -, rfl⟩ := List.mem_map.mp hn
    dsimp only
    rw [id_settled]
    exact ⟨shape_settled rs id, label_settled rs id⟩

/-- A chart with a node that gets its brackets late and one that gets them twice. -/
def market : String :=
  "graph LR\nStall --> Till{cash?}\nTill[Till] --> Stall\nStall([Fruit]) --> Till"

def marketDiagram : Diagram where
  dialect := .flowchart
  direction := .lr
  nodes := [{ id := "Stall", label := "Fruit", shape := .stadium }, .bare "Till"]
  edges :=
    [("Stall", "Till"), ("Till", "Stall"), ("Stall", "Till")].map fun (source, target) =>
      { source, target, stroke := some .solid }
  text := market

/-- The nodes of `market` before and after other brackets. -/
theorem market_settled :
    let sts := statements (Directive.strip market.toList)
    let rs := sts.flatMap Statement.references
    parse market = .ok marketDiagram ∧ marketDiagram.ids = (rs.map (·.id)).eraseDups ∧
      (lastDefinition? rs "Stall").elim .rectangle (·.shape) = Shape.stadium ∧
      referenceAt? sts 3 0 = some ⟨"Stall", some ⟨.stadium, "Fruit"⟩⟩ ∧
      Diagram.SameBut "Stall" ((Chart.ofStatements sts).toDiagram {} market)
        ((Chart.ofStatements (withDefinition sts 3 0 none)).toDiagram {} market) := by
  intro sts rs
  have hparse : parse market = .ok marketDiagram := by decide +kernel
  have hreference : referenceAt? sts 3 0 = some ⟨"Stall", some ⟨.stadium, "Fruit"⟩⟩ := by
    decide +kernel
  obtain ⟨hids, hnodes, hsame⟩ := explicit_definitions_win hparse rfl
  have hstall := hnodes { id := "Stall", label := "Fruit", shape := .stadium } List.mem_cons_self
  exact ⟨hparse, hids, hstall.1.symm, hreference, hsame sts 3 0 _ hreference none {} market⟩

end Document

end Whiteboard
