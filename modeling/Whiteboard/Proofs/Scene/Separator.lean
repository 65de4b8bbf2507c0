import Whiteboard.Proofs.Detection
import Whiteboard.Proofs.Entity.Event
import Whiteboard.Proofs.Scene.Emission

/-!
What is drawn of the entities of a text.

The label of an entity has a line for its title and one for each attribute that is told inside its
blocks, so it has several lines exactly if there is an attribute. Then, and only then, a separator
is drawn below the title (`separators_ofDiagram`). All of it follows from what the lines of the text
tell, one by one (`entities_told`).
-/

namespace Whiteboard

variable {α : Type} [Scalar α]

/-! ### Separators -/

namespace Depiction

/-- Exactly the entities with attributes have a separator. -/
theorem filter_separator_ofNode {d : Diagram} (hd : d.dialect = .entityRelation)
    (hids : d.ids.Nodup) {n : Node} (hn : n ∈ d.nodes) :
    (ofNode d n).filter (·.role == .separator) =
      if n.isMultiline then [{ role := .separator, owner := some n.id }] else [] := by
  have hdrawn : (d.node? n.id).getD n = n := by rw [Diagram.node?_of_mem hids hn, Option.getD_some]
  rw [ofNode, hdrawn]
  cases h : n.isMultiline <;> simp [hd]

end Depiction

/-- The separators of a scene about entities are those of the nodes with several lines. -/
theorem Scene.separators_ofDiagram (g : Generator) (s : Settings α) {d : Diagram}
    (hd : d.dialect = .entityRelation) (hids : d.ids.Nodup) :
    (ofDiagram g s d).depictions.filter (·.role == .separator) =
      (d.nodes.filter (·.isMultiline)).map fun n => { role := .separator, owner := some n.id } := by
  have hedge : ∀ e, (Depiction.ofEdge e).filter (·.role == .separator) = [] := by
    intro e
    rw [Outline.ofEdge_eq]
    cases Stencil.labelOf? e <;> rfl
  have hframes : ∀ fs : List (Frame α),
      (fs.flatMap fun f => (Depiction.ofFrame f).filter (·.role == .separator)) = [] :=
    fun fs => List.flatMap_eq_nil_iff.mpr fun _ _ => rfl
  rw [depictions_ofDiagram, Depiction.filter_ofDrawing (fun _ => rfl) hedge, hframes,
    List.nil_append, List.map_eq_flatMap, ← Outline.flatMap_filter]
  exact List.flatMap_congr fun n hn => Depiction.filter_separator_ofNode hd hids hn

/-! ### The entities of a text -/

namespace Entity

/-- The lines of a text about entities tell everything that is read from it. The statements outside
blocks name the nodes and draw the edges. The label of a node has a line for the title of the entity
and one for each attribute that is told inside its blocks, in order; so it has several lines, and a
separator is drawn, exactly if there is such an attribute. -/
theorem entities_told (g : Generator) (s : Settings α) {text : String}
    (h : Document.dialect? text.toList = some .entityRelation) :
    ∃ d, Document.parse text = .ok d ∧
      let es := events none (Text.significantLines (Directive.strip text.toList))
      d.ids = ((es.filterMap Event.statement?).flatMap Statement.names).eraseDups ∧
      d.edges = (es.filterMap Event.statement?).flatMap Statement.edges ∧
      (∀ n ∈ d.nodes,
        n.label.toList.splitOn '\n' =
            (titleOf es n.id :: (attributesOf es n.id).map Attribute.display).map String.toList ∧
          (n.isMultiline = true ↔ attributesOf es n.id ≠ [])) ∧
      (Scene.ofDiagram g s d).depictions.filter (·.role == .separator) =
        (d.ids.filter fun id => attributesOf es id ≠ []).map fun id =>
          { role := .separator, owner := some id } := by
  refine ⟨_, Document.parse_of_dialect? h, ?_⟩
  intro es
  have hstatements : es.filterMap Event.statement? = statements (Directive.strip text.toList) :=
    filterMap_statement?_events none _
  have hrecords := Schema.records_toDiagram (Directive.strip text.toList)
    (Directive.ofText text.toList) text
  have hnodes : ∀ n ∈ ((Schema.ofText (Directive.strip text.toList)).toDiagram
        (Directive.ofText text.toList) text).nodes,
      n.label.toList.splitOn '\n' =
          (titleOf es n.id :: (attributesOf es n.id).map Attribute.display).map String.toList ∧
        (n.isMultiline = true ↔ attributesOf es n.id ≠ []) := by
    intro n hn
    obtain ⟨e, he, rfl⟩ := List.mem_map.mp hn
    rw [Schema.entities_ofText] at he
    obtain ⟨id, hid, rfl⟩ := List.mem_map.mp he
    obtain ⟨hlines, hbreak⟩ := label_told hid
    exact ⟨hlines, List.contains_iff_mem.trans hbreak⟩
  refine ⟨?_, ?_, hnodes, ?_⟩
  · rw [hstatements]
    exact hrecords.ids_eq
  · rw [hstatements]
    exact hrecords.edges_eq
  · refine (Scene.separators_ofDiagram g s rfl hrecords.ids_nodup).trans ?_
    rw [Diagram.ids, List.filter_map, List.map_map]
    refine congrArg _ (List.filter_congr fun n hn => ?_)
    rw [Bool.eq_iff_iff, (hnodes n hn).2, Function.comp_apply, decide_eq_true_iff]

/-- Orders of customers: one entity has two blocks, of which the last is never closed, another one
an alias and an empty block, and the line of a relationship stands inside a block. -/
def orders : String :=
  "erDiagram\nCUSTOMER ||--o\x7b ORDER : places\nCUSTOMER \x7b\nint id PK\nORDER -- ITEM\n\x7d\n" ++
    "ORDER [\"order form\"] \x7b\x7d\n" ++
      "CUSTOMER [Client] \x7b\nstring name \"of the firm\"\nerDiagram"

def ordersEvents : List Event :=
  [.outside (.relationship
      { left := "CUSTOMER"
        right := "ORDER"
        ends := some ("||", "o\x7b")
        identifying := true
        label := some "places" }),
    .outside (.opening "CUSTOMER" none false),
    .inside "CUSTOMER" (.attribute { typeName := "int", name := "id", keys := [.primary] }),
    .inside "CUSTOMER" .close,
    .outside (.opening "ORDER" (some "order form") true),
    .outside (.opening "CUSTOMER" (some "Client") false),
    .inside "CUSTOMER" (.attribute { typeName := "string", name := "name" })]

/-- The diagram of `orders`. -/
theorem orders_told :
    Document.dialect? orders.toList = some .entityRelation ∧
      ∃ d, Document.parse orders = .ok d ∧
        d.ids = ["CUSTOMER", "ORDER"] ∧
        d.edges =
          [{ source := "CUSTOMER"
             target := "ORDER"
             label := some "places"
             endHead := .absent
             stroke := some .solid }] ∧
        (∀ n ∈ d.nodes, n.id = "CUSTOMER" →
          n.label.toList.splitOn '\n' =
            ["Client".toList, "int id PK".toList, "string name".toList]) ∧
        (∀ n ∈ d.nodes, n.id = "ORDER" → n.isMultiline = false) ∧
        (Scene.ofDiagram .keystream (.standard : Settings Rat) d).depictions.filter
            (·.role == .separator) =
          [{ role := .separator, owner := some "CUSTOMER" }] := by
  have hdialect : Document.dialect? orders.toList = some .entityRelation := by decide +kernel
  have hevents : events none (Text.significantLines (Directive.strip orders.toList)) =
      ordersEvents := by decide +kernel
  obtain ⟨d, hparse, hids, hedges, hnodes, hseparators⟩ :=
    entities_told .keystream (.standard : Settings Rat) hdialect
  rw [hevents] at hids hedges hnodes hseparators
  have hnames : d.ids = ["CUSTOMER", "ORDER"] := hids.trans (by decide)
  refine ⟨hdialect, d, hparse, hnames, hedges.trans rfl, ?_, ?_, ?_⟩
  · intro n hn hid
    rw [(hnodes n hn).1, hid]
    decide
  · intro n hn hid
    rw [Bool.eq_false_iff, Ne, (hnodes n hn).2, hid]
    decide
  · rw [hseparators, hnames]
    decide

end Entity

end Whiteboard
