import Whiteboard.Proofs.Document
import Whiteboard.Proofs.Entity.Title
import Whiteboard.Proofs.Presentation
import Whiteboard.Proofs.Scene.Shape
import Whiteboard.Proofs.Sequence.Actor

/-!
Which style wins.

An override for the id of a node decides its style; without one, the node has its `ownStyle`, which
goes by its shape, then its label, then what its language takes it for (`style_of_mem_read`). The
languages settle this at different moments, and aliases, definitions and declarations of actors may
come in any order, but only what they add up to counts; the overrides for other ids do not
(`mem_read_of_get?_eq`). What is settled is what is drawn: every shape has the colours of its node
(`styled_of_parse`).
-/

namespace Whiteboard.Document

/-- The text that tells the style of a node: its label, of which for an entity only the name. -/
def styleText (dialect : Dialect) (n : Node) : String :=
  match dialect with
  | .entityRelation => firstLine n.label
  | .flowchart | .sequence => n.label

/-- What a language takes a node for if neither its shape nor its label tells. -/
def fallback? (dialect : Dialect) (body : List Char) (id : String) : Option Category :=
  match dialect with
  | .flowchart => none
  | .sequence => if (Sequence.statements body).any (·.declaresActor id) then some .user else none
  | .entityRelation => some .db

/-- The style of a node for whose id there is no override. -/
def ownStyle (dialect : Dialect) (body : List Char) (n : Node) : Option Category :=
  (Category.ofShape? n.shape).or
    ((Category.ofLabel? (styleText dialect n)).or (fallback? dialect body n.id))

/-- An override comes first, then the shape, then the label, and the language last. -/
theorem styleOf_or (m : Overrides) (id label : String) (shape : Shape)
    (fallback : Option Category) :
    (m.styleOf id label shape).or fallback =
      (m.get? id).or ((Category.ofShape? shape).or ((Category.ofLabel? label).or fallback)) := by
  rw [Overrides.styleOf, Option.or_assoc, Option.or_assoc]

/-! ### Nodes -/

section Read

variable {dialect : Dialect} {directive directive' : Directive} {text text' : String}
  {body : List Char} {n : Node}

/-- An override comes first, then what the node itself tells. -/
theorem style_of_mem_read (hn : n ∈ (read dialect directive text body).nodes) :
    n.style = (directive.overrides.get? n.id).or (ownStyle dialect body n) := by
  cases dialect with
  | flowchart =>
      obtain ⟨x, -, rfl⟩ := List.mem_map.mp hn
      rw [ownStyle, fallback?, ← styleOf_or, Option.or_none]
      rfl
  | sequence =>
      obtain ⟨p, hp, rfl⟩ := List.mem_map.mp hn
      have hactor : p.isActor = (Sequence.statements body).any (·.declaresActor p.id) :=
        Sequence.Conversation.isActor_eq_any hp
      rw [ownStyle, fallback?, ← styleOf_or, Sequence.Participant.node, ← hactor]
      rfl
  | entityRelation =>
      obtain ⟨e, he, rfl⟩ := List.mem_map.mp hn
      have hname : styleText .entityRelation (e.node directive.overrides) = e.name :=
        Entity.firstLine_label ((Entity.Schema.titled_ofText body).entities e he).name
      rw [ownStyle, fallback?, ← styleOf_or, hname]
      rfl

/-- A node does not depend on the overrides for other ids. -/
theorem mem_read_of_get?_eq (hn : n ∈ (read dialect directive text body).nodes)
    (hget : directive.overrides.get? n.id = directive'.overrides.get? n.id) (text' : String) :
    n ∈ (read dialect directive' text' body).nodes := by
  have hunstyled : n.unstyled ∈ (read dialect directive' text' body).nodes.map Node.unstyled := by
    rw [← Diagram.nodes_unstyled, unstyled_read rfl dialect directive' directive text' text]
    exact List.mem_map_of_mem hn
  obtain ⟨n', hn', heq⟩ := List.mem_map.mp hunstyled
  obtain ⟨hid, hlabel, hshape, -⟩ := (Node.mk.injEq ..).mp heq
  have hown : ownStyle dialect body n' = ownStyle dialect body n := by
    unfold ownStyle styleText
    rw [hid, hlabel, hshape]
  have hstyle : n'.style = n.style := by
    rw [style_of_mem_read hn', style_of_mem_read hn, hown, hid, hget]
  obtain rfl : n' = n := by
    obtain ⟨id, label, shape, style⟩ := n
    obtain ⟨id', label', shape', style'⟩ := n'
    exact (Node.mk.injEq ..).mpr ⟨hid, hlabel, hshape, hstyle⟩
  exact hn'

end Read

theorem directive_read (dialect : Dialect) (directive : Directive) (text : String)
    (body : List Char) : (read dialect directive text body).directive = directive := by
  cases dialect <;> rfl

/-- A subgraph has a style only by an override. -/
theorem style_of_mem_subgraphs {dialect : Dialect} {directive : Directive} {text : String}
    {body : List Char} {g : Subgraph} (hg : g ∈ (read dialect directive text body).subgraphs) :
    g.style = directive.overrides.get? g.id := by
  cases dialect with
  | flowchart =>
      obtain ⟨x, -, rfl⟩ := List.mem_map.mp hg
      rfl
  | sequence => cases hg
  | entityRelation => cases hg

/-! ### The drawing -/

/-- How a diagram read from a text is styled, and drawn in a scene. -/
structure Styled {α : Type} (body : List Char) (d : Diagram) (scene : Scene α) : Prop where
  override : ∀ n ∈ d.nodes, ∀ c, d.directive.overrides.get? n.id = some c → n.style = some c
  own : ∀ n ∈ d.nodes, d.directive.overrides.get? n.id = none →
    n.style = ownStyle d.dialect body n
  /-- No override for another id changes the node. -/
  independent : ∀ n ∈ d.nodes, d.directive.overrides.get? n.id = none →
    ∀ directive : Directive, directive.overrides.get? n.id = none →
      n ∈ (read d.dialect directive d.text body).nodes
  subgraph : ∀ g ∈ d.subgraphs, g.style = d.directive.overrides.get? g.id
  drawn : ∀ n ∈ d.nodes, ∃ x ∈ scene.withRole .shape, x.owner = some n.id
  colours : ∀ n ∈ d.nodes, ∀ x ∈ scene.withRole .shape, x.owner = some n.id →
    x.stroke = (Palette.ofStyle n.style).stroke ∧
      x.background = (Palette.ofStyle n.style).background

/-- A shape has the colours of the node it is drawn for, if no other node has its id. -/
theorem colours_of_mem_withRole {α : Type} [Scalar α] {g : Generator} {s : Settings α}
    {d : Diagram} (hids : d.ids.Nodup) {n : Node} (hn : n ∈ d.nodes) {x : Element String α}
    (hx : x ∈ (Scene.ofDiagram g s d).withRole .shape) (howner : x.owner = some n.id) :
    x.stroke = (Palette.ofStyle n.style).stroke ∧
      x.background = (Palette.ofStyle n.style).background := by
  obtain ⟨hmem, hrole⟩ := List.mem_filter.mp hx
  obtain ⟨p, -, m, hm, shows⟩ := Scene.shows_of_mem_draw hmem (beq_iff_eq.mp hrole)
  obtain rfl : m = n :=
    List.inj_on_of_nodup_map hids (List.mem_of_find?_eq_some hm) hn
      (Option.some.inj (shows.owner_eq.symm.trans howner))
  exact ⟨shows.stroke_eq, shows.background_eq⟩

/-- Every diagram that is read is styled by its directive, and drawn in the colours of its styles.
-/
theorem styled_read {α : Type} [Scalar α] (g : Generator) (s : Settings α) (dialect : Dialect)
    (directive : Directive) (text : String) (body : List Char) :
    let d := read dialect directive text body
    Styled body d (Scene.ofDiagram g s d) := by
  intro d
  have hdialect : d.dialect = dialect := dialect_read dialect directive text body
  have hdirective : d.directive = directive := directive_read dialect directive text body
  have style : ∀ n ∈ d.nodes,
      n.style = (d.directive.overrides.get? n.id).or (ownStyle d.dialect body n) := by
    rw [hdialect, hdirective]
    exact fun n hn => style_of_mem_read hn
  constructor
  case override =>
    intro n hn c hc
    rw [style n hn, hc, Option.some_or]
  case own =>
    intro n hn hnone
    rw [style n hn, hnone, Option.none_or]
  case independent =>
    intro n hn hnone directive' hnone'
    rw [hdirective] at hnone
    rw [hdialect]
    exact mem_read_of_get?_eq hn (hnone.trans hnone'.symm) d.text
  case subgraph =>
    intro g hg
    rw [hdirective]
    exact style_of_mem_subgraphs hg
  case drawn =>
    intro n hn
    obtain ⟨x, hx, hrole, howner⟩ :=
      Scene.exists_shape (Layout.follows_ofDiagram s d) (Diagram.hasNode_of_mem hn)
    exact ⟨x, List.mem_filter.mpr ⟨hx, beq_iff_eq.mpr hrole⟩, howner⟩
  case colours =>
    intro n hn x hx howner
    exact colours_of_mem_withRole (read_records dialect directive text body).ids_nodup hn hx howner

/-- For every text that is read, the directive found in it and the nodes decide the styles, and the
styles decide the colours. -/
theorem styled_of_parse {α : Type} [Scalar α] (g : Generator) (s : Settings α) {text : String}
    {d : Diagram} (h : parse text = .ok d) :
    d.directive = Directive.ofText text.toList ∧
      Styled (Directive.strip text.toList) d (Scene.ofDiagram g s d) := by
  obtain ⟨dialect, rfl⟩ := parse_eq_ok h
  exact ⟨directive_read .., styled_read g s dialect _ text _⟩

/-- A message between two participants who are declared as actors later on. The first has an
override. -/
def call : String :=
  "%%\x7binit: \x7b'styles': \x7b'Ann': 'cache'\x7d\x7d\x7d%%\nsequenceDiagram\n" ++
    "Ann->>Bob: hello\nactor Ann\nactor Bob"

def callDiagram : Diagram where
  dialect := .sequence
  nodes :=
    [{ id := "Ann", label := "Ann", shape := .ellipse, style := some .cache },
      { id := "Bob", label := "Bob", shape := .ellipse, style := some .user }]
  edges := [{ source := "Ann", target := "Bob", label := some "hello", stroke := some .solid }]
  directive := { overrides := [("Ann", .cache)] }
  text := call

/-- The styles of `call`: one by its override, one as an actor. -/
theorem call_styled :
    parse call = .ok callDiagram ∧ callDiagram.directive = Directive.ofText call.toList ∧
      Styled (Directive.strip call.toList) callDiagram
        (Scene.ofDiagram .keystream (.standard : Settings Rat) callDiagram) := by
  have hread : parse call = .ok callDiagram := by decide +kernel
  exact ⟨hread, styled_of_parse .keystream .standard hread⟩

end Whiteboard.Document
