import Whiteboard.Proofs.Flowchart.Definition
import Whiteboard.Proofs.Flowchart.Leftover
import Whiteboard.Proofs.Text.Replace

/-!
Line breaks in labels.

The spellings of a line break are marked tokens, so replacing one spelling after the other comes to
the same as one way through the text, in whatever order they are taken, and leaves none of them.
Every label between brackets goes through this last of all (`unbroken_label`). An id has no angle
bracket in it, so a node that takes its id for a label has no line break tag in it either, and no
node of any flowchart has one (`breaks_normalized`).
-/

namespace Whiteboard.Flowchart

open Text

/-! ### Spellings of a line break -/

theorem marked_breakTags : Marked '<' ['\n'] breakTags where
  put_ne_nil := List.cons_ne_nil _ _
  mark_not_mem := by decide
  head?_eq := by decide
  not_mem_tail := by simp [breakTags]

/-- No spelling of a line break begins another one. -/
theorem eq_of_breakTags_isPrefix : ∀ a ∈ breakTags, ∀ b ∈ breakTags, a <+: b → a = b := by
  decide

/-- One spelling after the other is replaced as all at once would be. -/
theorem replaced_normalizeBreaks (cs : List Char) :
    Replaced breakTags ['\n'] cs (normalizeBreaks cs) :=
  replaced_foldl marked_breakTags cs

/-- There is one way to replace the tags from left to right. -/
theorem replaced_breakTags_iff {cs out : List Char} :
    Replaced breakTags ['\n'] cs out ↔ out = normalizeBreaks cs := by
  constructor
  · intro h
    exact h.unique marked_breakTags eq_of_breakTags_isPrefix (replaced_normalizeBreaks cs)
  · rintro rfl
    exact replaced_normalizeBreaks cs

/-- No tag is left, not even one put together from what stood around others. -/
theorem unbroken_normalizeBreaks (cs : List Char) : Unbroken (normalizeBreaks cs) :=
  fun _ htag => (replaced_normalizeBreaks cs).not_isInfix marked_breakTags htag

/-- The spellings may be replaced in any order. -/
theorem foldl_replaceAll_eq_normalizeBreaks {tags : List (List Char)} (h : tags.Perm breakTags)
    (cs : List Char) :
    tags.foldl (fun cs tag => replaceAll tag ['\n'] cs) cs = normalizeBreaks cs := by
  have hreplaced := replaced_foldl (marked_breakTags.mono h.subset) cs
  exact replaced_breakTags_iff.mp (hreplaced.congr fun _ => h.mem_iff)

/-! ### Labels and ids -/

/-- No label holds a tag. -/
theorem unbroken_label (closing cs : List Char) : Unbroken (label closing cs).1 := by
  rcases hquoted : quoted? (skipGap cs) with _ | ⟨text, rest⟩
  · rw [label_of_quoted?_eq_none hquoted]
    exact unbroken_normalizeBreaks _
  · rw [label_of_quoted? hquoted]
    exact unbroken_normalizeBreaks _

/-- There is no line break in a text without an angle bracket. -/
theorem unbroken_of_not_mem {cs : List Char} (h : '<' ∉ cs) : Unbroken cs := by
  intro tag htag hpart
  obtain ⟨tail, rfl, -⟩ := marked_breakTags.exists_tail htag
  exact h (hpart.subset List.mem_cons_self)

theorem not_mem_idTail (cs : List Char) : '<' ∉ (idTail cs).1 := by
  induction cs with
  | nil => exact List.not_mem_nil
  | cons c cs ih =>
      unfold idTail
      split
      · rename_i hc
        rw [List.mem_cons, not_or]
        refine ⟨?_, ih⟩
        rintro rfl
        cases hc
      · exact List.not_mem_nil

theorem unbroken_id? {cs id rest : List Char} (h : id? cs = some (id, rest)) : Unbroken id := by
  cases cs with
  | nil => cases h
  | cons c cs =>
      rw [id?] at h
      split at h
      · rename_i hc
        cases h
        apply unbroken_of_not_mem
        rw [List.mem_cons, not_or]
        exact ⟨(ne_of_isIdChar hc rfl).symm, not_mem_idTail cs⟩
      · cases h

/-! ### References -/

/-- There is no line break tag in what a reference says of its node. -/
structure Reference.Clean (r : Reference) : Prop where
  id : Unbroken r.id.toList
  label : ∀ d ∈ r.definition, Unbroken d.label.toList

/-- No brackets hold a tag once they are read. -/
theorem unbroken_definition? {cs rest : List Char} {d : Definition}
    (h : definition? cs = some (d, rest)) : Unbroken d.label.toList := by
  rw [definition?_eq] at h
  obtain ⟨⟨b, inside⟩, -, heq⟩ := Option.map_eq_some_iff.mp h
  cases heq
  rw [String.toList_ofList]
  exact unbroken_label b.closing inside

theorem clean_reference? {cs rest : List Char} {r : Reference}
    (h : reference? cs = some (r, rest)) : r.Clean := by
  simp only [reference?, Option.bind_eq_bind, Option.bind_eq_some_iff, Prod.exists] at h
  obtain ⟨id, behind, hid, h⟩ := h
  have hunbroken : Unbroken (String.ofList id).toList := by
    rw [String.toList_ofList]
    exact unbroken_id? hid
  split at h
  · rename_i d _ hd
    cases h
    refine ⟨hunbroken, fun d' hd' => ?_⟩
    cases hd'
    exact unbroken_definition? hd
  · cases h
    exact ⟨hunbroken, fun d hd => by cases hd⟩

theorem HopsTo.clean {cs rest : List Char} {hops : List Hop} (h : HopsTo cs hops rest) :
    ∀ p ∈ hops, p.target.Clean := by
  induction h with
  | here => exact List.forall_mem_nil _
  | hop hp _ ih =>
      obtain ⟨_, -, htarget⟩ := hop?_eq_some_iff.mp hp
      exact List.forall_mem_cons.mpr ⟨clean_reference? htarget, ih⟩

/-- No statement holds a tag. -/
theorem Statement.clean {line : List Char} {st : Statement} (h : Statement.ofLine? line = some st) :
    ∀ r ∈ st.references, r.Clean := by
  cases st with
  | path first hops =>
      obtain ⟨left, ⟨rest, hfirst, hhops⟩, -⟩ := path?_eq_some_iff.mp (path?_of_ofLine? h)
      exact List.forall_mem_cons.mpr ⟨clean_reference? hfirst, List.forall_mem_map.mpr hhops.clean⟩
  | _ => exact List.forall_mem_nil _

theorem clean_of_mem_statements {body : List Char} {r : Reference}
    (h : r ∈ (statements body).flatMap Statement.references) : r.Clean := by
  obtain ⟨st, hst, hr⟩ := List.mem_flatMap.mp h
  obtain ⟨line, -, hline⟩ := List.mem_filterMap.mp hst
  exact Statement.clean hline r hr

/-! ### Nodes -/

/-- The last definition is one of those given. -/
theorem mem_of_lastDefinition? {rs : List Reference} {id : String} {d : Definition}
    (h : lastDefinition? rs id = some d) : ∃ r ∈ rs, d ∈ r.definition := by
  obtain ⟨r, hr, hd⟩ := List.mem_filterMap.mp (List.mem_of_getLast? h)
  exact ⟨r, (List.mem_filter.mp hr).1, hd⟩

/-- The label of a node is one that a reference gives it, or its id. -/
theorem unbroken_settled {rs : List Reference} (h : ∀ r ∈ rs, r.Clean) {id : String}
    (hid : id ∈ rs.map (·.id)) : Unbroken (settled rs id).label.toList := by
  rw [label_settled]
  cases hlast : lastDefinition? rs id with
  | none =>
      obtain ⟨r, hr, rfl⟩ := List.mem_map.mp hid
      exact (h r hr).id
  | some d =>
      obtain ⟨r, hr, hd⟩ := mem_of_lastDefinition? hlast
      exact (h r hr).label d hd

end Whiteboard.Flowchart

namespace Whiteboard.Document

open Text Flowchart

/-- No label of a flowchart holds a tag, ids that stand for labels among them. -/
theorem unbroken_of_mem_nodes {text : String} {d : Diagram} (h : parse text = .ok d)
    (hd : d.dialect = .flowchart) {n : Node} (hn : n ∈ d.nodes) : Unbroken n.label.toList := by
  obtain ⟨dialect, rfl⟩ := parse_eq_ok h
  obtain rfl : dialect = .flowchart := (dialect_read ..).symm.trans hd
  change n ∈ ((Chart.ofStatements (statements _)).toDiagram _ text).nodes at hn
  rw [Chart.nodes_toDiagram] at hn
  obtain ⟨id, hid, rfl⟩ := List.mem_map.mp hn
  rw [List.mem_eraseDups, ← Chart.map_id_references] at hid
  exact unbroken_settled (fun r hr => clean_of_mem_statements hr) hid

/-- Normalizing leaves no line break tag in a text: each of them, found from left to right, becomes
one line feed. To do it again changes nothing, and the spellings may be taken in any order. So there
is no line break tag in a label between brackets, nor in the label of any node of a flowchart. -/
theorem breaks_normalized :
    (∀ cs : List Char,
      Unbroken (normalizeBreaks cs) ∧
      (∀ out, Replaced breakTags ['\n'] cs out ↔ out = normalizeBreaks cs) ∧
      normalizeBreaks (normalizeBreaks cs) = normalizeBreaks cs ∧
      ∀ tags : List (List Char), tags.Perm breakTags →
        tags.foldl (fun cs tag => replaceAll tag ['\n'] cs) cs = normalizeBreaks cs) ∧
    (∀ closing cs, Unbroken (label closing cs).1) ∧
    ∀ text d, parse text = .ok d → d.dialect = .flowchart →
      ∀ n ∈ d.nodes, Unbroken n.label.toList := by
  refine ⟨fun cs => ⟨unbroken_normalizeBreaks cs, fun out => replaced_breakTags_iff, ?_, ?_⟩,
    unbroken_label, fun text d h hd n hn => unbroken_of_mem_nodes h hd hn⟩
  · exact normalizeBreaks_eq_self (unbroken_normalizeBreaks cs)
  · exact fun tags htags => foldl_replaceAll_eq_normalizeBreaks htags cs

/-- A flowchart whose labels hold line breaks of all spellings, one of them inside another. -/
def leaflet : String :=
  "graph TD\nFront[one<br>two<b<br/>r>] --> Back(\"a<br />b\")\nBack --> Front"

def leafletDiagram : Diagram where
  dialect := .flowchart
  nodes :=
    [{ id := "Front", label := "one\ntwo<b\nr>" },
      { id := "Back", label := "a\nb", shape := .stadium }]
  edges :=
    [("Front", "Back"), ("Back", "Front")].map fun (source, target) =>
      { source, target, stroke := some .solid }
  text := leaflet

/-- The labels of `leaflet`. -/
theorem leaflet_normalized :
    let nested := "<b<br/>r><br <br />>".toList
    let tags := ["<br />".toList, "<br>".toList, "<br/>".toList]
    tags.Perm breakTags ∧ parse leaflet = .ok leafletDiagram ∧
      Replaced breakTags ['\n'] nested "<b\nr><br \n>".toList ∧
      tags.foldl (fun cs tag => replaceAll tag ['\n'] cs) nested = "<b\nr><br \n>".toList ∧
      ∀ n ∈ leafletDiagram.nodes, Unbroken n.label.toList := by
  intro nested tags
  have htags : tags.Perm breakTags := by decide
  have hparse : parse leaflet = .ok leafletDiagram := by decide +kernel
  have hnested : "<b\nr><br \n>".toList = normalizeBreaks nested := by decide
  obtain ⟨hbreaks, -, hnodes⟩ := breaks_normalized
  obtain ⟨-, hreplaced, -, horder⟩ := hbreaks nested
  exact ⟨htags, hparse, (hreplaced _).mpr hnested, (horder tags htags).trans hnested.symm,
    hnodes leaflet leafletDiagram hparse rfl⟩

end Whiteboard.Document
