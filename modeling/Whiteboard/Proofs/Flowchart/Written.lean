import Whiteboard.Flowchart.Scan
import Whiteboard.Proofs.Text.Line

/-!
The pieces of a path as they are written.

An id is words of id characters with single hyphens between them. A label stands in double quotes
between the brackets of its shape, or without quotes between bars behind a connector; the pieces of
a path stand apart by single spaces. Each reader takes back exactly the piece that was written and
stops in front of the next one (`reference?_write`, `hop?_write`), so that a chain of hops is read
back hop by hop (`chain_write`).
-/

namespace Whiteboard.Flowchart

open Text

/-- Nothing follows a piece, or a space stands in front of what does. -/
def Apart (rest : List Char) : Prop :=
  ∀ c ∈ rest.head?, c = ' '

/-- A text can stand in a label as it is: no part of it would be read as a line break. -/
def Unbroken (text : List Char) : Prop :=
  ∀ tag ∈ breakTags, ¬ tag <:+: text

instance (text : List Char) : Decidable (Unbroken text) :=
  inferInstanceAs (Decidable (∀ tag ∈ breakTags, ¬ tag <:+: text))

/-! ### Ids -/

theorem isBlank_of_isIdChar {c : Char} (h : isIdChar c) : isBlank c = false := by
  rw [isIdChar, Bool.or_eq_true, beq_iff_eq] at h
  rcases h with h | rfl
  · exact isBlank_of_isAlphanum h
  · rfl

theorem ne_of_isIdChar {c d : Char} (h : isIdChar c) (hd : isIdChar d = false) : c ≠ d := by
  rintro rfl
  rw [h] at hd
  cases hd

theorem skipGap_skipGap (cs : List Char) : skipGap (skipGap cs) = skipGap cs :=
  List.dropWhile_idempotent isGap cs

theorem skipGap_cons_of_isIdChar {c : Char} (h : isIdChar c) (cs : List Char) :
    skipGap (c :: cs) = c :: cs := by
  have hgap : ¬ isGap c := by
    simp only [isGap, Bool.or_eq_true, beq_iff_eq, not_or]
    exact ⟨⟨ne_of_isIdChar h rfl, ne_of_isIdChar h rfl⟩, ne_of_isIdChar h rfl⟩
  rw [skipGap, List.dropWhile_cons_of_neg hgap]

/-- Words of id characters with single hyphens between them. -/
inductive IsId : List Char → Prop
  | single {c : Char} (hc : isIdChar c) : IsId [c]
  | char {c : Char} {cs : List Char} (hc : isIdChar c) (hcs : IsId cs) : IsId (c :: cs)
  | hyphen {c : Char} {cs : List Char} (hc : isIdChar c) (hcs : IsId cs) : IsId (c :: '-' :: cs)

/-- An id begins with an id character, never with a hyphen. -/
theorem IsId.head {cs : List Char} (h : IsId cs) : ∃ c tail, cs = c :: tail ∧ isIdChar c := by
  cases h with
  | single hc => exact ⟨_, _, rfl, hc⟩
  | char hc _ => exact ⟨_, _, rfl, hc⟩
  | hyphen hc _ => exact ⟨_, _, rfl, hc⟩

theorem IsId.mem {cs : List Char} (h : IsId cs) {c : Char} (hc : c ∈ cs) :
    isIdChar c ∨ c = '-' := by
  induction h with
  | single h => exact .inl (List.mem_singleton.mp hc ▸ h)
  | char h _ ih =>
      rcases List.mem_cons.mp hc with rfl | hc
      · exact .inl h
      · exact ih hc
  | hyphen h _ ih =>
      rcases List.mem_cons.mp hc with rfl | hc
      · exact .inl h
      · rcases List.mem_cons.mp hc with rfl | hc
        · exact .inr rfl
        · exact ih hc

theorem idTail_append_of_isId {id rest : List Char} (h : IsId id)
    (hrest : ∀ c ∈ rest.head?, isIdChar c = false ∧ c ≠ '-') :
    idTail (id ++ rest) = (id, rest) := by
  have hstop : idTail rest = ([], rest) := by
    cases rest with
    | nil => rfl
    | cons c rest =>
        obtain ⟨hc, hyphen⟩ := hrest c rfl
        rw [idTail, if_neg (by simp [hc, hyphen])]
  induction h with
  | single hc => rw [List.singleton_append, idTail, if_pos (by simp [hc]), hstop]
  | char hc _ ih => rw [List.cons_append, idTail, if_pos (by simp [hc]), ih]
  | hyphen hc h ih =>
      obtain ⟨d, tail, rfl, hd⟩ := h.head
      rw [List.cons_append, List.cons_append, idTail, if_pos (by simp [hc]), idTail,
        if_pos (by simp [hd]), ih]

/-- An id is read as it is written, up to what may stand behind one. -/
theorem id?_append_of_isId {id rest : List Char} (h : IsId id)
    (hrest : ∀ c ∈ rest.head?, isIdChar c = false ∧ c ≠ '-') :
    id? (id ++ rest) = some (id, rest) := by
  have htail := idTail_append_of_isId h hrest
  obtain ⟨c, tail, rfl, hc⟩ := h.head
  rw [List.cons_append, idTail, if_pos (by simp [hc])] at htail
  rw [List.cons_append, id?, if_pos hc, ← htail]

/-! ### Labels and brackets -/

def escaped (c : Char) : List Char :=
  if c = '\\' then ['\\', '\\']
  else if c = '"' then ['\\', '"']
  else if c = '\n' then ['\\', 'n']
  else [c]

def quoted (text : List Char) : List Char :=
  '"' :: text.flatMap escaped ++ ['"']

theorem quoted?_of_ne {cs : List Char} (hquote : cs.head? ≠ some '"') : quoted? cs = none := by
  unfold quoted?
  split
  · exact absurd rfl hquote
  · rfl

theorem quotedTail_escaped (text rest : List Char) :
    quotedTail (text.flatMap escaped ++ '"' :: rest) = (text, rest) := by
  induction text with
  | nil => rfl
  | cons c text ih =>
      rw [List.flatMap_cons, List.append_assoc]
      by_cases hbackslash : c = '\\'
      · subst hbackslash
        simp [escaped, quotedTail, ih]
      by_cases hquote : c = '"'
      · subst hquote
        simp [escaped, quotedTail, ih]
      by_cases hbreak : c = '\n'
      · subst hbreak
        simp [escaped, quotedTail, ih]
      simp [escaped, quotedTail, hbackslash, hquote, hbreak, ih]

/-- A quoted label is read as it is written. -/
theorem label_quoted {text : List Char} (h : Unbroken text) (closing rest : List Char) :
    label closing (quoted text ++ rest) = (text, skipGap rest) := by
  have hquoted : quoted? (quoted text ++ rest) = some (text, rest) := by
    have htail := quotedTail_escaped text rest
    simp [quoted, quoted?, htail]
  have hgap : skipGap (quoted text ++ rest) = quoted text ++ rest := rfl
  simp only [label, hgap, hquoted, normalizeBreaks_eq_self h]

def bracket : Shape → Bracket
  | .ellipse => ⟨['(', '('], [')', ')'], .ellipse⟩
  | .stadium => ⟨['(', '['], [']', ')'], .stadium⟩
  | .cylinder => ⟨['[', '('], [')', ']'], .cylinder⟩
  | .hexagon => ⟨['{', '{'], ['}', '}'], .hexagon⟩
  | .diamond => ⟨['{'], ['}'], .diamond⟩
  | .rectangle => ⟨['['], [']'], .rectangle⟩

def Definition.write (d : Definition) : List Char :=
  (bracket d.shape).opening ++ quoted d.label.toList ++ (bracket d.shape).closing

/-- The quote behind an opening bracket tells a single bracket from a doubled one. -/
theorem definition?_opening {s : Shape} {cs text rest : List Char}
    (h : label (bracket s).closing ('"' :: cs) = (text, rest)) :
    definition? ((bracket s).opening ++ '"' :: cs) =
      some (⟨s, String.ofList text⟩, (strip? (bracket s).closing rest).getD rest) := by
  cases s <;> simp only [bracket] at h <;> simp [bracket, definition?, brackets, strip?, h]

/-- A label is read in the brackets of its shape as it is written. -/
theorem definition?_write {d : Definition} (h : Unbroken d.label.toList) (rest : List Char) :
    definition? (d.write ++ rest) = some (d, rest) := by
  have hlabel : label (bracket d.shape).closing
      (quoted d.label.toList ++ ((bracket d.shape).closing ++ rest)) =
        (d.label.toList, (bracket d.shape).closing ++ rest) := by
    rw [label_quoted h]
    cases d.shape <;> rfl
  rw [Definition.write, List.append_assoc, List.append_assoc]
  rw [quoted, List.cons_append, List.cons_append] at hlabel ⊢
  rw [definition?_opening hlabel, strip?_append, Option.getD_some, String.ofList_toList]

/-- Where no bracket opens there is no definition. -/
theorem definition?_of_apart {rest : List Char} (h : Apart rest) : definition? rest = none := by
  cases rest with
  | nil => rfl
  | cons c rest =>
      obtain rfl : c = ' ' := h c rfl
      rfl

/-! ### References -/

/-- What is written behind the id of a node: its brackets, if it has any. -/
def Reference.behind (r : Reference) : List Char :=
  r.definition.elim [] Definition.write

def Reference.write (r : Reference) : List Char :=
  r.id.toList ++ r.behind

/-- What a reference needs to be written: a proper id and a label that can stand as it is. -/
structure Reference.Writable (r : Reference) : Prop where
  isId : IsId r.id.toList
  unbroken : ∀ d ∈ r.definition, Unbroken d.label.toList

/-- A reference begins with an id character, which separates it from a gap and a bar. -/
theorem Reference.Writable.head {r : Reference} (h : r.Writable) :
    ∃ c tail, r.write = c :: tail ∧ isIdChar c := by
  obtain ⟨c, tail, hid, hc⟩ := h.isId.head
  refine ⟨c, tail ++ r.behind, ?_, hc⟩
  rw [Reference.write, hid, List.cons_append]

/-- What may stand behind an id: the space in front of the next piece, or an opening bracket. -/
def borders : List Char :=
  [' ', '(', '[', '{']

theorem mem_borders {c : Char} : c ∈ borders ↔ c = ' ' ∨ c = '(' ∨ c = '[' ∨ c = '{' := by
  simp only [borders, List.mem_cons, List.not_mem_nil, or_false]

theorem isIdChar_of_mem_borders {c : Char} (h : c ∈ borders) : isIdChar c = false ∧ c ≠ '-' := by
  rcases mem_borders.mp h with rfl | rfl | rfl | rfl <;> decide

/-- What stands behind an id is one of the borders. -/
theorem Reference.head?_behind (r : Reference) {rest : List Char} (hrest : Apart rest) :
    ∀ c ∈ (r.behind ++ rest).head?, c ∈ borders := by
  intro c hc
  rw [Reference.behind] at hc
  cases hd : r.definition with
  | none =>
      rw [hd] at hc
      rw [hrest c hc]
      decide
  | some d =>
      rw [hd, Option.elim_some, Definition.write] at hc
      cases hs : d.shape <;>
      · rw [hs] at hc
        cases hc
        decide

/-- A reference is read as it is written. -/
theorem reference?_write {r : Reference} (h : r.Writable) {rest : List Char} (hrest : Apart rest) :
    reference? (r.write ++ rest) = some (r, rest) := by
  obtain ⟨c, tail, hwrite, hc⟩ := h.head
  have hgap : skipGap (r.write ++ rest) = r.write ++ rest := by
    rw [hwrite]
    exact skipGap_cons_of_isIdChar hc _
  have hid : id? (r.write ++ rest) = some (r.id.toList, r.behind ++ rest) := by
    rw [Reference.write, List.append_assoc]
    apply id?_append_of_isId h.isId
    intro c hc
    exact isIdChar_of_mem_borders (r.head?_behind hrest c hc)
  obtain ⟨id, definition⟩ := r
  rw [reference?, hgap, hid]
  cases definition with
  | none => simp [Reference.behind, definition?_of_apart hrest]
  | some d => simp [Reference.behind, definition?_write (h.unbroken d rfl) rest]

theorem reference?_space (cs : List Char) : reference? (' ' :: cs) = reference? cs :=
  rfl

/-! ### Connectors -/

def Connector.token (k : Connector) : List Char :=
  ((connectors.find? fun p => p.2 == k).map Prod.fst).getD []

/-- A connector has one token. -/
theorem token_of_mem : ∀ p ∈ connectors, p.2.token = p.1 := by
  decide

/-- A token is not taken for another one if a space or a bar stands behind it. -/
theorem connector?_token {k : Connector} (h : k ∈ connectors.map Prod.snd) {c : Char}
    (hc : c ∈ [' ', '|']) (rest : List Char) :
    connector? (' ' :: (k.token ++ c :: rest)) = some (k, c :: rest) := by
  obtain ⟨p, hp, rfl⟩ := List.mem_map.mp h
  -- no token that is tried earlier goes on with a space or a bar where this one ends
  have hall : ∀ p ∈ connectors, ∀ c ∈ [' ', '|'],
      connector? (' ' :: (p.1 ++ c :: rest)) = some (p.2, c :: rest) := by
    simp [connectors, connector?, token?, strip?, skipGap, isGap]
  rw [token_of_mem p hp, hall p hp c hc]

def barred (text : List Char) : List Char :=
  '|' :: text ++ ['|']

/-- What a label needs to stand between bars. -/
structure Barrable (text : List Char) : Prop where
  ne_nil : text ≠ []
  trimmed : trim text = text
  noBar : '|' ∉ text
  unbroken : Unbroken text
  unquoted : ∀ q ∈ ['"', '\''], ∀ inner, text ≠ q :: inner ++ [q]

/-- A label between bars ends at the next bar. -/
theorem barLabel?_append {cs text rest : List Char} (hbar : '|' ∉ text)
    (hcs : skipGap cs = '|' :: (text ++ '|' :: rest)) :
    barLabel? cs = some (normalizeBreaks (unquote text), rest) := by
  have hall : ∀ c ∈ text, (c != '|') = true := by
    intro c hc
    rw [bne_iff_ne]
    exact ne_of_mem_of_not_mem hc hbar
  have hhead : ∀ c ∈ ('|' :: rest).head?, (c != '|') = false := by
    rintro c ⟨⟩
    rfl
  simp only [barLabel?, hcs, takeWhile_run hall hhead, dropWhile_run hall hhead, List.drop_one,
    List.tail_cons]

/-- A label between bars is read as it is written. -/
theorem barLabel?_bar {text : List Char} (h : Barrable text) (rest : List Char) :
    barLabel? ('|' :: (text ++ '|' :: rest)) = some (text, rest) := by
  rw [barLabel?_append h.noBar rfl, unquote_eq_self h.trimmed h.unquoted,
    normalizeBreaks_eq_self h.unbroken]

/-! ### Hops -/

/-- A connector with its label, if it has one, and the node it leads to, both behind a space. -/
def Hop.write (p : Hop) : List Char :=
  ' ' :: p.connector.token ++ p.label.elim [] (barred ·.toList) ++ ' ' :: p.target.write

/-- What a hop needs to be written. -/
structure Hop.Writable (p : Hop) : Prop where
  connector : p.connector ∈ connectors.map Prod.snd
  label : ∀ text ∈ p.label, Barrable text.toList
  target : p.target.Writable

theorem barLabel?_target {r : Reference} (h : r.Writable) (rest : List Char) :
    barLabel? (' ' :: (r.write ++ rest)) = none := by
  obtain ⟨c, tail, hwrite, hc⟩ := h.head
  have hgap : skipGap (' ' :: (r.write ++ rest)) = c :: (tail ++ rest) := by
    rw [hwrite]
    exact skipGap_cons_of_isIdChar hc _
  have hbar : c ≠ '|' := ne_of_isIdChar hc rfl
  simp [barLabel?, hgap, hbar]

theorem link?_write {p : Hop} (h : p.Writable) (rest : List Char) :
    link? (p.write ++ rest) = some ((p.connector, p.label), ' ' :: (p.target.write ++ rest)) := by
  obtain ⟨connector, label, target⟩ := p
  cases label with
  | none =>
      have hline : Hop.write ⟨connector, none, target⟩ ++ rest =
          ' ' :: (connector.token ++ ' ' :: (target.write ++ rest)) := by
        simp [Hop.write]
      rw [hline, link?, connector?_token h.connector (by simp)]
      simp only [barLabel?_target h.target]
  | some text =>
      have hlabel := h.label text rfl
      have hline : Hop.write ⟨connector, some text, target⟩ ++ rest =
          ' ' :: (connector.token ++
            '|' :: (text.toList ++ '|' :: ' ' :: (target.write ++ rest))) := by
        simp [Hop.write, barred]
      rw [hline, link?, connector?_token h.connector (by simp)]
      simp only [barLabel?_bar hlabel, link?.labelOf]
      rw [if_neg (by simpa using hlabel.ne_nil), String.ofList_toList]

/-- A hop is read as it is written. -/
theorem hop?_write {p : Hop} (h : p.Writable) {rest : List Char} (hrest : Apart rest) :
    hop? (p.write ++ rest) = some (p, rest) := by
  have htarget := reference?_write h.target hrest
  rw [← reference?_space] at htarget
  simp only [hop?, link?_write h, htarget, Option.bind_eq_bind, Option.bind_some]

theorem apart_flatMap_write (hops : List Hop) : Apart (hops.flatMap Hop.write) := by
  cases hops with
  | nil => exact fun c hc => absurd hc (Option.not_mem_none c)
  | cons p hops =>
      intro c hc
      cases hc
      rfl

theorem chain_of_hop?_eq_none {cs : List Char} (h : hop? cs = none) : chain cs = ([], cs) := by
  rw [chain]
  split
  · rfl
  · rename_i hsome
    rw [h] at hsome
    cases hsome

theorem chain_of_hop? {cs rest : List Char} {p : Hop} (h : hop? cs = some (p, rest)) :
    chain cs = (p :: (chain rest).1, (chain rest).2) := by
  rw [chain]
  split
  · rename_i hnone
    rw [h] at hnone
    cases hnone
  · rename_i hsome
    rw [h] at hsome
    cases hsome
    rfl

/-- A chain is read back hop by hop. -/
theorem chain_write {hops : List Hop} (h : ∀ p ∈ hops, p.Writable) :
    chain (hops.flatMap Hop.write) = (hops, []) := by
  induction hops with
  | nil => exact chain_of_hop?_eq_none rfl
  | cons p hops ih =>
      rw [List.forall_mem_cons] at h
      have hhop := hop?_write h.1 (apart_flatMap_write hops)
      rw [List.flatMap_cons, chain_of_hop? hhop, ih h.2]

end Whiteboard.Flowchart
