import Whiteboard.Entity.Statement
import Whiteboard.Proofs.Text.Line
import Whiteboard.Proofs.Text.Search

/-!
Entity statements as they are written.

A relationship is written as two names with a line between them, single spaces around it and the
label behind a colon. As the space ends the first name, no shorter piece of it leads to another
reading: no symbol is made of characters of names alone (`strip?_symbol_name`). A symbol is read up
to its end as the ones it begins with are listed behind it (`pairwise_symbols`), and a bare line as
far as it goes (`findSome?_dashes`). Inside a block an attribute is written as it is displayed, and
its keys are read one by one (`keys_writeKeys`). Each is read back as what it was written for
(`ofLine?_written`).
-/

namespace Whiteboard.Entity

open Text

/-! ### Characters -/

theorem isBlank_of_isNameChar {c : Char} (h : isNameChar c = true) : isBlank c = false := by
  simp only [isNameChar, Bool.or_eq_true, beq_iff_eq] at h
  rcases h with (h | rfl) | rfl
  · exact isBlank_of_isAlphanum h
  all_goals rfl

theorem isBlank_of_isTypeChar {c : Char} (h : isTypeChar c = true) : isBlank c = false := by
  rw [isTypeChar, Bool.or_eq_true] at h
  rcases h with h | h
  · exact isBlank_of_isAlphanum h
  · have hmarks : IsRun (!isBlank ·) "_()[],.<>*-".toList := by decide
    simpa using hmarks.all c (List.contains_iff_mem.mp h)

theorem isBlank_of_isAttributeChar {c : Char} (h : isAttributeChar c = true) :
    isBlank c = false := by
  simp only [isAttributeChar, Bool.or_eq_true, beq_iff_eq] at h
  rcases h with ((h | rfl) | rfl) | rfl
  · exact isBlank_of_isAlphanum h
  all_goals rfl

theorem trimStart_space (cs : List Char) : trimStart (' ' :: cs) = trimStart cs :=
  rfl

/-! ### Pieces, the longest first -/

/-- The longest piece is tried first. -/
theorem cuts_cons {least most : Nat} (h : least ≤ most) (cs : List Char) :
    ∃ shorter, cuts least most cs = (cs.take most, cs.drop most) :: shorter := by
  obtain ⟨more, rfl⟩ := Nat.exists_eq_add_of_le h
  have hrange : least + more + 1 - least = more + 1 := by omega
  rw [cuts, hrange, List.range'_1_concat, List.reverse_append, List.reverse_singleton,
    List.singleton_append, List.map_cons]
  exact ⟨_, rfl⟩

/-- The pieces of a cut make up the text. -/
theorem append_of_mem_cuts {least most : Nat} {cs front back : List Char}
    (h : (front, back) ∈ cuts least most cs) : front ++ back = cs ∧ front.length ≤ most := by
  obtain ⟨n, hn, heq⟩ := List.mem_map.mp h
  cases heq
  rw [List.mem_reverse, List.mem_range'_1] at hn
  have hlength : (cs.take n).length ≤ n := List.length_take_le n cs
  exact ⟨List.take_append_drop n cs, by omega⟩

section Cuts

variable {β : Type} {read : List Char × List Char → Option β} {x : β} {least : Nat}
  {name rest : List Char}

/-- A piece that is read as a whole is the one that is taken. -/
theorem findSome?_cuts {front : List Char} (hle : least ≤ front.length)
    (hx : read (front, rest) = some x) :
    (cuts least front.length (front ++ rest)).findSome? read = some x := by
  obtain ⟨shorter, hcuts⟩ := cuts_cons hle (front ++ rest)
  rw [hcuts, List.take_left, List.drop_left, List.findSome?_cons, hx]

/-- Names are tried from the whole one down. -/
theorem names_eq (h : IsRun isNameChar name) (rest : List Char) :
    names (name ++ ' ' :: rest) = cuts 1 name.length (name ++ ' ' :: rest) := by
  rw [names, takeWhile_run h.all (by rintro c ⟨⟩; rfl)]

/-- The whole name in front of a space comes first. -/
theorem findSome?_names (h : IsRun isNameChar name) (hx : read (name, ' ' :: rest) = some x) :
    (names (name ++ ' ' :: rest)).findSome? read = some x := by
  rw [names_eq h]
  exact findSome?_cuts (List.length_pos_iff.mpr h.ne_nil) hx

/-- Every other piece leaves an end of the name in front of the space. -/
theorem exists_of_mem_names (h : IsRun isNameChar name) {front back : List Char}
    (hmem : (front, back) ∈ names (name ++ ' ' :: rest)) :
    ∃ tail, (∀ c ∈ tail, isNameChar c = true) ∧ back = tail ++ ' ' :: rest := by
  rw [names_eq h] at hmem
  obtain ⟨heq, hle⟩ := append_of_mem_cuts hmem
  have hprefix : front <+: name :=
    List.prefix_of_prefix_length_le ⟨back, heq⟩ (List.prefix_append name _) hle
  obtain ⟨tail, rfl⟩ := hprefix
  rw [List.append_assoc] at heq
  exact ⟨tail, fun c hc => h.all c (List.mem_append_right _ hc), List.append_cancel_left heq⟩

/-- A bare line in front of a space is read as far as it goes. -/
theorem findSome?_dashes {c : Char} (hc : c ≠ ' ') (n : Nat)
    (hx : read (List.replicate (n + 2) c, ' ' :: rest) = some x) :
    (dashes c (List.replicate (n + 2) c ++ ' ' :: rest)).findSome? read = some x := by
  have htake : (List.replicate (n + 2) c ++ ' ' :: rest).takeWhile (· == c) =
      List.replicate (n + 2) c := by
    apply takeWhile_run
    · intro d hd
      rw [List.eq_of_mem_replicate hd, beq_self_eq_true]
    · rintro d ⟨⟩
      rw [beq_eq_false_iff_ne]
      exact hc.symm
  rw [dashes, htake]
  exact findSome?_cuts (by simp) hx

end Cuts

theorem dashes_of_ne {c d : Char} (h : d ≠ c) (rest : List Char) : dashes c (d :: rest) = [] := by
  rw [dashes, List.takeWhile_cons_of_neg (by simpa using h)]
  rfl

/-! ### Symbols -/

/-- The character of which a line between two names is made. -/
def dash (identifying : Bool) : Char :=
  if identifying then '-' else '.'

/-- No symbol comes behind one it begins with. -/
theorem pairwise_symbols : symbols.Pairwise fun a b => ¬ a <+: b := by
  decide

/-- Symbols hold no blank, no dash and something that no name holds. -/
theorem symbol_spec : ∀ s ∈ symbols,
    IsRun (!isBlank ·) s ∧ s.all isNameChar = false ∧ ' ' ∉ s ∧ '-' ∉ s ∧ '.' ∉ s := by
  decide

theorem dash_not_mem {s : List Char} (hs : s ∈ symbols) (identifying : Bool) :
    dash identifying ∉ s := by
  obtain ⟨-, -, -, hhyphen, hdot⟩ := symbol_spec s hs
  cases identifying with
  | true => exact hhyphen
  | false => exact hdot

theorem space_not_mem {s : List Char} (hs : s ∈ symbols) : ' ' ∉ s :=
  (symbol_spec s hs).2.2.1

theorem trimStart_symbol {s : List Char} (hs : s ∈ symbols) (rest : List Char) :
    trimStart (s ++ rest) = s ++ rest :=
  (symbol_spec s hs).1.trimStart_append (by simp) rest

theorem trimStart_dash (identifying : Bool) (rest : List Char) :
    trimStart (dash identifying :: rest) = dash identifying :: rest := by
  cases identifying <;> rfl

/-- The line between two symbols is the one of its two characters. -/
theorem findSome?_lines {β : Type} (identifying : Bool) {rest : List Char}
    {read : List Char × Bool → List Char → Option β} {x : β}
    (hx : read ([dash identifying, dash identifying], identifying) rest = some x) :
    (lines.findSome? fun line =>
      (strip? line.1 (dash identifying :: dash identifying :: rest)).bind (read line)) =
        some x := by
  cases identifying with
  | true =>
      have hx : read (['-', '-'], true) rest = some x := hx
      simp [lines, strip?, dash, hx]
  | false =>
      have hx : read (['.', '.'], false) rest = some x := hx
      simp [lines, strip?, dash, hx]

/-- No symbol is read at an end of a name in front of a bare line. -/
theorem strip?_symbol_name {s : List Char} (hs : s ∈ symbols) {tail : List Char}
    (htail : ∀ c ∈ tail, isNameChar c = true) (identifying : Bool) (rest : List Char) :
    strip? s (trimStart (tail ++ ' ' :: dash identifying :: rest)) = none := by
  obtain ⟨hrun, hname, -⟩ := symbol_spec s hs
  rw [strip?_eq_none_iff]
  cases tail with
  | nil =>
      rw [List.nil_append, trimStart_space, trimStart_dash]
      exact not_isPrefix_cons hrun.ne_nil (dash_not_mem hs identifying) rest
  | cons c tail =>
      have hname' : IsRun isNameChar (c :: tail) := ⟨List.cons_ne_nil c tail, htail⟩
      rw [hname'.trimStart_append isBlank_of_isNameChar]
      intro hprefix
      rcases isPrefix_or_concat_isPrefix hprefix with h | h
      · rw [List.all_eq_true.mpr fun c hc => htail c (h.subset hc)] at hname
        cases hname
      · exact space_not_mem hs (h.subset (List.mem_append_right _ (List.mem_singleton_self ' ')))

/-! ### Names and labels behind a line -/

/-- A label that is read as it is written. -/
structure IsLabel (label : List Char) : Prop where
  ne_nil : label ≠ []
  trimmed : trim label = label
  oneLine : '\n' ∉ label
  unquoted : ∀ q ∈ ['"', '\''], ∀ inner, label ≠ q :: inner ++ [q]

def writeLabel : Option String → List Char
  | none => []
  | some label => ' ' :: ':' :: ' ' :: label.toList

theorem labelOf_label {label : String} (h : IsLabel label.toList) :
    labelOf label.toList = some label := by
  have hne : label.toList.isEmpty = false := by simpa using h.ne_nil
  simp only [labelOf, unquote_eq_self h.trimmed h.unquoted, h.trimmed, hne, String.ofList_toList]
  rfl

/-- A label is read as it was written. -/
theorem ending?_writeLabel {label : Option String} (h : ∀ text ∈ label, IsLabel text.toList) :
    ending? (writeLabel label) = some label := by
  cases label with
  | none => rfl
  | some text =>
      have hlabel := h text rfl
      have hstart : trimStart text.toList = text.toList :=
        trimStart_eq_self_iff.mpr (trim_eq_self_iff.mp hlabel.trimmed).1
      have hoption : labelOf text.toList = some text := labelOf_label hlabel
      have hbreak : text.toList.contains '\n' = false := by
        simpa using hlabel.oneLine
      have htrim : trimStart (writeLabel (some text)) = ':' :: ' ' :: text.toList := rfl
      rw [ending?, htrim]
      simp only [trimStart_space, hstart, hbreak, hoption]
      rfl

/-- The second name of a relationship and its label are read as they were written. -/
theorem secondName?_write {right : String} (hright : IsRun isNameChar right.toList)
    {label : Option String} (hlabel : ∀ text ∈ label, IsLabel text.toList) :
    secondName? (' ' :: (right.toList ++ writeLabel label)) = some (right, label) := by
  have hstart := hright.trimStart_append isBlank_of_isNameChar (writeLabel label)
  have hrun : run? isNameChar (right.toList ++ writeLabel label) =
      some (right.toList, writeLabel label) := by
    apply run?_append hright
    cases label with
    | none =>
        intro c hc
        cases hc
    | some text =>
        rintro c ⟨⟩
        rfl
  simp [secondName?, trimStart_space, hstart, hrun, ending?_writeLabel hlabel]

/-! ### Relationships -/

/-- The first choice at every turn is the one that was written: the whole name, each symbol, and
the line between them. -/
theorem relationship?_symbols {left a b rest : List Char} (hleft : IsRun isNameChar left)
    (ha : a ∈ symbols) (hb : b ∈ symbols) (identifying : Bool) {right : String}
    {label : Option String} (hrest : secondName? (' ' :: rest) = some (right, label)) :
    relationship?
        (left ++ ' ' :: (a ++ dash identifying :: dash identifying :: (b ++ ' ' :: rest))) =
      some
        { left := String.ofList left
          right
          ends := some (String.ofList a, String.ofList b)
          identifying
          label } := by
  apply findSome?_names hleft
  dsimp only
  rw [trimStart_space, trimStart_symbol ha]
  apply findSome?_strip? pairwise_symbols ha (fun s hs => dash_not_mem hs identifying)
  apply findSome?_lines identifying
  apply findSome?_strip? pairwise_symbols hb (fun s hs => space_not_mem hs)
  rw [hrest]
  rfl

/-- A bare line is no line with symbols, however much of the name in front of it is taken. -/
theorem relationship?_bare {left : List Char} (hleft : IsRun isNameChar left) (identifying : Bool)
    (n : Nat) (rest : List Char) :
    relationship? (left ++ ' ' :: (List.replicate (n + 2) (dash identifying) ++ rest)) = none := by
  rw [List.replicate_succ, List.cons_append, relationship?, List.findSome?_eq_none_iff]
  rintro ⟨front, back⟩ hmem
  obtain ⟨tail, htail, rfl⟩ := exists_of_mem_names hleft hmem
  rw [List.findSome?_eq_none_iff]
  intro s hs
  simp [strip?_symbol_name hs htail identifying]

/-- A bare line is the one of its character. -/
theorem findSome?_bare {β : Type} (identifying : Bool) (n : Nat) {rest : List Char}
    {read : Char → List Char × List Char → Option β} {x : β}
    (hx : read (dash identifying) (List.replicate (n + 2) (dash identifying), ' ' :: rest) =
      some x) :
    (['-', '.'].findSome? fun c =>
      (dashes c (List.replicate (n + 2) (dash identifying) ++ ' ' :: rest)).findSome? (read c)) =
        some x := by
  have hfound := findSome?_dashes (by cases identifying <;> simp [dash]) n hx
  cases identifying with
  | true => rw [List.findSome?_cons, show '-' = dash true from rfl, hfound]
  | false =>
      have hother : dashes '-' (List.replicate (n + 2) (dash false) ++ ' ' :: rest) = [] :=
        dashes_of_ne (by decide) _
      rw [List.findSome?_cons, hother, List.findSome?_nil, List.findSome?_cons,
        show '.' = dash false from rfl, hfound]

/-- A bare relationship is read with all its dashes. -/
theorem plainRelationship?_bare {left rest : List Char} (hleft : IsRun isNameChar left)
    (identifying : Bool) (n : Nat) {right : String} {label : Option String}
    (hrest : secondName? (' ' :: rest) = some (right, label)) :
    plainRelationship? (left ++ ' ' :: (List.replicate (n + 2) (dash identifying) ++ ' ' :: rest)) =
      some { left := String.ofList left, right, identifying, label } := by
  have hstart : trimStart (List.replicate (n + 2) (dash identifying) ++ ' ' :: rest) =
      List.replicate (n + 2) (dash identifying) ++ ' ' :: rest :=
    trimStart_dash identifying _
  apply findSome?_names hleft
  dsimp only
  rw [trimStart_space, hstart]
  apply findSome?_bare identifying n
  rw [hrest]
  cases identifying <;> rfl

/-- The line of a relationship, a bare one by `n` characters longer than the shortest. -/
def Relationship.line (r : Relationship) (n : Nat) : List Char :=
  match r.ends with
  | some (a, b) => a.toList ++ dash r.identifying :: dash r.identifying :: b.toList
  | none => List.replicate (n + 2) (dash r.identifying)

def Relationship.write (r : Relationship) (n : Nat) : List Char :=
  r.left.toList ++ ' ' :: r.line n ++ ' ' :: (r.right.toList ++ writeLabel r.label)

/-- What a relationship needs to be written. -/
structure Relationship.Writable (r : Relationship) : Prop where
  left : IsRun isNameChar r.left.toList
  right : IsRun isNameChar r.right.toList
  ends : ∀ p ∈ r.ends, p.1.toList ∈ symbols ∧ p.2.toList ∈ symbols
  label : ∀ text ∈ r.label, IsLabel text.toList

theorem Relationship.Writable.trim_write {r : Relationship} (h : r.Writable) (n : Nat) :
    trim (r.write n) = r.write n := by
  have hleft : trim r.left.toList = r.left.toList := h.left.trim_eq_self isBlank_of_isNameChar
  have hright : trim r.right.toList = r.right.toList := h.right.trim_eq_self isBlank_of_isNameChar
  obtain ⟨left, right, ends, identifying, label⟩ := r
  cases label with
  | none =>
      have htrim := trim_append hleft h.left.ne_nil hright h.right.ne_nil
      simpa [write, writeLabel] using
        htrim (' ' :: line ⟨left, right, ends, identifying, none⟩ n ++ [' '])
  | some label =>
      have hlabel := h.label label rfl
      have htrim := trim_append hleft h.left.ne_nil hlabel.trimmed hlabel.ne_nil
      simpa [write, writeLabel] using
        htrim (' ' :: line ⟨left, right, ends, identifying, some label⟩ n ++
          ' ' :: (right.toList ++ [' ', ':', ' ']))

/-- A relationship is read as it was written. -/
theorem ofLine?_write {r : Relationship} (h : r.Writable) (n : Nat) :
    Statement.ofLine? (r.write n) = some (.relationship r) := by
  have hrest := secondName?_write h.right h.label
  rw [Statement.ofLine?, h.trim_write, Relationship.write, List.append_assoc, List.cons_append]
  obtain ⟨left, right, ends, identifying, label⟩ := r
  cases ends with
  | some p =>
      obtain ⟨a, b⟩ := p
      obtain ⟨ha, hb⟩ := h.ends (a, b) rfl
      have hread := relationship?_symbols h.left ha hb identifying hrest
      simp only [String.ofList_toList] at hread
      simp [Relationship.line, hread]
  | none =>
      have hnone := relationship?_bare h.left identifying n
        (' ' :: (right.toList ++ writeLabel label))
      have hread := plainRelationship?_bare h.left identifying n hrest
      rw [String.ofList_toList] at hread
      simp only [Relationship.line, hnone, hread]
      rfl

/-! ### Attributes -/

def writeKeys : List Key → List Char
  | [] => []
  | k :: ks => ' ' :: (k.text.toList ++ ks.flatMap fun k => ',' :: ' ' :: k.text.toList)

/-- A comment in double quotes behind a space, if there is one. -/
def writeComment : Option (List Char) → List Char
  | none => []
  | some text => ' ' :: '"' :: (text ++ ['"'])

/-- What an attribute needs to be written. -/
structure Attribute.Writable (a : Attribute) : Prop where
  typeName : IsRun isTypeChar a.typeName.toList
  name : IsRun isAttributeChar a.name.toList

theorem toList_intercalate_keys (k : Key) (ks : List Key) :
    (", ".intercalate ((k :: ks).map Key.text)).toList =
      k.text.toList ++ ks.flatMap fun k => ',' :: ' ' :: k.text.toList := by
  induction ks generalizing k with
  | nil => simp
  | cons next ks ih =>
      have hnext := ih next
      simp only [String.toList_intercalate, List.map_cons] at hnext ⊢
      rw [List.intercalate_cons_cons, hnext]
      simp

theorem toList_display (a : Attribute) :
    a.display.toList = a.typeName.toList ++ ' ' :: (a.name.toList ++ writeKeys a.keys) := by
  obtain ⟨typeName, name, ks⟩ := a
  cases ks with
  | nil => simp [Attribute.display, writeKeys]
  | cons k ks =>
      have hkeys := toList_intercalate_keys k ks
      simpa [Attribute.display, writeKeys] using hkeys

theorem keys_of_key?_eq_none {cs : List Char} (h : key? cs = none) : keys cs = ([], cs) := by
  rw [keys]
  split
  · rfl
  · rename_i hsome
    rw [h] at hsome
    cases hsome

theorem keys_of_key?_eq_some {cs rest : List Char} {k : Key} (h : key? cs = some (k, rest)) :
    keys cs = (k :: (keys rest).1, (keys rest).2) := by
  rw [keys]
  split
  · rename_i hnone
    rw [h] at hnone
    cases hnone
  · rename_i hsome
    rw [h] at hsome
    cases hsome
    rfl

/-- Keys are read one after the other. -/
theorem keys_flatMap (ks : List Key) {rest : List Char} (hrest : key? rest = none) :
    keys ((ks.flatMap fun k => ',' :: ' ' :: k.text.toList) ++ rest) = (ks, rest) := by
  induction ks with
  | nil => exact keys_of_key?_eq_none hrest
  | cons k ks ih =>
      have hkey : ∀ rest, key? (',' :: ' ' :: (k.text.toList ++ rest)) = some (k, rest) := by
        intro rest
        cases k <;> rfl
      rw [List.flatMap_cons, List.append_assoc, List.cons_append, List.cons_append,
        keys_of_key?_eq_some (hkey _), ih]

/-- Keys are read as they were written. -/
theorem keys_writeKeys (ks : List Key) {rest : List Char} (hrest : key? rest = none) :
    keys (writeKeys ks ++ rest) = (ks, rest) := by
  cases ks with
  | nil => exact keys_of_key?_eq_none hrest
  | cons k ks =>
      have hkey : ∀ rest, key? (' ' :: (k.text.toList ++ rest)) = some (k, rest) := by
        intro rest
        cases k <;> rfl
      rw [writeKeys, List.cons_append, List.append_assoc, keys_of_key?_eq_some (hkey _),
        keys_flatMap ks hrest]

theorem endsInComment_writeComment {comment : Option (List Char)}
    (h : ∀ text ∈ comment, '"' ∉ text) :
    endsInComment (trimStart (writeComment comment)) = true := by
  cases comment with
  | none => rfl
  | some text =>
      have hdrop : (text ++ ['"']).dropWhile (· != '"') = ['"'] := by
        apply dropWhile_run
        · intro c hc
          rw [bne_iff_ne]
          exact ne_of_mem_of_not_mem hc (h text rfl)
        · rintro c ⟨⟩
          rfl
      have hstart : trimStart (writeComment (some text)) = '"' :: (text ++ ['"']) := rfl
      rw [hstart, endsInComment, hdrop, beq_self_eq_true]

theorem head?_writeKeys (ks : List Key) (comment : Option (List Char)) :
    ∀ c ∈ (writeKeys ks ++ writeComment comment).head?, isAttributeChar c = false := by
  cases ks with
  | nil =>
      cases comment with
      | none =>
          intro c hc
          cases hc
      | some text =>
          rintro c ⟨⟩
          rfl
  | cons k ks =>
      rintro c ⟨⟩
      rfl

theorem key?_writeComment (comment : Option (List Char)) : key? (writeComment comment) = none := by
  cases comment with
  | none => rfl
  | some text => rfl

/-- An attribute is read as it was written, without its comment. -/
theorem attribute?_write {a : Attribute} (h : a.Writable) {comment : Option (List Char)}
    (hcomment : ∀ text ∈ comment, '"' ∉ text) :
    attribute? (a.display.toList ++ writeComment comment) = some a := by
  have hline : a.display.toList ++ writeComment comment = a.typeName.toList ++
      ' ' :: (a.name.toList ++ (writeKeys a.keys ++ writeComment comment)) := by
    rw [toList_display, List.append_assoc, List.cons_append, List.append_assoc]
  have htype : run? isTypeChar (a.typeName.toList ++
        ' ' :: (a.name.toList ++ (writeKeys a.keys ++ writeComment comment))) =
      some (a.typeName.toList,
        ' ' :: (a.name.toList ++ (writeKeys a.keys ++ writeComment comment))) :=
    run?_append h.typeName (by rintro c ⟨⟩; rfl)
  have hgap : run? isBlank (' ' :: (a.name.toList ++ (writeKeys a.keys ++ writeComment comment))) =
      some ([' '], a.name.toList ++ (writeKeys a.keys ++ writeComment comment)) := by
    have hspace : IsRun isBlank [' '] := by decide
    exact run?_append hspace fun c hc => isBlank_of_isAttributeChar (h.name.of_mem_head? hc)
  have hname : run? isAttributeChar (a.name.toList ++ (writeKeys a.keys ++ writeComment comment)) =
      some (a.name.toList, writeKeys a.keys ++ writeComment comment) :=
    run?_append h.name (head?_writeKeys a.keys comment)
  have hkeys := keys_writeKeys a.keys (key?_writeComment comment)
  have hend := endsInComment_writeComment hcomment
  simp [attribute?, hline, htype, hgap, hname, hkeys, hend]

theorem getLast?_writeKeys (ks : List Key) : ∀ c ∈ (writeKeys ks).getLast?, isBlank c = false := by
  have hkey : ∀ (front : List Char) (k : Key), ∀ c ∈ (front ++ k.text.toList).getLast?,
      isBlank c = false := by
    intro front k c hc
    have hlast : k.text.toList.getLast? = some 'K' := by cases k <;> rfl
    rw [List.getLast?_append, hlast] at hc
    cases hc
    rfl
  cases ks with
  | nil =>
      intro c hc
      cases hc
  | cons k ks =>
      rw [writeKeys, ← List.cons_append]
      apply isBlank_getLast?_append
      · exact hkey [' '] k
      · apply isBlank_getLast?_flatMap
        exact fun k _ => hkey [',', ' '] k

theorem Attribute.Writable.trim_write {a : Attribute} (h : a.Writable)
    (comment : Option (List Char)) :
    trim (a.display.toList ++ writeComment comment) = a.display.toList ++ writeComment comment := by
  have hname : ∀ front, ∀ c ∈ (front ++ a.name.toList).getLast?, isBlank c = false := by
    intro front
    rw [List.getLast?_append_of_ne_nil front h.name.ne_nil]
    exact (trim_eq_self_iff.mp (h.name.trim_eq_self isBlank_of_isAttributeChar)).2
  have hcomment : ∀ c ∈ (writeComment comment).getLast?, isBlank c = false := by
    cases comment with
    | none =>
        intro c hc
        cases hc
    | some text =>
        intro c hc
        rw [writeComment, ← List.cons_append, ← List.cons_append, List.getLast?_concat] at hc
        cases hc
        rfl
  rw [trim_eq_self_iff, toList_display]
  constructor
  · intro c hc
    rw [List.append_assoc] at hc
    exact isBlank_of_isTypeChar (h.typeName.of_mem_head? hc)
  · rw [List.append_cons, ← List.append_assoc]
    exact isBlank_getLast?_append
      (isBlank_getLast?_append (hname _) (getLast?_writeKeys a.keys)) hcomment

/-- A line that is written is read as what it was written for: a relationship with symbols at both
ends of its line or with a bare line of any length, and inside a block an attribute as it is
displayed, with a comment behind it or without. -/
theorem ofLine?_written :
    (∀ r : Relationship, r.Writable → ∀ n, Statement.ofLine? (r.write n) = some (.relationship r)) ∧
      ∀ a : Attribute, a.Writable →
        ∀ comment : Option (List Char), (∀ text ∈ comment, '"' ∉ text) →
          BlockStatement.ofLine? (a.display.toList ++ writeComment comment) =
            some (.attribute a) := by
  refine ⟨fun r h n => ofLine?_write h n, ?_⟩
  intro a h comment hcomment
  have hopen : a.display.toList ++ writeComment comment ≠ ['}'] := by
    intro heq
    have hhead : '}' ∈ (a.display.toList ++ writeComment comment).head? := by
      rw [heq]
      rfl
    rw [toList_display, List.append_assoc] at hhead
    have htype := h.typeName.of_mem_head? hhead
    cases htype
  rw [BlockStatement.ofLine?, h.trim_write comment]
  simp [hopen, attribute?_write h hcomment]

/-- Names that go on like symbols and lines, a label with a colon and a quote, and an attribute
that has the name of a key. -/
theorem ofLine?_written_names :
    Statement.ofLine? "foo-o o|..\x7d -o : it's : \"so".toList =
        some (.relationship
          { left := "foo-o"
            right := "-o"
            ends := some ("o|", "\x7d")
            identifying := false
            label := some "it's : \"so" }) ∧
      Statement.ofLine? "a-- --- --b".toList =
        some (.relationship { left := "a--", right := "--b", identifying := true }) ∧
      BlockStatement.ofLine? "varchar(40)[] PK FK, PK \"a key, UK\"".toList =
        some (.attribute
          { typeName := "varchar(40)[]", name := "PK", keys := [.foreign, .primary] }) := by
  have hlabel : IsLabel "it's : \"so".toList := {
    ne_nil := by decide
    trimmed := by decide
    oneLine := by decide
    unquoted := by
      intro q hq inner heq
      obtain rfl : 'i' = q := (List.cons.inj heq).1
      revert hq
      decide }
  have hsymbols : Relationship.Writable ⟨"foo-o", "-o", some ("o|", "\x7d"), false,
      some "it's : \"so"⟩ := {
    left := by decide
    right := by decide
    ends := by
      rintro p ⟨⟩
      decide
    label := by
      rintro text ⟨⟩
      exact hlabel }
  have hbare : Relationship.Writable ⟨"a--", "--b", none, true, none⟩ := {
    left := by decide
    right := by decide
    ends := nofun
    label := nofun }
  have hattribute : Attribute.Writable ⟨"varchar(40)[]", "PK", [.foreign, .primary]⟩ := {
    typeName := by decide
    name := by decide }
  refine ⟨ofLine?_written.1 _ hsymbols 0, ofLine?_written.1 _ hbare 1, ?_⟩
  exact ofLine?_written.2 _ hattribute (some "a key, UK".toList) (by rintro text ⟨⟩; decide)

end Whiteboard.Entity
