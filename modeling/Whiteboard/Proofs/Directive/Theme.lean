import Whiteboard.Proofs.Directive.Written

/-!
What the entries of a styles map say about the theme.

A block with nothing but a styles map is written with or without the word `init` around it, its
names with or without quotes (`Entry`). The theme of a block is looked for everywhere in it, and a
name is read as the word `theme` if it ends in it and a colon follows (`firstAt?_themeAt?_name`). No
colon follows a category, but one follows every id. So the first id of the map that ends in `theme`
gives the block a theme, and there is none exactly if no id does (`ofText_writeMap`); whatever ids
there are, the overrides are those of the entries.
-/

namespace Whiteboard.Directive

open Text

/-- How a name is written: bare, or between two quotes of one kind. -/
inductive Quoting where
  | bare | single | double
deriving DecidableEq, Repr

def Quoting.mark : Quoting → List Char
  | bare => []
  | single => ['\'']
  | double => ['"']

/-- An entry of a styles map as it is written: an id and a category with a colon between them, and
the blanks in front of the entry, on the two sides of the colon and behind the entry. -/
structure Entry where
  id : String
  category : String
  idQuoting : Quoting
  categoryQuoting : Quoting
  lead : List Char
  pad : List Char
  gap : List Char
  trail : List Char
deriving DecidableEq, Repr

namespace Entry

def behind (e : Entry) : List Char :=
  e.idQuoting.mark ++ (e.pad ++ ':' :: (e.gap ++ (e.categoryQuoting.mark ++
    (e.category.toList ++ (e.categoryQuoting.mark ++ e.trail)))))

def write (e : Entry) : List Char :=
  e.lead ++ (e.idQuoting.mark ++ (e.id.toList ++ e.behind))

def pair (e : Entry) : List Char × List Char :=
  (e.id.toList, e.category.toList)

/-- The id ends in the key of a theme. -/
def leaks (e : Entry) : Bool :=
  "theme".toList.isSuffixOf e.id.toList

/-- What the parts of an entry need to be. -/
structure Writable (e : Entry) : Prop where
  id : IsRun isIdChar e.id.toList
  category : IsRun isTokenChar e.category.toList
  lead : ∀ c ∈ e.lead, isBlank c = true
  pad : ∀ c ∈ e.pad, isBlank c = true
  gap : ∀ c ∈ e.gap, isBlank c = true
  trail : ∀ c ∈ e.trail, isBlank c = true

end Entry

def writeInside (entries : List Entry) : List Char :=
  [','].intercalate (entries.map Entry.write)

/-- The two blocks that hold nothing but a styles map. -/
inductive Form where
  | plain | init
deriving DecidableEq, Repr

def Form.front : Form → List Char
  | plain => "styles: \x7b".toList
  | init => "init: \x7b\"styles\": \x7b".toList

def Form.back : Form → List Char
  | plain => "\x7d".toList
  | init => "\x7d\x7d".toList

def writeMap (form : Form) (entries : List Entry) : List Char :=
  opening ++ (form.front ++ writeInside entries ++ form.back) ++ closing

/-! ### Characters -/

theorem isIdChar_of_isBlank {c : Char} (h : isBlank c = true) : isIdChar c = false := by
  by_contra hid
  rw [Bool.not_eq_false] at hid
  rw [isBlank_of_isIdChar hid] at h
  cases h

theorem isTokenChar_of_isIdChar_eq_false {c : Char} (h : isIdChar c = false) :
    isTokenChar c = false :=
  (Bool.or_eq_false_iff.mp h).1

theorem Quoting.isIdChar_mark (q : Quoting) : ∀ c ∈ q.mark, isIdChar c = false := by
  cases q with
  | bare => exact List.forall_mem_nil _
  | single => exact List.forall_mem_singleton.mpr rfl
  | double => exact List.forall_mem_singleton.mpr rfl

/-- What stands between two entries and behind the last one. -/
def borders : List Char :=
  [',', '}']

/-- What stands around entries is part of no id, blank, colon or quote. -/
theorem border_spec {border : Char} (h : border ∈ borders) :
    isIdChar border = false ∧ isBlank border = false ∧ border ≠ ':' ∧ border ≠ '"' ∧
      border ≠ '\'' := by
  rcases List.mem_pair.mp h with rfl | rfl <;> decide

/-- A name ends at the quote behind it, or else at the blanks behind it or where they end. -/
theorem head?_mark_append (q : Quoting) {gap rest : List Char}
    (hgap : ∀ c ∈ gap, isBlank c = true) (hrest : ∀ c ∈ rest.head?, isIdChar c = false) :
    ∀ c ∈ (q.mark ++ (gap ++ rest)).head?, isIdChar c = false := by
  intro c hc
  rw [← List.append_assoc] at hc
  cases hfront : q.mark ++ gap with
  | nil =>
      rw [hfront] at hc
      exact hrest c hc
  | cons d front =>
      rw [hfront] at hc
      obtain rfl : d = c := Option.some.inj hc
      have hd : d ∈ q.mark ++ gap := by
        rw [hfront]
        exact List.mem_cons_self
      rcases List.mem_append.mp hd with hd | hd
      · exact q.isIdChar_mark d hd
      · exact isIdChar_of_isBlank (hgap d hd)

theorem isBlank_head?_mark_append (q : Quoting) {rest : List Char}
    (hrest : ∀ c ∈ rest.head?, isBlank c = false) :
    ∀ c ∈ (q.mark ++ rest).head?, isBlank c = false := by
  cases q with
  | bare => exact hrest
  | single =>
      rintro c ⟨⟩
      rfl
  | double =>
      rintro c ⟨⟩
      rfl

/-! ### Keys -/

/-- Exactly the opening quote is dropped, if there is one. -/
theorem dropQuote_mark (q : Quoting) {rest : List Char}
    (hrest : ∀ c ∈ rest.head?, c ≠ '"' ∧ c ≠ '\'') : dropQuote (q.mark ++ rest) = rest := by
  cases q with
  | bare =>
      cases rest with
      | nil => rfl
      | cons c rest =>
          obtain ⟨hdouble, hsingle⟩ := hrest c rfl
          simp [Quoting.mark, dropQuote, hdouble, hsingle]
  | single => rfl
  | double => rfl

/-- Only the quote of the name itself is dropped behind it. -/
theorem dropQuote_mark_blanks (q : Quoting) {gap : List Char} (hgap : ∀ c ∈ gap, isBlank c = true)
    {d : Char} (hd : d ≠ '"' ∧ d ≠ '\'') (rest : List Char) :
    dropQuote (q.mark ++ (gap ++ d :: rest)) = gap ++ d :: rest := by
  apply dropQuote_mark
  intro c hc
  cases gap with
  | nil =>
      cases hc
      exact hd
  | cons blank gap =>
      obtain rfl : blank = c := Option.some.inj hc
      have hblank : isBlank blank = true := hgap blank List.mem_cons_self
      constructor <;> (rintro rfl; cases hblank)

/-- A colon behind a name and its quote makes it a key. -/
theorem afterColon?_mark (q : Quoting) {pad gap rest : List Char}
    (hpad : ∀ c ∈ pad, isBlank c = true) (hgap : ∀ c ∈ gap, isBlank c = true)
    (hrest : ∀ c ∈ rest.head?, isBlank c = false) :
    afterColon? (q.mark ++ (pad ++ ':' :: (gap ++ rest))) = some rest := by
  have hcolon : trimStart (pad ++ ':' :: (gap ++ rest)) = ':' :: (gap ++ rest) :=
    dropWhile_run hpad (by rintro c ⟨⟩; rfl)
  have hstart : trimStart (gap ++ rest) = rest := dropWhile_run hgap hrest
  rw [afterColon?, dropQuote_mark_blanks q hpad (by decide), hcolon]
  exact congrArg some hstart

/-- A comma or a brace behind a name and its quote makes it no key. -/
theorem afterColon?_border (q : Quoting) {gap : List Char} (hgap : ∀ c ∈ gap, isBlank c = true)
    {border : Char} (hborder : border ∈ borders) (rest : List Char) :
    afterColon? (q.mark ++ (gap ++ border :: rest)) = none := by
  obtain ⟨-, hblank, hcolon, hquote⟩ := border_spec hborder
  have hstart : trimStart (gap ++ border :: rest) = border :: rest :=
    dropWhile_run hgap (by rintro c ⟨⟩; exact hblank)
  rw [afterColon?, dropQuote_mark_blanks q hgap hquote, hstart]
  simp [hcolon]

def value? (cs : List Char) : Option (List Char) :=
  (afterColon? cs).bind fun rest => (run? isTokenChar (dropQuote rest)).map Prod.fst

/-- A theme is its key and the value behind it. -/
theorem themeAt?_eq (cs : List Char) :
    themeAt? cs = (strip? "theme".toList cs).bind value? := by
  rw [themeAt?]
  cases strip? "theme".toList cs with
  | none => rfl
  | some rest =>
      simp only [Option.bind_eq_bind, Option.bind_some, value?]
      cases afterColon? rest with
      | none => rfl
      | some rest =>
          rw [Option.bind_some, Option.bind_some]
          cases run? isTokenChar (dropQuote rest) <;> rfl

/-- No theme begins where the word for it does not begin. -/
theorem firstAt?_themeAt?_cons {c : Char} (h : c ≠ 't') (rest : List Char) :
    firstAt? themeAt? (c :: rest) = firstAt? themeAt? rest := by
  rw [firstAt?, themeAt?_cons h, Option.none_or]

/-- A search for the key of a theme passes over text without its first letter. -/
theorem firstAt?_themeAt?_append {front : List Char} (h : 't' ∉ front) (rest : List Char) :
    firstAt? themeAt? (front ++ rest) = firstAt? themeAt? rest := by
  induction front with
  | nil => rfl
  | cons c front ih =>
      rw [List.mem_cons, not_or] at h
      rw [List.cons_append, firstAt?_themeAt?_cons (Ne.symm h.1), ih h.2]

/-- No value begins in the middle of a name. -/
theorem value?_of_isIdChar {c : Char} (hc : isIdChar c = true) (rest : List Char) :
    value? (c :: rest) = none := by
  have hdouble : c ≠ '"' := ne_of_isIdChar hc rfl
  have hsingle : c ≠ '\'' := ne_of_isIdChar hc rfl
  have hcolon : c ≠ ':' := ne_of_isIdChar hc rfl
  simp [value?, afterColon?, dropQuote, trimStart, isBlank_of_isIdChar hc, hdouble, hsingle, hcolon]

section Name

variable {name tail : List Char}

/-- What is left of a name from some place on is the key of a theme only if it is the whole key. -/
theorem themeAt?_name (hname : ∀ c ∈ name, isIdChar c = true)
    (htail : ∀ c ∈ tail.head?, isIdChar c = false) :
    themeAt? (name ++ tail) = if name = "theme".toList then value? tail else none := by
  rw [themeAt?_eq]
  by_cases hkey : "theme".toList <+: name
  · obtain ⟨word, rfl⟩ := hkey
    rw [List.append_assoc, strip?_append, Option.bind_some]
    cases word with
    | nil => rfl
    | cons c word =>
        have hc : isIdChar c = true := hname c (List.mem_append_right _ List.mem_cons_self)
        rw [List.cons_append, value?_of_isIdChar hc, if_neg (by simp)]
  · have hnone : strip? "theme".toList (name ++ tail) = none := by
      rw [strip?_eq_none_iff]
      intro hprefix
      cases tail with
      | nil =>
          rw [List.append_nil] at hprefix
          exact hkey hprefix
      | cons d tail =>
          rcases isPrefix_or_concat_isPrefix hprefix with h | h
          · exact hkey h
          · have hids : IsRun isIdChar "theme".toList := by decide
            have hd := hids.all d (h.subset (List.mem_append_right _ (List.mem_singleton_self d)))
            rw [htail d rfl] at hd
            cases hd
    rw [hnone, if_neg]
    · rfl
    · rintro rfl
      exact hkey (List.prefix_refl _)

/-- A name is the key of a theme if it ends in it. -/
theorem firstAt?_themeAt?_name (hname : ∀ c ∈ name, isIdChar c = true)
    (htail : ∀ c ∈ tail.head?, isIdChar c = false) :
    firstAt? themeAt? (name ++ tail) =
      (if "theme".toList <:+ name then value? tail else none).or (firstAt? themeAt? tail) := by
  induction name with
  | nil => rfl
  | cons c name ih =>
      rw [List.cons_append, firstAt?, ← List.cons_append, themeAt?_name hname htail,
        ih (List.forall_mem_cons.mp hname).2]
      by_cases hkey : c :: name = "theme".toList
      · have hshort : ¬ "theme".toList <:+ name := by
          intro hsuffix
          have hle := hsuffix.length_le
          rw [← hkey, List.length_cons] at hle
          exact absurd hle (Nat.not_succ_le_self _)
        have hwhole : "theme".toList <:+ c :: name := by
          rw [hkey]
        rw [if_pos hkey, if_neg hshort, if_pos hwhole, Option.none_or]
      · have hsuffix : "theme".toList <:+ c :: name ↔ "theme".toList <:+ name := by
          rw [List.suffix_cons_iff]
          exact or_iff_right (Ne.symm hkey)
        rw [if_neg hkey, Option.none_or]
        simp only [hsuffix]

end Name

/-! ### Entries -/

theorem not_mem_blanks {cs : List Char} (h : ∀ c ∈ cs, isBlank c = true) {mark : Char}
    (hmark : isBlank mark = false) : mark ∉ cs := by
  intro hc
  rw [h mark hc] at hmark
  cases hmark

theorem pairs_append {front : List Char} (h : ∀ c ∈ front, isIdChar c = false)
    (rest : List Char) : pairs (front ++ rest) = pairs rest := by
  induction front with
  | nil => rfl
  | cons c front ih =>
      rw [List.forall_mem_cons] at h
      rw [List.cons_append, pairs_cons h.1, ih h.2]

theorem Entry.behind_append (e : Entry) (tail : List Char) :
    e.behind ++ tail = e.idQuoting.mark ++ (e.pad ++ ':' :: (e.gap ++ (e.categoryQuoting.mark ++
      (e.category.toList ++ (e.categoryQuoting.mark ++ (e.trail ++ tail)))))) := by
  simp [Entry.behind]

theorem Entry.write_append (e : Entry) (tail : List Char) :
    e.write ++ tail = e.lead ++ (e.idQuoting.mark ++ (e.id.toList ++ (e.behind ++ tail))) := by
  simp [Entry.write]

/-- An entry leaks if the key of a theme stands at the end of its id. -/
theorem Entry.leaks_iff {e : Entry} : e.leaks = true ↔ "theme".toList <:+ e.id.toList :=
  List.isSuffixOf_iff_suffix

/-- The id ends in front of its quote, of a blank or of the colon. -/
theorem Entry.Writable.head?_behind {e : Entry} (h : e.Writable) (tail : List Char) :
    ∀ c ∈ (e.behind ++ tail).head?, isIdChar c = false := by
  rw [e.behind_append]
  exact head?_mark_append e.idQuoting h.pad (by rintro c ⟨⟩; rfl)

section Entry

variable {e : Entry} (h : e.Writable) {tail : List Char}
  (htail : ∀ c ∈ tail.head?, isIdChar c = false)

include h htail

/-- The category of an entry is read behind its id. -/
theorem Entry.Writable.read_behind :
    ∃ rest, afterColon? (e.behind ++ tail) = some rest ∧
      run? isTokenChar (dropQuote rest) =
        some (e.category.toList, e.categoryQuoting.mark ++ (e.trail ++ tail)) := by
  let rest := e.categoryQuoting.mark ++ (e.category.toList ++
    (e.categoryQuoting.mark ++ (e.trail ++ tail)))
  have hhead : ∀ c ∈ (e.category.toList ++ (e.categoryQuoting.mark ++ (e.trail ++ tail))).head?,
      isIdChar c = true :=
    fun c hc => (isRun_id h.category).of_mem_head? hc
  have hblank : ∀ c ∈ rest.head?, isBlank c = false :=
    isBlank_head?_mark_append _ fun c hc => isBlank_of_isIdChar (hhead c hc)
  have hquote : dropQuote rest = e.category.toList ++
      (e.categoryQuoting.mark ++ (e.trail ++ tail)) :=
    dropQuote_mark _ fun c hc => ⟨ne_of_isIdChar (hhead c hc) rfl, ne_of_isIdChar (hhead c hc) rfl⟩
  refine ⟨rest, ?_, ?_⟩
  · rw [e.behind_append, afterColon?_mark _ h.pad h.gap hblank]
  · rw [hquote]
    exact run?_append h.category fun c hc =>
      isTokenChar_of_isIdChar_eq_false (head?_mark_append _ h.trail htail c hc)

/-- Behind an id its category is read as a value. -/
theorem Entry.Writable.value?_behind : value? (e.behind ++ tail) = some e.category.toList := by
  obtain ⟨rest, hcolon, hrun⟩ := h.read_behind htail
  rw [value?, hcolon, Option.bind_some, hrun]
  rfl

/-- An entry is read as the pair of its id and its category. -/
theorem Entry.Writable.pairs_write : pairs (e.write ++ tail) = e.pair :: pairs tail := by
  obtain ⟨rest, hcolon, hrun⟩ := h.read_behind htail
  have hid : run? isIdChar (e.id.toList ++ (e.behind ++ tail)) =
      some (e.id.toList, e.behind ++ tail) :=
    run?_append h.id (h.head?_behind tail)
  have hpair : pairAt? (e.id.toList ++ (e.behind ++ tail)) =
      some (e.pair, e.categoryQuoting.mark ++ (e.trail ++ tail)) := by
    simp [pairAt?, hid, hcolon, hrun, Entry.pair]
  rw [e.write_append, pairs_append fun c hc => isIdChar_of_isBlank (h.lead c hc),
    pairs_append e.idQuoting.isIdChar_mark, pairs_of_pairAt? hpair,
    pairs_append e.categoryQuoting.isIdChar_mark,
    pairs_append fun c hc => isIdChar_of_isBlank (h.trail c hc)]

end Entry

/-- An entry whose id ends in the key of a theme says that its category is the theme. -/
theorem Entry.Writable.firstAt?_themeAt? {e : Entry} (h : e.Writable) {border : Char}
    (hborder : border ∈ borders) (rest : List Char) :
    firstAt? themeAt? (e.write ++ border :: rest) =
      (if e.leaks then some e.category.toList else none).or
        (firstAt? themeAt? (border :: rest)) := by
  have htail : ∀ c ∈ (border :: rest).head?, isIdChar c = false := by
    rintro c ⟨⟩
    exact (border_spec hborder).1
  have hmark : ∀ q : Quoting, 't' ∉ q.mark := by
    intro q
    cases q <;> decide
  have hcategory : value? (e.categoryQuoting.mark ++ (e.trail ++ border :: rest)) = none := by
    rw [value?, afterColon?_border _ h.trail hborder, Option.bind_none]
  have hbehind : firstAt? themeAt? (e.behind ++ border :: rest) =
      firstAt? themeAt? (border :: rest) := by
    rw [e.behind_append, firstAt?_themeAt?_append (hmark _),
      firstAt?_themeAt?_append (not_mem_blanks h.pad rfl), firstAt?_themeAt?_cons (by decide),
      firstAt?_themeAt?_append (not_mem_blanks h.gap rfl), firstAt?_themeAt?_append (hmark _),
      firstAt?_themeAt?_name (isRun_id h.category).all (head?_mark_append _ h.trail htail),
      hcategory, ite_self, Option.none_or, firstAt?_themeAt?_append (hmark _),
      firstAt?_themeAt?_append (not_mem_blanks h.trail rfl)]
  rw [e.write_append, firstAt?_themeAt?_append (not_mem_blanks h.lead rfl),
    firstAt?_themeAt?_append (hmark _), firstAt?_themeAt?_name h.id.all (h.head?_behind _),
    h.value?_behind htail, hbehind]
  simp only [Entry.leaks_iff]

/-! ### The map -/

theorem writeInside_singleton (e : Entry) : writeInside [e] = e.write := by
  simp [writeInside]

theorem writeInside_cons_cons (e next : Entry) (entries : List Entry) :
    writeInside (e :: next :: entries) = e.write ++ ',' :: writeInside (next :: entries) := by
  simp [writeInside, List.intercalate_cons_cons]

section Map

variable {entries : List Entry} (h : ∀ e ∈ entries, e.Writable)

include h

/-- The theme that a map says is the category of the first id that ends in the key of a theme. -/
theorem firstAt?_themeAt?_writeInside (rest : List Char) :
    firstAt? themeAt? (writeInside entries ++ '}' :: rest) =
      ((entries.find? Entry.leaks).map fun e => e.category.toList).or
        (firstAt? themeAt? ('}' :: rest)) := by
  induction entries with
  | nil => rfl
  | cons e entries ih =>
      rw [List.forall_mem_cons] at h
      have hfind : (((e :: entries).find? Entry.leaks).map fun e => e.category.toList) =
          (if e.leaks then some e.category.toList else none).or
            ((entries.find? Entry.leaks).map fun e => e.category.toList) := by
        cases hleaks : e.leaks <;> simp [hleaks]
      cases entries with
      | nil =>
          rw [writeInside_singleton, h.1.firstAt?_themeAt? (by decide), hfind, Option.or_assoc]
          rfl
      | cons next entries =>
          rw [writeInside_cons_cons, List.append_assoc, List.cons_append,
            h.1.firstAt?_themeAt? (by decide), firstAt?_themeAt?_cons (by decide), ih h.2, hfind,
            Option.or_assoc]

/-- The pairs of a map are those of its entries. -/
theorem pairs_writeInside : pairs (writeInside entries) = entries.map Entry.pair := by
  induction entries with
  | nil => exact pairs_nil
  | cons e entries ih =>
      rw [List.forall_mem_cons] at h
      cases entries with
      | nil =>
          have hpairs := @Entry.Writable.pairs_write e h.1 [] (by rintro c ⟨⟩)
          rw [writeInside_singleton, ← List.append_nil e.write, hpairs, pairs_nil]
          rfl
      | cons next entries =>
          rw [writeInside_cons_cons, h.1.pairs_write (by rintro c ⟨⟩; rfl), pairs_cons rfl, ih h.2]
          rfl

/-- A character that belongs to no name, is no blank and does not stand between names does not occur
in a map. -/
theorem not_mem_writeInside {mark : Char} (hid : isIdChar mark = false)
    (hblank : isBlank mark = false) (haround : mark ∉ "\"':,".toList) :
    mark ∉ writeInside entries := by
  have hmark : ∀ q : Quoting, mark ∉ q.mark := by
    have hsub : ∀ q : Quoting, q.mark ⊆ "\"':,".toList := by
      intro q
      cases q <;> decide
    exact fun q hq => haround (hsub q hq)
  have hcolon : mark ≠ ':' := fun heq => haround (heq ▸ by decide)
  have hcomma : mark ≠ ',' := fun heq => haround (heq ▸ by decide)
  have hwrite : ∀ {e : Entry}, e.Writable → mark ∉ e.write := by
    intro e he
    simp only [Entry.write, Entry.behind, List.mem_append, List.mem_cons, not_or]
    exact ⟨not_mem_blanks he.lead hblank, hmark _, he.id.not_mem hid, hmark _,
      not_mem_blanks he.pad hblank, hcolon, not_mem_blanks he.gap hblank, hmark _,
      (isRun_id he.category).not_mem hid, hmark _, not_mem_blanks he.trail hblank⟩
  induction entries with
  | nil => exact List.not_mem_nil
  | cons e entries ih =>
      rw [List.forall_mem_cons] at h
      cases entries with
      | nil =>
          rw [writeInside_singleton]
          exact hwrite h.1
      | cons next entries =>
          rw [writeInside_cons_cons, List.mem_append, List.mem_cons, not_or, not_or]
          exact ⟨hwrite h.1, hcomma, ih h.2⟩

/-- The written block is found as it was written. -/
theorem block?_writeMap (form : Form) (rest : List Char) :
    block? (writeMap form entries ++ rest) =
      some ⟨[], form.front ++ writeInside entries ++ form.back, rest⟩ := by
  have hfront : '%' ∉ form.front := by
    cases form <;> decide
  have hback : '%' ∉ form.back := by
    cases form <;> decide
  apply block?_of_not_mem
  rw [List.mem_append, List.mem_append, not_or, not_or]
  exact ⟨⟨hfront, not_mem_writeInside h rfl rfl (by decide)⟩, hback⟩

/-- The map is found with all its entries. -/
theorem firstAt?_stylesAt?_writeMap (form : Form) :
    firstAt? stylesAt? (form.front ++ writeInside entries ++ form.back) =
      some (writeInside entries) := by
  have hopen : '{' ∉ writeInside entries := not_mem_writeInside h rfl rfl (by decide)
  have hclose : '}' ∉ writeInside entries := not_mem_writeInside h rfl rfl (by decide)
  rw [List.append_assoc]
  cases form with
  | plain =>
      have hcolon : afterColon? (": \x7b".toList ++ (writeInside entries ++ ['}'])) =
          some ('{' :: (writeInside entries ++ ['}'])) := rfl
      exact firstAt?_of_eq_some (stylesAt?_append hopen hclose hcolon)
  | init =>
      have hinit : ∀ cs, firstAt? stylesAt? ("init: \x7b\"".toList ++ cs) =
          firstAt? stylesAt? cs :=
        fun _ => rfl
      exact (hinit _).trans (firstAt?_of_eq_some (stylesAt?_map hopen hclose ['}']))

/-- The theme that is found is the category of the first entry that leaks. -/
theorem firstAt?_themeAt?_writeMap (form : Form) :
    firstAt? themeAt? (form.front ++ writeInside entries ++ form.back) =
      (entries.find? Entry.leaks).map fun e => e.category.toList := by
  have hfront : ∀ cs, firstAt? themeAt? (form.front ++ cs) = firstAt? themeAt? cs := by
    cases form <;> exact fun _ => rfl
  rw [List.append_assoc, hfront]
  cases form with
  | plain => exact (firstAt?_themeAt?_writeInside h []).trans Option.or_none
  | init => exact (firstAt?_themeAt?_writeInside h ['}']).trans Option.or_none

/-- Whatever the entries of a map are, the overrides are theirs. The theme is the category of the
first entry whose id ends in the key of a theme, so a map says no theme exactly if no id ends so. -/
theorem ofText_writeMap (form : Form) (rest : List Char) :
    let directive := ofText (writeMap form entries ++ rest)
    directive.overrides = (entries.map Entry.pair).foldl addPair [] ∧
      directive.theme = (entries.find? Entry.leaks).map Entry.category ∧
      (directive.theme = none ↔ ∀ e ∈ entries, ¬ "theme".toList <:+ e.id.toList) := by
  intro directive
  have hbody : directive = ofBody (form.front ++ writeInside entries ++ form.back) := by
    simp only [directive, ofText, block?_writeMap h]
  have hoverrides : directive.overrides = (entries.map Entry.pair).foldl addPair [] := by
    rw [hbody, ofBody, firstAt?_stylesAt?_writeMap h, Option.getD_some, pairs_writeInside h]
  have htheme : directive.theme = (entries.find? Entry.leaks).map Entry.category := by
    rw [hbody, ofBody, firstAt?_themeAt?_writeMap h]
    simp only [Option.map_map, Function.comp_def, String.ofList_toList]
  refine ⟨hoverrides, htheme, ?_⟩
  rw [htheme, Option.map_eq_none_iff, List.find?_eq_none]
  simp only [Entry.leaks_iff]

end Map

/-- An id that only ends in the key of a theme behind one that has more behind it. -/
theorem ofText_writeMap_dark :
    let entries : List Entry := [
      ⟨"themes", "ui", .double, .single, [], [' '], [], []⟩,
      ⟨"dark.theme", "db", .single, .bare, ['\n'], [], [], [' ']⟩]
    let rest := "\ngraph TD".toList
    let directive := ofText (writeMap .init entries ++ rest)
    String.ofList (writeMap .init entries) =
        "%%\x7binit: \x7b\"styles\": \x7b\"themes\" :'ui',\n'dark.theme':db \x7d\x7d\x7d%%" ∧
      directive.overrides = (entries.map Entry.pair).foldl addPair [] ∧
      directive.theme = (entries.find? Entry.leaks).map Entry.category ∧
      (directive.theme = none ↔ ∀ e ∈ entries, ¬ "theme".toList <:+ e.id.toList) := by
  intro entries rest
  have hentries : ∀ e ∈ entries, e.Writable := by
    simp only [entries, List.forall_mem_cons]
    refine ⟨⟨by decide, by decide, ?_, ?_, ?_, ?_⟩, ⟨by decide, by decide, ?_, ?_, ?_, ?_⟩,
      by simp⟩ <;>
      exact List.all_eq_true.mp rfl
  exact ⟨by decide, ofText_writeMap hentries .init rest⟩

/-- An id of a map gives the block a theme. -/
theorem themeId_leaks :
    (ofText "%%\x7bstyles: \x7btheme: db\x7d\x7d%%".toList).theme = some "db" ∧
      (ofText "%%\x7bstyles: \x7bA: db\x7d\x7d%%".toList).theme = none ∧
      writeMap .plain [⟨"theme", "db", .bare, .bare, [], [], [' '], []⟩] =
        "%%\x7bstyles: \x7btheme: db\x7d\x7d%%".toList := by
  decide

end Whiteboard.Directive
