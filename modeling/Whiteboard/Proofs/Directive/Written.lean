import Whiteboard.Proofs.Directive

/-!
A directive as it is written.

A theme and the styles of some ids are written in one block, every name in double quotes. The block
ends at the first mark behind its closing braces, as no name holds a percent sign. A name is no key,
even if it is one of the words `theme`, `styles` or `init`, because no colon follows the quote
behind it (`stylesAt?_name`), and the entries of the map are read back one by one
(`pairs_writeEntries`). So the block at the beginning of a text says just what was written
(`ofText_write`).
-/

namespace Whiteboard

namespace Overrides

/-- A new id comes last. -/
theorem insert_of_not_mem {m : Overrides} {id : String} (h : id ∉ m.map Prod.fst) (c : Category) :
    m.insert id c = m ++ [(id, c)] := by
  have hkept : m.filter (·.1 != id) = m := by
    rw [List.filter_eq_self]
    intro entry hentry
    rw [bne_iff_ne]
    exact fun heq => h (heq ▸ List.mem_map_of_mem hentry)
  simp only [insert, hkept]

/-- A look-up in overrides for different ids finds exactly what they say. -/
theorem get?_eq_some_iff {m : Overrides} (h : (m.map Prod.fst).Nodup) {id : String}
    {c : Category} : m.get? id = some c ↔ (id, c) ∈ m := by
  rw [get?, List.lookup_eq_some_iff]
  constructor
  · rintro ⟨front, rest, rfl, -⟩
    exact List.mem_append_right _ List.mem_cons_self
  · intro hmem
    obtain ⟨front, rest, rfl⟩ := List.append_of_mem hmem
    refine ⟨front, rest, rfl, fun entry hentry => ?_⟩
    rw [List.map_append, List.nodup_append] at h
    rw [bne_iff_ne]
    exact (h.2.2 _ (List.mem_map_of_mem hentry) id List.mem_cons_self).symm

/-- The order of the entries does not matter to what they say. -/
theorem get?_eq_of_perm {m m' : Overrides} (hperm : m.Perm m') (h : (m.map Prod.fst).Nodup)
    (id : String) : m.get? id = m'.get? id := by
  have h' : (m'.map Prod.fst).Nodup := (hperm.map Prod.fst).nodup_iff.mp h
  ext c
  rw [get?_eq_some_iff h, get?_eq_some_iff h', hperm.mem_iff]

end Overrides

namespace Directive

open Text

def inQuotes (name : String) : List Char :=
  '"' :: name.toList ++ ['"']

def writeEntry (entry : String × Category) : List Char :=
  inQuotes entry.1 ++ ": ".toList ++ inQuotes entry.2.name

def writeEntries (styles : Overrides) : List Char :=
  ", ".toList.intercalate (styles.map writeEntry)

/-- The inside of a block: a theme, and a styles map behind it. -/
def writeBody (theme : String) (styles : Overrides) : List Char :=
  "init: \x7b\"".toList ++ ("theme\": ".toList ++ (inQuotes theme ++ (", \"".toList ++
    ("styles\": \x7b".toList ++ (writeEntries styles ++ "\x7d\x7d".toList)))))

/-- The block that asks for a theme and for the styles of some ids. -/
def write (theme : String) (styles : Overrides) : List Char :=
  opening ++ writeBody theme styles ++ closing

/-- What names need to be written in a block. -/
structure Writable (theme : String) (styles : Overrides) : Prop where
  theme : IsRun isTokenChar theme.toList
  ids : ∀ entry ∈ styles, IsRun isIdChar entry.1.toList
  ids_nodup : (styles.map Prod.fst).Nodup

/-- Entries can be written in any order. -/
theorem Writable.of_perm {theme : String} {styles entries : Overrides} (h : Writable theme styles)
    (horder : entries.Perm styles) : Writable theme entries where
  theme := h.theme
  ids entry hentry := h.ids entry (horder.mem_iff.mp hentry)
  ids_nodup := (horder.map Prod.fst).nodup_iff.mpr h.ids_nodup

/-! ### Characters -/

theorem isIdChar_of_isTokenChar {c : Char} (h : isTokenChar c = true) : isIdChar c = true := by
  rw [isIdChar, h, Bool.true_or]

theorem ne_of_isIdChar {c d : Char} (h : isIdChar c = true) (hd : isIdChar d = false) : c ≠ d := by
  rintro rfl
  rw [h] at hd
  cases hd

theorem isBlank_of_isIdChar {c : Char} (h : isIdChar c = true) : isBlank c = false := by
  simp only [isIdChar, isTokenChar, Bool.or_eq_true, beq_iff_eq] at h
  rcases h with ((h | rfl) | rfl) | rfl
  · exact isBlank_of_isAlphanum h
  all_goals rfl

theorem not_mem_inQuotes {mark : Char} {name : String} (hquote : mark ≠ '"')
    (hname : mark ∉ name.toList) : mark ∉ inQuotes name := by
  simp [inQuotes, hquote, hname]

theorem isRun_name (category : Category) : IsRun isTokenChar category.name.toList := by
  cases category <;> decide

theorem isRun_id {token : List Char} (h : IsRun isTokenChar token) : IsRun isIdChar token :=
  h.mono fun _ => isIdChar_of_isTokenChar

/-! ### Keys -/

/-- A key is read if a quote, a colon and a space stand between it and its value. -/
theorem afterColon?_quote {c : Char} (hc : isBlank c = false) (rest : List Char) :
    afterColon? ('"' :: ':' :: ' ' :: c :: rest) = some (c :: rest) := by
  have hspace : isBlank ' ' = true := rfl
  have hcolon : isBlank ':' = false := rfl
  simp [afterColon?, dropQuote, trimStart, hspace, hcolon, hc]

/-- A word that is followed by a quote and a comma is no key. -/
theorem afterColon?_comma {word : List Char} (hword : ∀ c ∈ word, isIdChar c = true)
    (rest : List Char) : afterColon? (word ++ '"' :: ',' :: rest) = none := by
  cases word with
  | nil => rfl
  | cons c word =>
      have hc := hword c List.mem_cons_self
      have hdouble : c ≠ '"' := ne_of_isIdChar hc rfl
      have hsingle : c ≠ '\'' := ne_of_isIdChar hc rfl
      have hcolon : c ≠ ':' := ne_of_isIdChar hc rfl
      simp [afterColon?, dropQuote, trimStart, isBlank_of_isIdChar hc, hdouble, hsingle, hcolon]

/-- No place in a name is the key of a styles map. -/
theorem stylesAt?_name {name : List Char} (hname : ∀ c ∈ name, isIdChar c = true)
    (rest : List Char) : stylesAt? (name ++ '"' :: ',' :: rest) = none := by
  rw [stylesAt?]
  cases hkey : strip? "styles".toList (name ++ '"' :: ',' :: rest) with
  | none => rfl
  | some behind =>
      have heq := strip?_eq_some.mp hkey
      -- the key cannot reach over the quote, so the name begins with it
      have hprefix : "styles".toList <+: name := by
        rcases isPrefix_or_concat_isPrefix ⟨behind, heq.symm⟩ with h | h
        · exact h
        · have hquote : '"' ∈ "styles".toList := h.subset (by simp)
          exact absurd hquote (by decide)
      obtain ⟨word, rfl⟩ := hprefix
      rw [List.append_assoc] at heq
      obtain rfl := List.append_cancel_left heq
      have hword : ∀ c ∈ word, isIdChar c = true := fun c hc =>
        hname c (List.mem_append_right _ hc)
      simp only [Option.bind_eq_bind, Option.bind_some, afterColon?_comma hword, Option.bind_none]

theorem firstAt?_stylesAt?_name {name : List Char} (hname : ∀ c ∈ name, isIdChar c = true)
    (rest : List Char) :
    firstAt? stylesAt? (name ++ '"' :: ',' :: rest) = firstAt? stylesAt? rest := by
  induction name with
  | nil => rfl
  | cons c name ih =>
      rw [List.forall_mem_cons] at hname
      have hnone := stylesAt?_name (List.forall_mem_cons.mpr hname) rest
      rw [List.cons_append] at hnone ⊢
      rw [firstAt?, hnone, Option.none_or, ih hname.2]

/-! ### Entries -/

/-- An entry is read as the pair it was written from. -/
theorem pairAt?_entry {id token : List Char} (hid : IsRun isIdChar id)
    (htoken : IsRun isTokenChar token) (rest : List Char) :
    pairAt? (id ++ '"' :: ':' :: ' ' :: '"' :: (token ++ '"' :: rest)) =
      some ((id, token), '"' :: rest) := by
  have hidRun : run? isIdChar (id ++ '"' :: ':' :: ' ' :: '"' :: (token ++ '"' :: rest)) =
      some (id, '"' :: ':' :: ' ' :: '"' :: (token ++ '"' :: rest)) :=
    run?_append hid (by rintro c ⟨⟩; rfl)
  have htokenRun : run? isTokenChar (token ++ '"' :: rest) = some (token, '"' :: rest) :=
    run?_append htoken (by rintro c ⟨⟩; rfl)
  simp [pairAt?, hidRun, @afterColon?_quote '"' rfl, dropQuote, htokenRun]

/-- Nothing or a comma stands between an entry and the next. -/
theorem writeEntries_cons (entry : String × Category) (styles : Overrides) :
    ∃ border, (border = [] ∨ border = ", ".toList) ∧
      writeEntries (entry :: styles) = writeEntry entry ++ (border ++ writeEntries styles) := by
  cases styles with
  | nil => exact ⟨[], .inl rfl, by simp [writeEntries]⟩
  | cons next styles =>
      refine ⟨", ".toList, .inr rfl, ?_⟩
      rw [writeEntries, List.map_cons, List.map_cons, List.intercalate_cons_cons, List.append_assoc,
        writeEntries, List.map_cons]

/-- A character that occurs in no id, and not around the names either, does not occur at all. -/
theorem not_mem_writeEntries {styles : Overrides}
    (hids : ∀ entry ∈ styles, IsRun isIdChar entry.1.toList) {mark : Char}
    (hmark : isIdChar mark = false) (haround : mark ∉ "\": ,".toList) :
    mark ∉ writeEntries styles := by
  induction styles with
  | nil => exact List.not_mem_nil
  | cons entry styles ih =>
      rw [List.forall_mem_cons] at hids
      obtain ⟨border, hborder, heq⟩ := writeEntries_cons entry styles
      have hquote : mark ≠ '"' := fun h => haround (h ▸ by decide)
      have hcolon : mark ∉ ": ".toList := fun h =>
        haround ((by decide : ": ".toList ⊆ "\": ,".toList) h)
      have hid : mark ∉ inQuotes entry.1 := not_mem_inQuotes hquote (hids.1.not_mem hmark)
      have hname : mark ∉ inQuotes entry.2.name :=
        not_mem_inQuotes hquote ((isRun_id (isRun_name entry.2)).not_mem hmark)
      have hnot : mark ∉ border := by
        have hsub : border ⊆ "\": ,".toList := by
          rcases hborder with rfl | rfl
          · exact List.nil_subset _
          · decide
        exact fun h => haround (hsub h)
      simp only [heq, writeEntry, List.mem_append, not_or]
      exact ⟨⟨⟨hid, hcolon⟩, hname⟩, hnot, ih hids.2⟩

/-- The entries are read one after the other: the quote behind an entry, the border and the quote in
front of the next begin no entry. -/
theorem pairs_writeEntries {styles : Overrides}
    (hids : ∀ entry ∈ styles, IsRun isIdChar entry.1.toList) :
    pairs (writeEntries styles) =
      styles.map fun entry => (entry.1.toList, entry.2.name.toList) := by
  induction styles with
  | nil => exact pairs_nil
  | cons entry styles ih =>
      rw [List.forall_mem_cons] at hids
      obtain ⟨border, hborder, heq⟩ := writeEntries_cons entry styles
      have hentry := pairAt?_entry hids.1 (isRun_name entry.2) (border ++ writeEntries styles)
      have hpassed :
          pairs ('"' :: (border ++ writeEntries styles)) = pairs (writeEntries styles) := by
        rw [pairs_cons rfl]
        rcases hborder with rfl | rfl
        · rfl
        · exact (pairs_cons rfl _).trans (pairs_cons rfl _)
      have hquote : writeEntry entry ++ (border ++ writeEntries styles) =
          '"' :: (entry.1.toList ++ '"' :: ':' :: ' ' :: '"' ::
            (entry.2.name.toList ++ '"' :: (border ++ writeEntries styles))) := by
        simp [writeEntry, inQuotes]
      rw [heq, hquote, pairs_cons rfl, pairs_of_pairAt? hentry, hpassed, ih hids.2, List.map_cons]

/-! ### The block -/

/-- A theme is read as it was written. -/
theorem themeAt?_inQuotes {theme : String} (htheme : IsRun isTokenChar theme.toList)
    (rest : List Char) :
    themeAt? ("theme\": ".toList ++ (inQuotes theme ++ rest)) = some theme.toList := by
  have hrun : run? isTokenChar (theme.toList ++ '"' :: rest) = some (theme.toList, '"' :: rest) :=
    run?_append htheme (by rintro c ⟨⟩; rfl)
  have hcolon := @afterColon?_quote '"' rfl (theme.toList ++ '"' :: rest)
  simp [themeAt?, strip?, inQuotes, hcolon, dropQuote, hrun]

/-- The map behind the key goes up to the first brace. -/
theorem stylesAt?_append {behind inside rest : List Char} (hopen : '{' ∉ inside)
    (hclose : '}' ∉ inside) (h : afterColon? behind = some ('{' :: (inside ++ '}' :: rest))) :
    stylesAt? ("styles".toList ++ behind) = some inside := by
  have htake : (inside ++ '}' :: rest).takeWhile (fun c => c != '{' && c != '}') = inside := by
    apply takeWhile_run
    · intro c hc
      have hne := ne_of_mem_of_not_mem hc hopen
      have hne' := ne_of_mem_of_not_mem hc hclose
      simp [hne, hne']
    · rintro c ⟨⟩
      rfl
  rw [stylesAt?, strip?_append]
  simp [h, strip?, htake]

/-- A map without braces in it is read up to its closing brace. -/
theorem stylesAt?_map {inside : List Char} (hopen : '{' ∉ inside) (hclose : '}' ∉ inside)
    (rest : List Char) :
    stylesAt? ("styles\": \x7b".toList ++ (inside ++ '}' :: rest)) = some inside :=
  stylesAt?_append hopen hclose (@afterColon?_quote '{' rfl (inside ++ '}' :: rest))

theorem firstAt?_of_eq_some {read : List Char → Option α} {cs : List Char} {a : α}
    (h : read cs = some a) : firstAt? read cs = some a := by
  cases cs with
  | nil => exact h
  | cons c cs => rw [firstAt?, h, Option.some_or]

/-- The first theme of the block is the one that is written: the `t` of the word in front of it
begins no key. -/
theorem firstAt?_themeAt?_writeBody {theme : String} (htheme : IsRun isTokenChar theme.toList)
    (styles : Overrides) :
    firstAt? themeAt? (writeBody theme styles) = some theme.toList := by
  have hinit : ∀ cs, firstAt? themeAt? ("init: \x7b\"".toList ++ cs) = firstAt? themeAt? cs :=
    fun _ => rfl
  unfold writeBody
  rw [hinit, firstAt?_of_eq_some (themeAt?_inQuotes htheme _)]

/-- The first styles map of the block is the one that is written, even if the theme is named
`styles`. -/
theorem firstAt?_stylesAt?_writeBody {theme : String} {styles : Overrides}
    (htheme : IsRun isTokenChar theme.toList)
    (hopen : '{' ∉ writeEntries styles) (hclose : '}' ∉ writeEntries styles) :
    firstAt? stylesAt? (writeBody theme styles) = some (writeEntries styles) := by
  have hinit : ∀ cs, firstAt? stylesAt? ("init: \x7b\"".toList ++ cs) = firstAt? stylesAt? cs :=
    fun _ => rfl
  have hkey : ∀ cs, firstAt? stylesAt? ("theme\": ".toList ++ '"' :: cs) = firstAt? stylesAt? cs :=
    fun _ => rfl
  have hborder : ∀ cs, firstAt? stylesAt? (theme.toList ++ (['"'] ++ (", \"".toList ++ cs))) =
      firstAt? stylesAt? cs :=
    fun cs => firstAt?_stylesAt?_name (isRun_id htheme).all (' ' :: '"' :: cs)
  have hstyles := firstAt?_of_eq_some (stylesAt?_map hopen hclose ['}'])
  unfold writeBody
  rw [hinit, inQuotes, List.cons_append, List.cons_append, hkey, List.append_assoc, hborder]
  exact hstyles

/-- The body of a block holds no marks but those around names. -/
theorem not_mem_writeBody {theme : String} {styles : Overrides} (h : Writable theme styles)
    {mark : Char} (hmark : isIdChar mark = false) (haround : mark ∉ "\": ,\x7b\x7d".toList) :
    mark ∉ writeBody theme styles := by
  have hfixed : ∀ piece : List Char,
      (piece.all fun c => isIdChar c || "\": ,\x7b\x7d".toList.contains c) → mark ∉ piece := by
    intro piece hpiece hc
    have hin := List.all_eq_true.mp hpiece mark hc
    rw [hmark, Bool.false_or, List.contains_iff_mem] at hin
    exact haround hin
  have htheme : mark ∉ inQuotes theme := by
    apply not_mem_inQuotes
    · exact fun hquote => haround (hquote ▸ by decide)
    · exact (isRun_id h.theme).not_mem hmark
  have hentries : mark ∉ writeEntries styles := by
    have hsub : "\": ,".toList ⊆ "\": ,\x7b\x7d".toList := by decide
    exact not_mem_writeEntries h.ids hmark fun hc => haround (hsub hc)
  unfold writeBody
  simp only [List.mem_append, not_or]
  exact ⟨hfixed _ rfl, hfixed _ rfl, htheme, hfixed _ rfl, hfixed _ rfl, hentries, hfixed _ rfl⟩

/-- A block without a percent sign in it is read where it begins a text. -/
theorem block?_of_not_mem {body : List Char} (h : '%' ∉ body) (rest : List Char) :
    block? (opening ++ body ++ closing ++ rest) = some ⟨[], body, rest⟩ := by
  have hclosing : ¬ closing <:+: body := fun hin => h (hin.subset (by decide))
  rw [block?_iff_cuts]
  refine ⟨body ++ closing ++ rest, ?_, cut?_append (by decide) hclosing⟩
  rw [List.append_assoc, List.append_assoc, ← List.append_assoc _ closing]
  exact cut?_append_self (by decide) _

/-- A block that is written at the beginning of a text is the one that is read. -/
theorem block?_write {theme : String} {styles : Overrides} (h : Writable theme styles)
    (rest : List Char) :
    block? (write theme styles ++ rest) = some ⟨[], writeBody theme styles, rest⟩ :=
  block?_of_not_mem (not_mem_writeBody h rfl (by decide)) rest

/-! ### The styles -/

/-- A category is read from its own name. -/
theorem parse_name (category : Category) : Category.parse category.name = .ok category := by
  cases category <;> decide

/-- An entry for a new id becomes an override. -/
theorem addPair_of_not_mem {m : Overrides} {entry : String × Category}
    (h : entry.1 ∉ m.map Prod.fst) :
    addPair m (entry.1.toList, entry.2.name.toList) = m ++ [entry] := by
  simp only [addPair, String.ofList_toList, parse_name, Overrides.insert_of_not_mem h]

/-- As the ids are distinct, no entry takes the place of another. -/
theorem foldl_addPair {m styles : Overrides} (h : ((m ++ styles).map Prod.fst).Nodup) :
    (styles.map fun entry => (entry.1.toList, entry.2.name.toList)).foldl addPair m =
      m ++ styles := by
  induction styles generalizing m with
  | nil => simp
  | cons entry styles ih =>
      have hentry : entry.1 ∉ m.map Prod.fst := by
        rw [List.map_append, List.map_cons, List.perm_middle.nodup_iff, List.nodup_cons] at h
        exact fun hm => h.1 (List.mem_append_left _ hm)
      rw [List.append_cons] at h ⊢
      rw [List.map_cons, List.foldl_cons, addPair_of_not_mem hentry, ih h]

/-- What is written in a block is what the text says: the theme, and the styles in whatever order
their entries are written. -/
theorem ofText_write {theme : String} {styles entries : Overrides} (h : Writable theme styles)
    (horder : entries.Perm styles) (rest : List Char) :
    let directive := ofText (write theme entries ++ rest)
    directive = { theme := some theme, overrides := entries } ∧
      ∀ id, directive.overrides.get? id = styles.get? id := by
  have hentries := h.of_perm horder
  have hopen : '{' ∉ writeEntries entries := not_mem_writeEntries hentries.ids rfl (by decide)
  have hclose : '}' ∉ writeEntries entries := not_mem_writeEntries hentries.ids rfl (by decide)
  have heq : ofText (write theme entries ++ rest) =
      { theme := some theme, overrides := entries } := by
    rw [ofText, block?_write hentries]
    dsimp only
    rw [ofBody, firstAt?_themeAt?_writeBody h.theme,
      firstAt?_stylesAt?_writeBody h.theme hopen hclose, Option.getD_some,
      pairs_writeEntries hentries.ids, @foldl_addPair [] _ hentries.ids_nodup,
      Option.map_some, String.ofList_toList, List.nil_append]
  intro directive
  refine ⟨heq, fun id => ?_⟩
  rw [show directive = _ from heq]
  exact Overrides.get?_eq_of_perm horder hentries.ids_nodup id

/-- A theme and ids that are keys themselves, written in another order, with a second block behind.
-/
theorem ofText_write_keys :
    let styles : Overrides := [("init", .db), ("styles", .ui), ("theme.styles", .orchestrator)]
    let entries : Overrides := [("styles", .ui), ("theme.styles", .orchestrator), ("init", .db)]
    let rest := "\n%%\x7binit: \x7b\"theme\": \"dark\"\x7d\x7d%%\ngraph TD".toList
    let directive := ofText (write "styles" entries ++ rest)
    String.ofList (write "styles" entries) =
        "%%\x7binit: \x7b\"theme\": \"styles\", \"styles\": \x7b\"styles\": \"ui\", " ++
          "\"theme.styles\": \"orchestrator\", \"init\": \"db\"\x7d\x7d\x7d%%" ∧
      directive = { theme := some "styles", overrides := entries } ∧
        ∀ id, directive.overrides.get? id = styles.get? id := by
  intro styles entries rest
  have hstyles : Writable "styles" styles := {
    theme := by decide
    ids := by decide
    ids_nodup := by decide }
  have horder : entries.Perm styles := by decide
  exact ⟨by decide, ofText_write hstyles horder rest⟩

end Directive

end Whiteboard
