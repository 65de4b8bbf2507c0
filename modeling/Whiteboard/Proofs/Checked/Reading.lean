import Whiteboard.Proofs.Checked.Cursor
import Whiteboard.Proofs.Flowchart.Written

/-!
Reading a flowchart line by positions.

At any position of any line each reading gives what the reader of the rest of the line gives, and
leaves the cursor where that reader's rest begins (`run_facing`); so no access is outside the line,
and no chain of hops stands still.
-/

namespace Whiteboard.Checked.Cursor

open Text Flowchart Flowchart.Reading

variable {line rest cs taken closing : List Char} {ch : Char} {α : Type}

/-! ### Ids, directions and labels -/

theorem id_facing (h : rest <:+ line) :
    (facing line rest).id =
      answer line (found rest ((id? rest).map fun (id, rest) => (String.ofList id, rest))) := by
  rw [Cursor.id, isAtEnd_facing h]
  cases rest with
  | nil => rfl
  | cons ch cs =>
      rw [if_neg (by simp), line_facing, read_facing h, pure_bind, id?]
      by_cases hid : isIdChar ch = true
      · have hcut : ch :: (idTail cs).1 ++ (idTail cs).2 = ch :: cs := by
          rw [List.cons_append, idTail_append]
        rw [if_pos hid, if_pos hid, advance_facing_cons h, skipId_facing (suffix_of_cons h),
          pure_bind, upTo_facing h hcut]
        rfl
      · rw [if_neg hid, if_neg hid]
        rfl

theorem direction_facing (h : rest <:+ line) :
    (facing line rest).direction = answer line (found rest (direction? rest)) := by
  rw [direction, skip_facing _ h, pure_bind, upTo_facing h List.takeWhile_append_dropWhile,
    pure_bind, direction?]
  cases Direction.ofToken? (rest.takeWhile Char.isAlpha) <;> rfl

/-- A quoted text is read to its end, or to the end of the line. -/
theorem quotedTail_facing (h : rest <:+ line) :
    (facing line rest).quotedTail = answer line (Flowchart.quotedTail rest) := by
  fun_induction Flowchart.quotedTail rest with
  | case1 =>
      rw [quotedTail, line_facing, dif_neg not_facing_nil_lt]
      rfl
  | case2 cs =>
      rw [quotedTail, line_facing, dif_pos (facing_lt h), read_facing h, pure_bind, if_pos rfl,
        advance_facing_cons h]
      rfl
  | case3 ch cs text rest' htail ih =>
      have hnext := suffix_of_cons h
      have hlt : (facing line ('\\' :: ch :: cs)).position + 1 < line.length := by
        have hstep := congrArg Cursor.position (advance_facing_cons h)
        have hlt := facing_lt hnext
        rwa [← hstep] at hlt
      have hread : read line ((facing line ('\\' :: ch :: cs)).position + 1) = pure ch :=
        read_of_getElem? (getElem?_facing h 1)
      have hstep : (facing line ('\\' :: ch :: cs)).advance 2 = facing line cs :=
        advance_facing (show ['\\', ch] ++ cs <:+ line from h)
      rw [quotedTail, line_facing, dif_pos (facing_lt h), read_facing h, pure_bind,
        if_neg (by decide), if_pos ⟨rfl, hlt⟩, hread, pure_bind, hstep, ih (suffix_of_cons hnext),
        answer_bind, htail]
      rfl
  | case4 ch cs hquote hslash text rest' htail ih =>
      have hsingle : ¬ (ch = '\\' ∧ (facing line (ch :: cs)).position + 1 < line.length) := by
        rintro ⟨rfl, hlt⟩
        cases cs with
        | nil => simp [facing] at hlt; omega
        | cons ch cs => exact hslash ch cs rfl rfl
      rw [quotedTail, line_facing, dif_pos (facing_lt h), read_facing h, pure_bind,
        if_neg hquote, if_neg hsingle, advance_facing_cons h, ih (suffix_of_cons h), answer_bind,
        htail]
      rfl

theorem isAtQuote_facing (h : rest <:+ line) :
    (facing line rest).isAtQuote = pure (rest.head? == some '"') := by
  cases rest with
  | nil => rw [isAtQuote, line_facing, if_neg not_facing_nil_lt]; rfl
  | cons ch cs =>
      rw [isAtQuote, line_facing, if_pos (facing_lt h), read_facing h]
      rfl

theorem quoted_facing (h : rest <:+ line) :
    (facing line rest).quoted =
      answer line (found rest
        ((quoted? rest).map fun (text, rest) => (String.ofList text, rest))) := by
  rw [quoted, isAtQuote_facing h, pure_bind]
  by_cases hquote : rest.head? = some '"'
  · obtain ⟨cs, rfl⟩ := List.head?_eq_some_iff.mp hquote
    rw [if_pos (by simp), advance_facing_cons h, quotedTail_facing (suffix_of_cons h)]
    rfl
  · rw [if_neg (by simpa using hquote), quoted?_of_ne hquote]
    rfl

/-- A label is read up to its closing, or to the end of the line. -/
theorem label_facing (h : rest <:+ line) :
    (facing line rest).label closing =
      answer line (String.ofList (Flowchart.label closing rest).1,
        (Flowchart.label closing rest).2) := by
  have hgap := (skipGap_suffix rest).trans h
  rw [label, skipGap_facing h, pure_bind, isAtQuote_facing hgap, pure_bind, Flowchart.label]
  generalize skipGap rest = rest at hgap
  by_cases hquote : rest.head? = some '"'
  · obtain ⟨cs, rfl⟩ := List.head?_eq_some_iff.mp hquote
    have htail := suffix_of_cons hgap
    rw [if_pos (by simp), advance_facing_cons hgap, quotedTail_facing htail, answer_bind]
    dsimp only
    rw [skipGap_facing ((quotedTail_suffix cs).trans htail)]
    rfl
  · rw [if_neg (by simpa using hquote), skipTo_facing hgap, pure_bind,
      upTo_facing hgap (eq_append_upTo closing rest).symm, quoted?_of_ne hquote]
    rfl

/-! ### References -/

def bracketed? (rest : List Char) (b : Bracket) : Option (Definition × List Char) := do
  let rest ← strip? b.opening rest
  let (text, rest) := Flowchart.label b.closing rest
  some (⟨b.shape, String.ofList text⟩, (strip? b.closing rest).getD rest)

theorem definitionIn_facing (h : rest <:+ line) (bs : List Bracket) :
    (facing line rest).definitionIn bs =
      answer line (found rest (bs.findSome? (bracketed? rest))) := by
  induction bs with
  | nil => rfl
  | cons b bs ih =>
      rw [definitionIn, take_facing h, answer_bind, List.findSome?_cons, bracketed?]
      cases hopening : strip? b.opening rest with
      | none => exact ih
      | some inside =>
          have hinside := (strip?_suffix hopening).trans h
          have hlabel := (label_suffix b.closing inside).trans hinside
          dsimp only
          rw [if_pos rfl, label_facing hinside, answer_bind]
          dsimp only
          rw [take_facing hlabel]
          cases hclosing : strip? b.closing (Flowchart.label b.closing inside).2 <;>
            simp [answer, found, hclosing]

theorem definition_facing (h : rest <:+ line) :
    (facing line rest).definition = answer line (found rest (definition? rest)) :=
  definitionIn_facing h brackets

theorem reference_facing (h : rest <:+ line) :
    (facing line rest).reference = answer line (found (skipGap rest) (reference? rest)) := by
  have hgap := (skipGap_suffix rest).trans h
  rw [reference, skipGap_facing h, pure_bind, id_facing hgap, answer_bind, reference?]
  cases hid : id? (skipGap rest) with
  | none => rfl
  | some pair =>
      obtain ⟨id, rest'⟩ := pair
      have hid : rest' <:+ line := List.IsSuffix.trans ⟨id, (id?_append hid).1⟩ hgap
      dsimp only [Option.map_some, found]
      rw [definition_facing hid, answer_bind, Option.bind_eq_bind, Option.bind_some]
      dsimp only
      cases definition? rest' <;> rfl

/-! ### Connectors -/

/-- A token is taken whole or not at all. -/
theorem tokenOf_facing (h : rest <:+ line) (tokens : List (List Char × α)) :
    (facing line rest).tokenOf tokens = answer line (found rest (token? tokens rest)) := by
  induction tokens with
  | nil => rfl
  | cons pair tokens ih =>
      obtain ⟨token, a⟩ := pair
      rw [tokenOf, take_facing h, answer_bind, token?, List.findSome?_cons]
      dsimp only
      cases strip? token rest with
      | none => exact ih
      | some rest' => rfl

theorem connector_facing (h : rest <:+ line) :
    (facing line rest).connector = answer line (found (skipGap rest) (connector? rest)) := by
  rw [connector, skipGap_facing h, pure_bind]
  exact tokenOf_facing ((skipGap_suffix rest).trans h) connectors

/-- The bar that ends a run of other characters, if the line does not end before. -/
theorem strip?_bar_dropWhile (cs : List Char) :
    (strip? ['|'] (cs.dropWhile (· != '|'))).getD (cs.dropWhile (· != '|')) =
      (cs.dropWhile (· != '|')).drop 1 := by
  have hhead := List.head?_dropWhile_not (· != '|') cs
  cases hdrop : cs.dropWhile (· != '|') with
  | nil => rfl
  | cons ch rest =>
      rw [hdrop] at hhead
      have hbar : ch = '|' := by simpa using hhead
      simp [strip?, hbar]

theorem barLabel?_of_ne (hbar : (skipGap rest).head? ≠ some '|') : barLabel? rest = none := by
  unfold barLabel?
  split
  next hrest => exact absurd (congrArg List.head? hrest) hbar
  · rfl

theorem barLabel_facing (h : rest <:+ line) :
    (facing line rest).barLabel =
      answer line (found (skipGap rest)
        ((barLabel? rest).map fun (text, rest) => (String.ofList text, rest))) := by
  have hgap := (skipGap_suffix rest).trans h
  rw [barLabel, skipGap_facing h, pure_bind, take_facing hgap, answer_bind]
  by_cases hbar : (skipGap rest).head? = some '|'
  · obtain ⟨cs, hrest⟩ := List.head?_eq_some_iff.mp hbar
    have hlabel : barLabel? rest =
        some (normalizeBreaks (Text.unquote (cs.takeWhile (· != '|'))),
          (cs.dropWhile (· != '|')).drop 1) := by
      rw [barLabel?, hrest]
      rfl
    rw [hrest] at hgap
    have htail := suffix_of_cons hgap
    have hdrop := (List.dropWhile_suffix (· != '|') (l := cs)).trans htail
    have hopen : strip? ['|'] ('|' :: cs) = some cs := strip?_append ['|'] cs
    rw [hlabel, hrest, hopen, Option.map_some]
    dsimp only
    rw [if_pos rfl, skip_facing _ htail, pure_bind,
      upTo_facing htail List.takeWhile_append_dropWhile, pure_bind, take_facing hdrop, answer_bind]
    dsimp only
    rw [unquote_eq, pure_bind, ← strip?_bar_dropWhile cs]
    cases strip? ['|'] (cs.dropWhile (· != '|')) <;> rfl
  · have hnone : strip? ['|'] (skipGap rest) = none := by
      cases hstrip : strip? ['|'] (skipGap rest) with
      | none => rfl
      | some cs => exact absurd (congrArg List.head? (strip?_eq_some.mp hstrip)) hbar
    rw [hnone, barLabel?_of_ne hbar]
    rfl

/-- A text is looked for from a place behind its beginning on. -/
theorem closedBy_facing {start : List Char} (closings : List (List Char × Connector))
    (hstart : start <:+ line) (hcut : taken ++ rest = start) :
    closedBy closings (facing line start) (facing line rest) =
      answer line (found [] ((closedBy? closings rest).map fun (text, k, rest) =>
        ((taken ++ text, k), rest))) := by
  induction rest generalizing taken with
  | nil =>
      rw [closedBy, line_facing, dif_neg not_facing_nil_lt]
      rfl
  | cons ch cs ih =>
      have h : ch :: cs <:+ line := List.IsSuffix.trans ⟨taken, hcut⟩ hstart
      rw [closedBy, line_facing, dif_pos (facing_lt h), tokenOf_facing h, answer_bind, closedBy?]
      cases token? closings (ch :: cs) with
      | some pair =>
          dsimp only [found]
          rw [upTo_facing hstart hcut]
          simp [answer]
      | none =>
          have hcut' : (taken ++ [ch]) ++ cs = start := by simpa using hcut
          dsimp only [found]
          rw [advance_facing_cons h, ih hcut']
          cases closedBy? closings cs <;> simp [answer, found]

def inlined? (rest : List Char) (form : InlineForm) :
    Option ((Connector × List Char) × List Char) := do
  let rest ← strip? form.opening rest
  if rest.head?.any isBlank then
    let (text, k, rest) ← closedBy? form.closings rest
    some ((k, normalizeBreaks (Text.unquote text)), rest)
  else none

theorem inlineLabelIn_facing (h : rest <:+ line) (forms : List InlineForm)
    (hforms : ∀ form ∈ forms, form.opening.length = 2) :
    (facing line rest).inlineLabelIn forms =
      answer line (found rest ((forms.findSome? (inlined? rest)).map fun ((k, text), rest) =>
        ((k, String.ofList text), rest))) := by
  induction forms with
  | nil => rfl
  | cons form forms ih =>
      have ih := ih fun f hf => hforms f (List.mem_cons_of_mem form hf)
      rw [inlineLabelIn, sees_facing h, pure_bind, line_facing, getElem?_facing h,
        List.findSome?_cons, inlined?]
      cases hopening : strip? form.opening rest with
      | none => exact ih
      | some inside =>
          have hinside := (strip?_suffix hopening).trans h
          obtain rfl := strip?_eq_some.mp hopening
          have hlength := hforms form List.mem_cons_self
          have hstep : (facing line (form.opening ++ inside)).advance 2 = facing line inside := by
            rw [← hlength, advance_facing h]
          have hnext : (form.opening ++ inside)[2]? = inside.head? := by
            rw [List.getElem?_append_right (by omega), hlength]
            cases inside <;> rfl
          rw [hnext, hstep, Option.bind_eq_bind, Option.bind_some]
          by_cases hspaced : inside.head?.any isBlank = true
          · rw [if_pos (by simp [hspaced]), if_pos hspaced]
            dsimp only
            rw [closedBy_facing form.closings hinside (List.nil_append inside), answer_bind]
            cases hclosed : closedBy? form.closings inside with
            | none => simpa [found] using ih
            | some triple => simp [found, answer, unquote_eq]
          · rw [if_neg (by simp [hspaced]), if_neg hspaced]
            exact ih

theorem inlineLabel_facing (h : rest <:+ line) :
    (facing line rest).inlineLabel =
      answer line (found (skipGap rest) ((inlineLabel? rest).map fun ((k, text), rest) =>
        ((k, String.ofList text), rest))) := by
  rw [inlineLabel, skipGap_facing h, pure_bind]
  exact inlineLabelIn_facing ((skipGap_suffix rest).trans h) inlineForms (by decide)

/-! ### Chains -/

theorem filter_ofList (text : List Char) :
    (some (String.ofList text)).filter (!·.isEmpty) = link?.labelOf text := by
  rw [link?.labelOf]
  cases text <;> simp

/-- A link leaves the cursor where the reader's rest begins, or behind a gap there. -/
theorem link_facing (h : rest <:+ line) :
    ∃ stop, stop <:+ line ∧
      (facing line rest).link = answer line ((link? rest).map Prod.fst, stop) ∧
      ∀ pair, link? rest = some pair → skipGap stop = skipGap pair.2 := by
  rw [link, connector_facing h, answer_bind, link?]
  cases hconnector : connector? rest with
  | some pair =>
      obtain ⟨k, rest'⟩ := pair
      have hrest := (connector?_suffix hconnector).trans h
      dsimp only [found]
      rw [barLabel_facing hrest, answer_bind]
      cases hlabel : barLabel? rest' with
      | some pair =>
          obtain ⟨text, stop⟩ := pair
          refine ⟨stop, (barLabel?_suffix hlabel).trans hrest, ?_, ?_⟩
          · simp [answer, found, filter_ofList]
          · rintro pair hpair
            cases hpair
            rfl
      | none =>
          refine ⟨skipGap rest', (skipGap_suffix rest').trans hrest, ?_, ?_⟩
          · simp [answer, found]
          · rintro pair hpair
            cases hpair
            exact skipGap_skipGap rest'
  | none =>
      have hgap := (skipGap_suffix rest).trans h
      have hinline : inlineLabel? (skipGap rest) = inlineLabel? rest := by
        rw [inlineLabel?, inlineLabel?, skipGap_skipGap]
      dsimp only [found]
      rw [inlineLabel_facing hgap, answer_bind, hinline, skipGap_skipGap]
      cases hlabel : inlineLabel? rest with
      | some pair =>
          obtain ⟨⟨k, text⟩, stop⟩ := pair
          refine ⟨stop, (inlineLabel?_suffix hlabel).trans h, ?_, ?_⟩
          · simp only [answer, found, Option.map_some, filter_ofList]
          · rintro pair hpair
            cases hpair
            rfl
      | none =>
          refine ⟨skipGap rest, hgap, rfl, ?_⟩
          rintro pair hpair
          cases hpair

theorem reference?_skipGap {cs cs' : List Char} (h : skipGap cs = skipGap cs') :
    reference? cs = reference? cs' := by
  rw [reference?, reference?, h]

theorem sub_facing (h : rest <:+ line) :
    line.length - (facing line rest).position = rest.length := by
  have := h.length_le
  simp only [facing]
  omega

/-- No hop is finished at a cursor: there is no link, or no reference behind it. -/
def StopsAt (c : Cursor) : Prop :=
  (∃ next, c.link = pure (none, next)) ∨
    ∃ link middle next, c.link = pure (some link, middle) ∧ middle.reference = pure (none, next)

theorem stopsAt_facing (h : rest <:+ line) (hhop : hop? rest = none) :
    StopsAt (facing line rest) := by
  obtain ⟨stop, hstop, hlink, hgap⟩ := link_facing h
  cases hfound : link? rest with
  | none =>
      rw [hfound] at hlink
      exact .inl ⟨facing line stop, hlink⟩
  | some pair =>
      have href : reference? stop = none := by
        rw [reference?_skipGap (hgap pair hfound)]
        rw [hop?, hfound, Option.bind_eq_bind, Option.bind_some] at hhop
        exact Option.eq_none_iff_forall_ne_some.mpr fun found href => by simp [href] at hhop
      rw [hfound] at hlink
      refine .inr ⟨pair.1, facing line stop, facing line (skipGap stop), hlink, ?_⟩
      rw [reference_facing hstop, href]
      rfl

/-- A hop that is read is a link with a reference behind it. -/
theorem hop_facing (h : rest <:+ line) {p : Hop} {rest' : List Char}
    (hhop : hop? rest = some (p, rest')) :
    ∃ middle, (facing line rest).link = pure (some (p.connector, p.label), middle) ∧
      middle.reference = pure (some p.target, facing line rest') := by
  obtain ⟨stop, hstop, hlink, hgap⟩ := link_facing h
  simp only [hop?, Option.bind_eq_bind, Option.bind_eq_some_iff, Prod.exists, Option.some.injEq,
    Prod.mk.injEq] at hhop
  obtain ⟨k, label, r, hfound, target, r', href, rfl, rfl⟩ := hhop
  rw [hfound] at hlink
  refine ⟨facing line stop, hlink, ?_⟩
  rw [reference_facing hstop, reference?_skipGap (hgap _ hfound), href]
  rfl

/-- Where no hop is finished, the chain is at its end. -/
theorem chain_of_stopsAt {c : Cursor} (h : StopsAt c) : c.chain = pure ([], c) := by
  rcases h with ⟨next, hlink⟩ | ⟨link, middle, next, hlink, href⟩
  · rw [chain, hlink]
    rfl
  · rw [chain, hlink, pure_bind]
    dsimp only
    rw [href]
    rfl

/-- A chain is read without an overrun. -/
theorem chain_facing (h : rest <:+ line) :
    (facing line rest).chain = answer line (Flowchart.chain rest) := by
  fun_induction Flowchart.chain rest with
  | case1 cs hhop => exact chain_of_stopsAt (stopsAt_facing h hhop)
  | case2 cs p rest' hhop hops rest'' hchain ih =>
      obtain ⟨hrest, hlt⟩ := hop?_suffix hhop
      obtain ⟨middle, hlink, href⟩ := hop_facing h hhop
      rw [chain, hlink, pure_bind]
      dsimp only
      rw [href, pure_bind]
      dsimp only
      rw [dif_pos (by simpa [sub_facing h, sub_facing (hrest.trans h)] using hlt),
        ih (hrest.trans h), answer_bind, hchain]
      rfl

/-! ### All readings -/

/-- Whether something was found or not, the cursor stays in the line. -/
theorem found_suffix {stay : List Char} {found? : Option (α × List Char)} (hstay : stay <:+ rest)
    (h : ∀ a cs, found? = some (a, cs) → cs <:+ rest) : (found stay found?).2 <:+ rest := by
  cases found? with
  | none => exact hstay
  | some pair => exact h pair.1 pair.2 rfl

theorem found_map_suffix {β : Type} {stay : List Char} {found? : Option (α × List Char)}
    {f : α × List Char → β × List Char} (hf : ∀ pair, (f pair).2 = pair.2) (hstay : stay <:+ rest)
    (h : ∀ a cs, found? = some (a, cs) → cs <:+ rest) :
    (found stay (found?.map f)).2 <:+ rest := by
  refine found_suffix hstay fun a cs heq => ?_
  obtain ⟨pair, hpair, hap⟩ := Option.map_eq_some_iff.mp heq
  have hcs : cs = pair.2 := by rw [← hf, hap]
  exact hcs ▸ h pair.1 pair.2 hpair

/-- What a reading leaves is a rest of what it is given. -/
theorem run_suffix (r : Reading) (rest : List Char) : (r.run rest).2 <:+ rest := by
  have hrefl := List.suffix_refl rest
  have hgap := skipGap_suffix rest
  cases r with
  | atEnd => exact hrefl
  | sees token => exact hrefl
  | take token =>
      rw [Reading.run]
      cases hstrip : strip? token rest with
      | none => exact hrefl
      | some rest' => exact strip?_suffix hstrip
  | gap => exact hgap
  | id => exact found_map_suffix (fun _ => rfl) hrefl fun a cs h => ⟨a, (id?_append h).1⟩
  | direction =>
      refine found_suffix hrefl fun a cs h => ?_
      obtain ⟨d, -, hd⟩ := Option.map_eq_some_iff.mp h
      cases hd
      exact List.dropWhile_suffix Char.isAlpha
  | quoted => exact found_map_suffix (fun _ => rfl) hrefl fun a cs h => quoted?_suffix h
  | label closing => exact label_suffix closing rest
  | definition => exact found_suffix hrefl fun a cs h => definition?_suffix h
  | reference => exact found_suffix hgap fun a cs h => (reference?_suffix h).1
  | connector => exact found_suffix hgap fun a cs h => connector?_suffix h
  | barLabel => exact found_map_suffix (fun _ => rfl) hgap fun a cs h => barLabel?_suffix h
  | inlineLabel => exact found_map_suffix (fun _ => rfl) hgap fun a cs h => inlineLabel?_suffix h
  | chain => exact chain_suffix rest

/-- At any position of any line a reading gives what the reader of the rest gives. -/
theorem run_facing (r : Reading) (h : rest <:+ line) :
    (facing line rest).run r = answer line (r.run rest) := by
  cases r with
  | atEnd =>
      rw [run, isAtEnd_facing h]
      rfl
  | sees token =>
      rw [run, sees_facing h]
      rfl
  | take token => exact take_facing h
  | gap =>
      rw [run, skipGap_facing h]
      rfl
  | id => exact id_facing h
  | direction => exact direction_facing h
  | quoted => exact quoted_facing h
  | label closing => exact label_facing h
  | definition => exact definition_facing h
  | reference => exact reference_facing h
  | connector => exact connector_facing h
  | barLabel => exact barLabel_facing h
  | inlineLabel => exact inlineLabel_facing h
  | chain => exact chain_facing h

end Whiteboard.Checked.Cursor
