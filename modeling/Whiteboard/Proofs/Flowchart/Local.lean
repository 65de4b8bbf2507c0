import Whiteboard.Proofs.Flowchart.Written

/-!
How far the readers of a path look ahead.

A reader leaves a rest of the line. If two characters stand in that rest which no piece begins or
goes on with, then what was read in front of them does not hang on what stands behind them
(`Local`): a token that is tried earlier is at most two characters longer than the one that is
found, and an id, a label or a gap ends in front of such a mark. So the mention of a node that ends
in front of a mark is read on every line that is the same up to there (`local_reference?`).
-/

namespace Whiteboard.Flowchart

open Text

/-- Two characters that end whatever is read in front of them. -/
structure IsMark (c d : Char) : Prop where
  gap : isGap c = false
  blank : isBlank c = false
  idChar : isIdChar c = false
  quote : c ≠ '"'
  bar : c ≠ '|'
  /-- A hyphen in front of it belongs to no id. -/
  behind : isIdChar d = false

/-- What a reader reads in front of two characters does not hang on what stands behind them. -/
def Local {β : Type} (c d : Char) (read : List Char → Option (β × List Char)) : Prop :=
  ∀ ⦃front back : List Char⦄ ⦃x : β⦄ ⦃rest : List Char⦄,
    read (front ++ c :: d :: back) = some (x, rest ++ c :: d :: back) →
      ∀ back', read (front ++ c :: d :: back') = some (x, rest ++ c :: d :: back')

/-! ### Tokens -/

section Token

variable {α : Type} {c d : Char} {token front back : List Char}

/-- A token that leaves more than the tail stands in front of the tail. -/
theorem eq_append_of_strip? {rest tail : List Char}
    (h : strip? token (front ++ tail) = some (rest ++ tail)) : front = token ++ rest := by
  have hline := strip?_eq_some.mp h
  rw [← List.append_assoc] at hline
  exact List.append_cancel_right hline

/-- A token reaches no further than its length. -/
theorem strip?_eq_none_behind (hlength : token.length ≤ front.length + 2)
    (h : strip? token (front ++ c :: d :: back) = none) (back' : List Char) :
    strip? token (front ++ c :: d :: back') = none := by
  rw [strip?_eq_none_iff] at h ⊢
  have hsplit : ∀ xs : List Char, front ++ c :: d :: xs = front ++ [c, d] ++ xs := by simp
  rw [hsplit] at h ⊢
  intro htoken
  refine h (List.IsPrefix.trans ?_ (List.prefix_append _ back))
  exact List.prefix_of_prefix_length_le htoken (List.prefix_append _ back') (by simpa using hlength)

/-- Tokens that end before the mark are not found for what stands behind it. -/
theorem token?_eq_none_behind {tokens : List (List Char × α)}
    (hlength : ∀ p ∈ tokens, p.1.length ≤ front.length + 2)
    (h : token? tokens (front ++ c :: d :: back) = none) (back' : List Char) :
    token? tokens (front ++ c :: d :: back') = none := by
  rw [token?, List.findSome?_eq_none_iff] at h ⊢
  intro p hp
  rw [Option.map_eq_none_iff]
  exact strip?_eq_none_behind (hlength p hp) (Option.map_eq_none_iff.mp (h p hp)) back'

/-- The token that is found is found with another rest behind it, too, if no other token comes in
there. -/
theorem token?_behind {tokens : List (List Char × α)} {rest back' : List Char} {a : α}
    (h : token? tokens (front ++ back) = some (a, rest ++ back))
    (hout : ∀ p ∈ tokens, strip? p.1 (front ++ back) = none → strip? p.1 (front ++ back') = none) :
    token? tokens (front ++ back') = some (a, rest ++ back') := by
  obtain ⟨earlier, q, later, rfl, hq, hearlier⟩ := List.findSome?_eq_some_iff.mp h
  obtain ⟨left, hstrip, heq⟩ := Option.map_eq_some_iff.mp hq
  cases heq
  rw [token?, List.findSome?_eq_some_iff]
  refine ⟨earlier, q, later, rfl, ?_, ?_⟩
  · have hread : strip? q.1 (front ++ back') = some (rest ++ back') := by
      rw [eq_append_of_strip? hstrip, List.append_assoc, strip?_append]
    exact congrArg (Option.map fun left => (q.2, left)) hread
  · intro p hp
    have hnone := Option.map_eq_none_iff.mp (hearlier p hp)
    exact Option.map_eq_none_iff.mpr (hout p (List.mem_append_left _ hp) hnone)

/-- Where no token is longer than another by more than two characters, none that is tried earlier
comes in if the rest changes. -/
theorem local_token? {tokens : List (List Char × α)}
    (hlength : ∀ p ∈ tokens, ∀ q ∈ tokens, p.1.length ≤ q.1.length + 2) :
    Local c d (token? tokens) := by
  intro front back a rest h back'
  obtain ⟨q, hq, hread⟩ := List.exists_of_findSome?_eq_some h
  obtain ⟨left, hstrip, heq⟩ := Option.map_eq_some_iff.mp hread
  cases heq
  have hfront : front = q.1 ++ rest := eq_append_of_strip? hstrip
  refine token?_behind h fun p hp hnone => strip?_eq_none_behind ?_ hnone back'
  have hle := hlength p hp q hq
  rw [hfront, List.length_append]
  omega

/-- A token that may be missing is there or not whatever stands behind the mark. -/
theorem getD_strip?_behind {rest : List Char} (hlength : token.length ≤ 2)
    (h : (strip? token (front ++ c :: d :: back)).getD (front ++ c :: d :: back) =
      rest ++ c :: d :: back) (back' : List Char) :
    (strip? token (front ++ c :: d :: back')).getD (front ++ c :: d :: back') =
      rest ++ c :: d :: back' := by
  cases hstrip : strip? token (front ++ c :: d :: back) with
  | none =>
      rw [hstrip, Option.getD_none] at h
      rw [strip?_eq_none_behind (by omega) hstrip, Option.getD_none, List.append_cancel_right h]
  | some left =>
      rw [hstrip, Option.getD_some] at h
      subst h
      rw [eq_append_of_strip? hstrip, List.append_assoc, strip?_append, Option.getD_some]

end Token

variable {c d : Char}

/-! ### Pieces that may be missing -/

section Optional

variable {α β γ : Type} {c d : Char} {f : List Char → Option (α × List Char)}
  {g : List Char → Option (β × List Char)}

/-- A piece and behind it another one, which may be missing. -/
def andThen? (f : List Char → Option (α × List Char)) (g : List Char → Option (β × List Char))
    (join : α → Option β → γ) (cs : List Char) : Option (γ × List Char) :=
  (f cs).map fun (a, rest) =>
    ((g rest).map fun (b, rest) => (join a (some b), rest)).getD (join a none, rest)

/-- Two pieces one after the other are local if both are. -/
theorem local_andThen? (hf : Local c d f) (hg : Local c d g)
    (hsuffix : ∀ {cs b rest}, g cs = some (b, rest) → rest <:+ cs)
    (hnone : ∀ {front back}, g (front ++ c :: d :: back) = none →
      ∀ back', g (front ++ c :: d :: back') = none)
    (join : α → Option β → γ) : Local c d (andThen? f g join) := by
  intro front back x rest h back'
  obtain ⟨⟨a, left⟩, ha, heq⟩ := Option.map_eq_some_iff.mp h
  dsimp only at heq
  rw [andThen?]
  cases hb : g left with
  | none =>
      rw [hb, Option.map_none, Option.getD_none] at heq
      obtain ⟨rfl, rfl⟩ := Prod.mk.inj heq
      rw [hf ha back', Option.map_some]
      dsimp only
      rw [hnone hb back', Option.map_none, Option.getD_none]
  | some p =>
      rw [hb, Option.map_some, Option.getD_some] at heq
      obtain ⟨rfl, hrest⟩ := Prod.mk.inj heq
      obtain ⟨middle, rfl⟩ := (List.suffix_append rest _).trans (hrest ▸ hsuffix hb)
      rw [hf ha back', Option.map_some]
      dsimp only
      rw [hg (hb.trans (congrArg some (Prod.ext rfl hrest))) back', Option.map_some,
        Option.getD_some]

end Optional

/-! ### References -/

/-- A gap is no longer if more of the text stands behind it. -/
theorem skipGap_alone {front back rest : List Char} (h : skipGap (front ++ back) = rest ++ back) :
    skipGap front = rest := by
  rw [skipGap, List.dropWhile_append] at h
  split at h
  · rename_i hnil
    have hle := (List.dropWhile_suffix isGap (l := back)).length_le
    rw [h, List.length_append] at hle
    have hrest : rest = [] := List.length_eq_zero_iff.mp (by omega)
    rw [hrest]
    exact List.isEmpty_iff.mp hnil
  · exact List.append_cancel_right h

/-- A gap that ends does so whatever stands behind what follows it. -/
theorem skipGap_append_of_cons {x : Char} {front tail : List Char} (h : skipGap front = x :: tail)
    (back : List Char) : skipGap (front ++ back) = x :: (tail ++ back) := by
  rw [skipGap, List.dropWhile_append, ← skipGap, h]
  rfl

theorem skipGap_append (mark : IsMark c d) (front back : List Char) :
    skipGap (front ++ c :: d :: back) = skipGap front ++ c :: d :: back := by
  apply dropWhile_append_of_head?
  rintro x ⟨⟩
  exact mark.gap

/-- A mark ends an id. -/
theorem idTail_append_mark (mark : IsMark c d) (front back : List Char) :
    idTail (front ++ c :: d :: back) =
      ((idTail front).1, (idTail front).2 ++ c :: d :: back) := by
  induction front with
  | nil =>
      have hstop : ¬ (isIdChar c || (c == '-' && (d :: back).head?.any isIdChar)) = true := by
        simp [mark.idChar, mark.behind]
      exact if_neg hstop
  | cons x front ih =>
      have hhead : (front ++ c :: d :: back).head?.any isIdChar = front.head?.any isIdChar := by
        cases front with
        | nil => simp [mark.idChar]
        | cons y front => rfl
      rw [List.cons_append, idTail, hhead, ih, idTail]
      split <;> rfl

theorem local_id? (mark : IsMark c d) : Local c d id? := by
  intro front back id rest h back'
  cases front with
  | nil => simp [id?, mark.idChar] at h
  | cons x front =>
      rw [List.cons_append, id?, idTail_append_mark mark] at h ⊢
      split at h
      · rename_i hx
        obtain ⟨rfl, hrest⟩ := Prod.mk.inj (Option.some.inj h)
        rw [if_pos hx, List.append_cancel_right hrest]
      · cases h

/-- A quoted label takes at least one character. -/
theorem length_quotedTail_lt {cs : List Char} (h : cs ≠ []) :
    (quotedTail cs).2.length < cs.length := by
  fun_cases quotedTail cs with
  | case1 => exact absurd rfl h
  | case2 cs => exact Nat.lt_succ_self _
  | case3 x cs text rest hrest =>
      have hle := (quotedTail_suffix cs).length_le
      rw [hrest] at hle
      exact Nat.lt_succ_of_le (Nat.le_succ_of_le hle)
  | case4 x cs _ _ text rest hrest =>
      have hle := (quotedTail_suffix cs).length_le
      rw [hrest] at hle
      exact Nat.lt_succ_of_le hle

theorem quotedTail_backslash (x : Char) (cs : List Char) :
    quotedTail ('\\' :: x :: cs) =
      ((if x == 'n' then '\n' else x) :: (quotedTail cs).1, (quotedTail cs).2) :=
  rfl

theorem quotedTail_cons {x : Char} (hquote : x ≠ '"') (hbackslash : x ≠ '\\') (cs : List Char) :
    quotedTail (x :: cs) = (x :: (quotedTail cs).1, (quotedTail cs).2) := by
  rw [quotedTail]
  · exact hquote
  · exact fun _ _ h => absurd h hbackslash

/-- A quoted label that ends in front of a rest does so whatever the rest is. -/
theorem quotedTail_behind {front back text rest : List Char} (hback : back ≠ [])
    (h : quotedTail (front ++ back) = (text, rest ++ back)) (back' : List Char) :
    quotedTail (front ++ back') = (text, rest ++ back') := by
  -- a reader that has come to the rest has gone on in it
  have hshort : ∀ {cs : List Char}, cs.length < back.length → (quotedTail cs).2 ≠ rest ++ back := by
    intro cs hlt heq
    have hle := (quotedTail_suffix cs).length_le
    rw [heq, List.length_append] at hle
    omega
  fun_induction quotedTail front generalizing text with
  | case1 =>
      have hlt := length_quotedTail_lt hback
      rw [List.nil_append] at h
      rw [h, List.length_append] at hlt
      omega
  | case2 front =>
      obtain ⟨rfl, hrest⟩ := Prod.mk.inj h
      rw [← List.append_cancel_right hrest]
      rfl
  | case3 x front _ _ _ ih =>
      rw [List.cons_append, List.cons_append, quotedTail_backslash] at h ⊢
      obtain ⟨rfl, hrest⟩ := Prod.mk.inj h
      rw [ih (Prod.ext rfl hrest)]
  | case4 x front hquote hescape _ _ _ ih =>
      by_cases hbackslash : x = '\\'
      · cases front with
        | nil =>
            obtain ⟨y, tail, rfl⟩ := List.exists_cons_of_ne_nil hback
            subst hbackslash
            have hrest : (quotedTail tail).2 = rest ++ y :: tail := congrArg Prod.snd h
            exact absurd hrest (hshort (Nat.lt_succ_self _))
        | cons y front => exact absurd rfl (hescape y front hbackslash)
      · rw [List.cons_append, quotedTail_cons hquote hbackslash] at h ⊢
        obtain ⟨rfl, hrest⟩ := Prod.mk.inj h
        rw [ih (Prod.ext rfl hrest)]

theorem getD_strip?_suffix (token cs : List Char) : (strip? token cs).getD cs <:+ cs := by
  cases h : strip? token cs with
  | none => exact List.suffix_refl _
  | some rest => exact strip?_suffix h

/-- The text up to a token and what stands behind the token, which may be missing. -/
def plainTail (closing cs : List Char) : List Char × List Char :=
  ((upTo closing cs).1, (strip? closing (upTo closing cs).2).getD (upTo closing cs).2)

/-- A text that ends with a token in front of a rest does so whatever the rest is. -/
theorem plainTail_behind {closing front back text rest : List Char} (hback : back ≠ [])
    (h : plainTail closing (front ++ back) = (text, rest ++ back)) (back' : List Char) :
    plainTail closing (front ++ back') = (text, rest ++ back') := by
  obtain ⟨rfl, hrest⟩ := Prod.mk.inj h
  rcases upTo_cases closing (front ++ back) with hnil | ⟨left, hleft⟩
  · have hsuffix : rest ++ back <:+ [] := by
      rw [← hrest, ← hnil]
      exact getD_strip?_suffix closing _
    exact absurd (List.append_eq_nil_iff.mp (List.eq_nil_of_suffix_nil hsuffix)).2 hback
  · rw [hleft, strip?_append, Option.getD_some] at hrest
    subst hrest
    -- the token stands in front of the rest
    have hfront : front = (upTo closing (front ++ back)).1 ++ (closing ++ rest) := by
      have hsplit := eq_append_upTo closing (front ++ back)
      rw [hleft, ← List.append_assoc, ← List.append_assoc] at hsplit
      rw [← List.append_assoc]
      exact List.append_cancel_right hsplit
    have hread : upTo closing (front ++ back') =
        ((upTo closing (front ++ back)).1, closing ++ (rest ++ back')) := by
      conv => lhs; rw [hfront, List.append_assoc, List.append_assoc]
      exact upTo_append (Prod.ext rfl hleft) _
    rw [plainTail, hread, strip?_append, Option.getD_some]

/-- What a label is read as, and what is left behind its closing bracket, which may be missing. -/
def enclosed (closing cs : List Char) : List Char × List Char :=
  ((label closing cs).1, (strip? closing (label closing cs).2).getD (label closing cs).2)

/-- A quoted label ends at its quote, whatever the brackets. -/
theorem label_of_quoted? {closing cs text rest : List Char}
    (h : quoted? (skipGap cs) = some (text, rest)) :
    label closing cs = (normalizeBreaks text, skipGap rest) := by
  simp only [label, h]

/-- A plain label is trimmed and ends at its bracket. -/
theorem label_of_quoted?_eq_none {closing cs : List Char} (h : quoted? (skipGap cs) = none) :
    label closing cs =
      (normalizeBreaks (trim (upTo closing (skipGap cs)).1), (upTo closing (skipGap cs)).2) := by
  simp only [label, h]

theorem local_enclosed (mark : IsMark c d) {closing : List Char} (hlength : closing.length ≤ 2) :
    Local c d fun cs => some (enclosed closing cs) := by
  intro front back text rest h back'
  obtain ⟨htext, hrest⟩ := Prod.mk.inj (Option.some.inj h)
  rw [Option.some.injEq, enclosed]
  by_cases hquote : ∃ tail, skipGap front = '"' :: tail
  · obtain ⟨tail, htail⟩ := hquote
    have hquoted : ∀ back, quoted? (skipGap (front ++ c :: d :: back)) =
        some (quotedTail (tail ++ c :: d :: back)) := by
      intro back
      rw [skipGap_append mark, htail]
      rfl
    rw [label_of_quoted? (hquoted back)] at htext hrest
    have hsuffix : rest ++ c :: d :: back <:+ (quotedTail (tail ++ c :: d :: back)).2 := by
      rw [← hrest]
      exact (getD_strip?_suffix closing _).trans (skipGap_suffix _)
    obtain ⟨mid, hmid⟩ := (List.suffix_append rest _).trans hsuffix
    have hread :=
      quotedTail_behind (List.cons_ne_nil _ _) (Prod.ext rfl hmid.symm) (c :: d :: back')
    rw [label_of_quoted? ((hquoted back').trans (congrArg some hread)), skipGap_append mark]
    rw [← hmid, skipGap_append mark] at hrest
    exact Prod.ext htext (getD_strip?_behind hlength hrest back')
  · have hplain : ∀ back, quoted? (skipGap (front ++ c :: d :: back)) = none := by
      intro back
      apply quoted?_of_ne
      rw [skipGap_append mark]
      cases hfront : skipGap front with
      | nil => simpa using mark.quote
      | cons y tail =>
          rintro ⟨⟩
          exact hquote ⟨tail, hfront⟩
    rw [label_of_quoted?_eq_none (hplain back), skipGap_append mark] at htext hrest
    have hread := plainTail_behind (List.cons_ne_nil _ _) (Prod.ext rfl hrest) (c :: d :: back')
    obtain ⟨htext', hrest'⟩ := Prod.mk.inj hread
    rw [label_of_quoted?_eq_none (hplain back'), skipGap_append mark, htext']
    exact Prod.ext htext hrest'

/-- The bracket that opens at the front of a line. -/
def opened? (cs : List Char) : Option (Bracket × List Char) :=
  token? (brackets.map fun b => (b.opening, b)) cs

theorem definition?_eq (cs : List Char) :
    definition? cs = (opened? cs).map fun (b, rest) =>
      (⟨b.shape, String.ofList (enclosed b.closing rest).1⟩, (enclosed b.closing rest).2) := by
  rw [definition?, opened?, token?, List.findSome?_map, List.map_findSome?]
  congr 1
  funext b
  simp only [Function.comp_apply]
  cases strip? b.opening cs <;> rfl

theorem length_opening_le : ∀ p ∈ brackets.map fun b => (b.opening, b), p.1.length ≤ 2 := by
  decide

theorem length_closing_le : ∀ b ∈ brackets, b.closing.length ≤ 2 := by
  decide

theorem mem_of_token? {α : Type} {tokens : List (List Char × α)} {cs rest : List Char} {a : α}
    (h : token? tokens cs = some (a, rest)) : a ∈ tokens.map Prod.snd := by
  obtain ⟨p, hp, hread⟩ := List.exists_of_findSome?_eq_some h
  obtain ⟨left, -, heq⟩ := Option.map_eq_some_iff.mp hread
  cases heq
  exact List.mem_map_of_mem hp

theorem local_definition? (mark : IsMark c d) : Local c d definition? := by
  intro front back x rest h back'
  rw [definition?_eq] at h ⊢
  obtain ⟨⟨b, left⟩, hopen, heq⟩ := Option.map_eq_some_iff.mp h
  obtain ⟨rfl, hrest⟩ := Prod.mk.inj heq
  have hsuffix : rest ++ c :: d :: back <:+ left := by
    rw [← hrest]
    exact (getD_strip?_suffix _ _).trans (label_suffix _ _)
  obtain ⟨mid, rfl⟩ := (List.suffix_append rest _).trans hsuffix
  have hopening : Local c d opened? :=
    local_token? fun p hp q _ => (length_opening_le p hp).trans (Nat.le_add_left 2 _)
  have hsnd : (brackets.map fun b => (b.opening, b)).map Prod.snd = brackets := rfl
  have hb : b ∈ brackets := hsnd ▸ mem_of_token? hopen
  have hread := Option.some.inj
    (local_enclosed mark (length_closing_le b hb) (congrArg some (Prod.ext rfl hrest)) back')
  rw [hopening hopen, Option.map_some]
  dsimp only
  rw [hread]

/-- Where no bracket opens in front of a mark, none is found for what stands behind it. -/
theorem definition?_eq_none_behind {front back : List Char}
    (h : definition? (front ++ c :: d :: back) = none) (back' : List Char) :
    definition? (front ++ c :: d :: back') = none := by
  rw [definition?_eq, Option.map_eq_none_iff] at h ⊢
  exact token?_eq_none_behind
    (fun p hp => (length_opening_le p hp).trans (Nat.le_add_left 2 _)) h back'

theorem reference?_eq (cs : List Char) :
    reference? cs =
      andThen? id? definition? (fun id d => ⟨String.ofList id, d⟩) (skipGap cs) := by
  rw [reference?, andThen?]
  rcases id? (skipGap cs) with _ | ⟨id, rest⟩
  · rfl
  · simp only [Option.bind_eq_bind, Option.bind_some, Option.map_some]
    cases definition? rest <;> rfl

/-- A reference is read without a look behind the mark. -/
theorem local_reference? (mark : IsMark c d) : Local c d reference? := by
  intro front back r rest h back'
  rw [reference?_eq, skipGap_append mark] at h ⊢
  exact local_andThen? (local_id? mark) (local_definition? mark) definition?_suffix
    definition?_eq_none_behind _ h back'

end Whiteboard.Flowchart
