import Whiteboard.Proofs.Text.Search

/-!
Replacing several tokens.

`Replaced` says what a text becomes if something is put in the place of each of some tokens on one
way through it, from left to right. Marked tokens begin with a character that stands nowhere else in
them and share no character with what is put in their place. So two of them never overlap, and no
new one arises where an old one was: nothing is left of them (`Replaced.not_isInfix`), and two ways
through a text, with some tokens each, come to the same as one way with all of them
(`Replaced.andThen`). Tokens replaced one after the other are thus replaced as if at once
(`replaced_foldl`), in whatever order, as long as no token begins another one (`Replaced.unique`).
-/

namespace Whiteboard.Text

variable {mark c : Char} {tokens others : List (List Char)} {token tail put cs mid out : List Char}

/-- The text `out` is `cs` with `put` in the place of each of the tokens, taken from left to
right. -/
inductive Replaced (tokens : List (List Char)) (put : List Char) : (cs out : List Char) → Prop
  | nil : Replaced tokens put [] []
  | token {token cs out : List Char} (htoken : token ∈ tokens) (h : Replaced tokens put cs out) :
      Replaced tokens put (token ++ cs) (put ++ out)
  | char {c : Char} {cs out : List Char} (hnone : ∀ token ∈ tokens, ¬ token <+: c :: cs)
      (h : Replaced tokens put cs out) : Replaced tokens put (c :: cs) (c :: out)

/-- Tokens with a mark at the front, and something else to put in their place. -/
structure Marked (mark : Char) (put : List Char) (tokens : List (List Char)) : Prop where
  put_ne_nil : put ≠ []
  mark_not_mem : mark ∉ put
  head?_eq : ∀ token ∈ tokens, token.head? = some mark
  not_mem_tail : ∀ token ∈ tokens, ∀ c ∈ token.tail, c ≠ mark ∧ c ∉ put

namespace Marked

theorem mono (hm : Marked mark put tokens) (h : others ⊆ tokens) : Marked mark put others where
  put_ne_nil := hm.put_ne_nil
  mark_not_mem := hm.mark_not_mem
  head?_eq token htoken := hm.head?_eq token (h htoken)
  not_mem_tail token htoken := hm.not_mem_tail token (h htoken)

/-- A token has its mark at the front only. -/
theorem exists_tail (hm : Marked mark put tokens) (htoken : token ∈ tokens) :
    ∃ tail, token = mark :: tail ∧ mark ∉ tail ∧ ∀ c ∈ tail, c ∉ put := by
  obtain ⟨tail, rfl⟩ := List.head?_eq_some_iff.mp (hm.head?_eq token htoken)
  have htail := hm.not_mem_tail _ htoken
  exact ⟨tail, rfl, fun hmem => (htail mark hmem).1 rfl, fun c hc => (htail c hc).2⟩

theorem ne_nil (hm : Marked mark put tokens) (htoken : token ∈ tokens) : token ≠ [] := by
  obtain ⟨tail, rfl, -⟩ := hm.exists_tail htoken
  exact List.cons_ne_nil mark tail

theorem not_mem (hm : Marked mark put tokens) (htoken : token ∈ tokens) :
    ∀ c ∈ token, c ∉ put := by
  obtain ⟨tail, rfl, -, htail⟩ := hm.exists_tail htoken
  exact List.forall_mem_cons.mpr ⟨hm.mark_not_mem, htail⟩

/-- A token begins with the mark only. -/
theorem eq_mark (hm : Marked mark put tokens) (htoken : token ∈ tokens) (h : token <+: c :: cs) :
    c = mark := by
  obtain ⟨tail, rfl, -⟩ := hm.exists_tail htoken
  exact (List.cons_prefix_cons.mp h).1.symm

end Marked

/-! ### What is replaced and what is not -/

namespace Replaced

/-- Nothing is put in the place of nothing. -/
theorem eq_nil (hm : Marked mark put tokens) (h : Replaced tokens put [] out) : out = [] := by
  generalize hcs : ([] : List Char) = cs at h
  cases h with
  | nil => rfl
  | token htoken => exact absurd (List.append_eq_nil_iff.mp hcs.symm).1 (hm.ne_nil htoken)
  | char => cases hcs

/-- What has no mark in it stays. -/
theorem of_append (hm : Marked mark put tokens) (htail : mark ∉ tail)
    (h : Replaced tokens put (tail ++ cs) out) :
    ∃ out', out = tail ++ out' ∧ Replaced tokens put cs out' := by
  induction tail generalizing out with
  | nil => exact ⟨out, rfl, h⟩
  | cons c tail ih =>
      rw [List.mem_cons, not_or] at htail
      generalize hcs : c :: tail ++ cs = text at h
      cases h with
      | nil => cases hcs
      | token htoken =>
          exact absurd (hm.eq_mark htoken ⟨_, hcs.symm⟩).symm htail.1
      | char _ h =>
          cases hcs
          obtain ⟨out', rfl, h'⟩ := ih htail.2 h
          exact ⟨out', rfl, h'⟩

/-- What is not put anywhere was there before. -/
theorem of_append_out (hm : Marked mark put tokens) (htail : ∀ c ∈ tail, c ∉ put)
    (h : Replaced tokens put cs (tail ++ out)) :
    ∃ cs', cs = tail ++ cs' ∧ Replaced tokens put cs' out := by
  induction tail generalizing cs with
  | nil => exact ⟨cs, rfl, h⟩
  | cons c tail ih =>
      rw [List.forall_mem_cons] at htail
      generalize hout : c :: tail ++ out = result at h
      cases h with
      | nil => cases hout
      | token =>
          obtain ⟨d, put', rfl⟩ := List.exists_cons_of_ne_nil hm.put_ne_nil
          rw [List.cons_append, List.cons_append] at hout
          exact absurd ((List.cons.inj hout).1 ▸ List.mem_cons_self) htail.1
      | char _ h =>
          cases hout
          obtain ⟨cs', rfl, h'⟩ := ih htail.2 h
          exact ⟨cs', rfl, h'⟩

/-- A token that begins what has become of a text began the text itself. -/
theorem isPrefix (hm : Marked mark put tokens) (htoken : ∀ c ∈ token, c ∉ put)
    (h : Replaced tokens put cs out) (hout : token <+: out) : token <+: cs := by
  obtain ⟨out', rfl⟩ := hout
  obtain ⟨cs', rfl, -⟩ := h.of_append_out hm htoken
  exact List.prefix_append token cs'

/-- Nothing is left of the tokens. -/
theorem not_isInfix (hm : Marked mark put tokens) (h : Replaced tokens put cs out)
    (htoken : token ∈ tokens) : ¬ token <:+: out := by
  induction h with
  | nil => exact fun hpart => hm.ne_nil htoken (List.infix_nil.mp hpart)
  | token _ _ ih =>
      suffices hput : ∀ front, (∀ c ∈ front, c ∉ token) → ¬ token <:+: front ++ _ from
        hput put fun c hc hmem => hm.not_mem htoken c hmem hc
      intro front hfront
      induction front with
      | nil => exact ih
      | cons c front ihfront =>
          rw [List.forall_mem_cons] at hfront
          rw [List.cons_append, List.infix_cons_iff, not_or]
          exact ⟨not_isPrefix_cons (hm.ne_nil htoken) hfront.1 _, ihfront hfront.2⟩
  | char hnone h ih =>
      rw [List.infix_cons_iff, not_or]
      exact ⟨fun hout => hnone token htoken ((char hnone h).isPrefix hm (hm.not_mem htoken) hout),
        ih⟩

theorem congr (hmem : ∀ token, token ∈ tokens ↔ token ∈ others) (h : Replaced tokens put cs out) :
    Replaced others put cs out := by
  induction h with
  | nil => exact .nil
  | token htoken _ ih => exact .token ((hmem _).mp htoken) ih
  | char hnone _ ih => exact .char (fun token htoken => hnone token ((hmem token).mpr htoken)) ih

/-- There is one way to replace tokens of which none begins another one. -/
theorem unique (hm : Marked mark put tokens)
    (hfree : ∀ a ∈ tokens, ∀ b ∈ tokens, a <+: b → a = b) {out' : List Char}
    (h : Replaced tokens put cs out) (h' : Replaced tokens put cs out') : out = out' := by
  induction h generalizing out' with
  | nil => exact (h'.eq_nil hm).symm
  | @token a cs out ha h ih =>
      generalize hcs : a ++ cs = text at h'
      cases h' with
      | nil => exact absurd (List.append_eq_nil_iff.mp hcs).1 (hm.ne_nil ha)
      | @token b cs' out' hb h' =>
          have hab : a = b := by
            rcases List.prefix_or_prefix_of_prefix (List.prefix_append a cs)
              (hcs ▸ List.prefix_append b cs') with hle | hle
            · exact hfree a ha b hb hle
            · exact (hfree b hb a ha hle).symm
          subst hab
          obtain rfl := List.append_cancel_left hcs
          rw [ih h']
      | char hnone => exact absurd ⟨cs, hcs⟩ (hnone a ha)
  | @char c cs out hnone h ih =>
      generalize hcs : c :: cs = text at h'
      cases h' with
      | nil => cases hcs
      | token hb => exact absurd ⟨_, hcs.symm⟩ (hnone _ hb)
      | char _ h' =>
          cases hcs
          rw [ih h']

/-! ### One way after another -/

/-- Two ways through a text with some tokens each come to one way with all of them. -/
theorem andThen (hm : Marked mark put (tokens ++ others)) (h : Replaced tokens put cs mid)
    (h' : Replaced others put mid out) : Replaced (tokens ++ others) put cs out := by
  have hfirst := hm.mono (List.subset_append_left tokens others)
  have hsecond := hm.mono (List.subset_append_right tokens others)
  -- not on `h`: a token of the second way takes at once what the first one passes singly
  induction hlength : cs.length using Nat.strong_induction_on generalizing cs mid out with
  | _ n ih =>
      cases h with
      | nil =>
          obtain rfl := h'.eq_nil hsecond
          exact .nil
      | @token a cs mid ha h =>
          obtain ⟨out', rfl, hrest⟩ := h'.of_append hsecond hm.mark_not_mem
          have hpos := List.length_pos_iff.mpr (hfirst.ne_nil ha)
          rw [List.length_append] at hlength
          exact .token (List.mem_append_left others ha) (ih cs.length (by omega) h hrest rfl)
      | @char c cs mid hnone h =>
          rw [List.length_cons] at hlength
          generalize hmid : c :: mid = text at h'
          cases h' with
          | nil => cases hmid
          | @token b mid' out' hb h' =>
              obtain ⟨tail, rfl, -, htail⟩ := hsecond.exists_tail hb
              obtain ⟨rfl, rfl⟩ := List.cons.inj hmid
              obtain ⟨cs', rfl, hrest⟩ := h.of_append_out hfirst htail
              rw [List.length_append] at hlength
              exact .token (List.mem_append_right tokens hb)
                (ih cs'.length (by omega) hrest h' rfl)
          | char hnone' h' =>
              cases hmid
              refine .char (fun b hb => ?_) (ih cs.length (by omega) h h' rfl)
              rcases List.mem_append.mp hb with hb | hb
              · exact hnone b hb
              · rintro ⟨rest, hrest⟩
                obtain ⟨tail, rfl, hmark, -⟩ := hsecond.exists_tail hb
                obtain ⟨rfl, rfl⟩ := List.cons.inj hrest
                obtain ⟨out', rfl, -⟩ := h.of_append hfirst hmark
                exact hnone' _ hb ⟨out', rfl⟩

end Replaced

/-! ### Replacing all of a token -/

/-- Skipping the rest of a token is going on behind it. -/
theorem replaceFrom_eq_drop (token put : List Char) (skip : Nat) (cs : List Char) :
    replaceFrom token put skip cs = replaceAll token put (cs.drop skip) := by
  induction cs generalizing skip with
  | nil => cases skip <;> rfl
  | cons c cs ih =>
      cases skip with
      | zero => rfl
      | succ skip => exact ih skip

theorem replaceAll_append (htoken : token ≠ []) (put cs : List Char) :
    replaceAll token put (token ++ cs) = put ++ replaceAll token put cs := by
  obtain ⟨c, token, rfl⟩ := List.exists_cons_of_ne_nil htoken
  have hbegins : (c :: token).isPrefixOf (c :: (token ++ cs)) = true :=
    List.isPrefixOf_iff_prefix.mpr ⟨cs, rfl⟩
  rw [List.cons_append, replaceAll, replaceFrom, if_pos hbegins, replaceFrom_eq_drop,
    List.length_cons, Nat.add_sub_cancel, List.drop_left]

/-- Replacing one token is replacing it from left to right. -/
theorem replaced_replaceAll (htoken : token ≠ []) (put cs : List Char) :
    Replaced [token] put cs (replaceAll token put cs) := by
  induction hlength : cs.length using Nat.strong_induction_on generalizing cs with
  | _ n ih =>
      cases cs with
      | nil => exact .nil
      | cons c cs =>
          by_cases hbegins : token <+: c :: cs
          · obtain ⟨rest, hrest⟩ := hbegins
            have hpos := List.length_pos_iff.mpr htoken
            rw [← hrest, List.length_append] at hlength
            rw [← hrest, replaceAll_append htoken]
            exact .token (List.mem_singleton_self token) (ih rest.length (by omega) rest rfl)
          · rw [replaceAll, replaceFrom, if_neg (mt List.isPrefixOf_iff_prefix.mp hbegins)]
            rw [List.length_cons] at hlength
            refine .char (fun a ha => ?_) (ih cs.length (by omega) cs rfl)
            rwa [List.mem_singleton.mp ha]

/-- Tokens replaced one after the other are replaced as if at once. -/
theorem replaced_foldl (hm : Marked mark put tokens) (cs : List Char) :
    Replaced tokens put cs (tokens.foldl (fun cs token => replaceAll token put cs) cs) := by
  induction tokens generalizing cs with
  | nil =>
      induction cs with
      | nil => exact .nil
      | cons c cs ih => exact .char (fun _ hnone => absurd hnone List.not_mem_nil) ih
  | cons token tokens ih =>
      exact (replaced_replaceAll (hm.ne_nil List.mem_cons_self) put cs).andThen hm
        (ih (hm.mono (List.subset_cons_self token tokens)) _)

end Whiteboard.Text
