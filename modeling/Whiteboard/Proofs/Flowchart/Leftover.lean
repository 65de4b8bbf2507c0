import Whiteboard.Proofs.Flowchart.Chain

/-!
What is left over of a line behind its path.

What the readers of a path read in front of a rest of the line they read as well where the line ends
there (`Standalone`): an id, a label or a gap is not longer than on the whole line, and a token that
is tried earlier does not come in if the line gets shorter. So a line is a part that says the whole
path on its own and a rest that begins no hop (`path_leftover`). Behind a lone node the rest is a
gap. Behind a hop it may be anything, and it is dropped (`ampersand_dropped`).
-/

namespace Whiteboard.Flowchart

open Text

/-- A reader that leaves a rest of the text, and reads as much if the text ends at any place in that
rest. -/
structure Standalone {β : Type} (read : List Char → Option (β × List Char)) : Prop where
  suffix : ∀ {cs rest : List Char} {x : β}, read cs = some (x, rest) → rest <:+ cs
  alone : ∀ {front back rest : List Char} {x : β},
    read (front ++ back) = some (x, rest ++ back) → read front = some (x, rest)

/-- A reader that finds its end in front of a rest, whatever the rest is, finds it without one. -/
theorem Standalone.of_behind {β : Type} {read : List Char → Option (β × List Char)}
    (hsuffix : ∀ {cs rest x}, read cs = some (x, rest) → rest <:+ cs)
    (hbehind : ∀ {front back rest x}, back ≠ [] → read (front ++ back) = some (x, rest ++ back) →
      ∀ back', read (front ++ back') = some (x, rest ++ back')) :
    Standalone read where
  suffix := hsuffix
  alone {front back rest x} h := by
    cases back with
    | nil => simpa only [List.append_nil] using h
    | cons c back => simpa only [List.append_nil] using hbehind (List.cons_ne_nil c back) h []

/-- What is not read at the beginning of a text is not read if the text ends earlier. -/
def StaysOut {β : Type} (read : List Char → Option (β × List Char)) : Prop :=
  ∀ ⦃cs cs' : List Char⦄, cs <+: cs' → read cs' = none → read cs = none

/-! ### Readers of readers -/

section Combinator

variable {α β : Type} {f : List Char → Option (α × List Char)}
  {g : List Char → Option (β × List Char)}

theorem standalone_done (a : α) : Standalone fun cs => some (a, cs) where
  suffix h := by
    cases h
    exact List.suffix_refl _
  alone h := by
    obtain ⟨rfl, hrest⟩ := Prod.mk.inj (Option.some.inj h)
    rw [List.append_cancel_right hrest]

/-- Two readers one after the other stand alone if both do. -/
theorem Standalone.bind {g : α → List Char → Option (β × List Char)} (hf : Standalone f)
    (hg : ∀ a, Standalone (g a)) : Standalone fun cs => (f cs).bind fun (a, rest) => g a rest where
  suffix h := by
    obtain ⟨⟨a, middle⟩, ha, hb⟩ := Option.bind_eq_some_iff.mp h
    exact ((hg a).suffix hb).trans (hf.suffix ha)
  alone {front back rest x} h := by
    obtain ⟨⟨a, middle⟩, ha, hb⟩ := Option.bind_eq_some_iff.mp h
    -- what the second reader is given still ends with what is cut off
    obtain ⟨inner, rfl⟩ := (List.suffix_append rest back).trans ((hg a).suffix hb)
    exact Option.bind_eq_some_iff.mpr ⟨(a, inner), hf.alone ha, (hg a).alone hb⟩

/-- Behind a reader another one that always reads. -/
theorem Standalone.andThen {h : α → List Char → β × List Char} (hf : Standalone f)
    (hh : ∀ a, Standalone fun cs => some (h a cs)) :
    Standalone fun cs => (f cs).map fun (a, rest) => h a rest := by
  have hread : (fun cs => (f cs).map fun (a, rest) => h a rest) =
      fun cs => (f cs).bind fun (a, rest) => some (h a rest) := by
    funext cs
    cases f cs <;> rfl
  rw [hread]
  exact hf.bind hh

theorem Standalone.map (hf : Standalone f) (h : α → β) :
    Standalone fun cs => (f cs).map fun (a, rest) => (h a, rest) :=
  hf.andThen fun a => standalone_done (h a)

/-- One reader in the place of another stands alone, if what the first does not read stays so. -/
theorem Standalone.or {g : List Char → Option (α × List Char)} (hf : Standalone f)
    (hg : Standalone g) (hout : StaysOut f) : Standalone fun cs => (f cs).or (g cs) where
  suffix h := by
    rcases Option.or_eq_some_iff.mp h with h | ⟨-, h⟩
    · exact hf.suffix h
    · exact hg.suffix h
  alone {front back rest x} h := by
    rcases Option.or_eq_some_iff.mp h with h | ⟨hnone, h⟩
    · exact Option.or_eq_some_iff.mpr (.inl (hf.alone h))
    · exact Option.or_eq_some_iff.mpr
        (.inr ⟨hout (List.prefix_append front back) hnone, hg.alone h⟩)

theorem StaysOut.map (hf : StaysOut f) (h : α × List Char → β × List Char) :
    StaysOut fun cs => (f cs).map h := fun _ _ hbegins hnone =>
  Option.map_eq_none_iff.mpr (hf hbegins (Option.map_eq_none_iff.mp hnone))

/-- A piece and behind it another one, which may be missing. -/
theorem Standalone.andThen? {γ : Type} (hf : Standalone f) (hg : Standalone g) (hout : StaysOut g)
    (join : α → Option β → γ) : Standalone (andThen? f g join) := by
  have hjoin : Flowchart.andThen? f g join = fun cs => (f cs).bind fun (a, rest) =>
      ((g rest).map fun (b, rest) => (join a (some b), rest)).or (some (join a none, rest)) := by
    funext cs
    rw [Flowchart.andThen?]
    rcases f cs with _ | ⟨a, rest⟩
    · rfl
    · rw [Option.map_some, Option.bind_some]
      dsimp only
      cases g rest <;> rfl
  rw [hjoin]
  exact hf.bind fun a =>
    (hg.map fun b => join a (some b)).or (standalone_done (join a none)) (hout.map _)

end Combinator

/-! ### Gaps and tokens -/

theorem standalone_gap : Standalone fun cs => some ((), skipGap cs) where
  suffix h := by
    cases h
    exact skipGap_suffix _
  alone h := by
    obtain ⟨-, hrest⟩ := Prod.mk.inj (Option.some.inj h)
    rw [skipGap_alone hrest]

theorem Standalone.behindGap {β : Type} {read : List Char → Option (β × List Char)}
    (h : Standalone read) : Standalone fun cs => read (skipGap cs) :=
  standalone_gap.bind fun _ => h

theorem skipGap_isPrefix {cs cs' : List Char} (h : cs <+: cs') : skipGap cs <+: skipGap cs' := by
  obtain ⟨back, rfl⟩ := h
  rw [skipGap, skipGap, List.dropWhile_append]
  split
  · rename_i hnil
    rw [List.isEmpty_iff.mp hnil]
    exact List.nil_prefix
  · exact List.prefix_append _ _

/-- A gap in front does not make anything readable. -/
theorem StaysOut.behindGap {β : Type} {read : List Char → Option (β × List Char)}
    (h : StaysOut read) : StaysOut fun cs => read (skipGap cs) :=
  fun _ _ hbegins hnone => h (skipGap_isPrefix hbegins) hnone

section Token

variable {α : Type}

theorem standalone_token? (tokens : List (List Char × α)) : Standalone (token? tokens) where
  suffix := token?_suffix
  alone {front back rest x} h := by
    have hout : ∀ p ∈ tokens,
        strip? p.1 (front ++ back) = none → strip? p.1 (front ++ []) = none := by
      intro p _ hnone
      rw [strip?_eq_none_iff] at hnone ⊢
      rw [List.append_nil]
      exact fun hbegins => hnone (hbegins.trans (List.prefix_append front back))
    simpa only [List.append_nil] using token?_behind h hout

theorem staysOut_token? (tokens : List (List Char × α)) : StaysOut (token? tokens) := by
  intro cs cs' hbegins hnone
  rw [token?, List.findSome?_eq_none_iff] at hnone ⊢
  intro p hp
  have hp := hnone p hp
  rw [Option.map_eq_none_iff, strip?_eq_none_iff] at hp ⊢
  exact fun htoken => hp (htoken.trans hbegins)

end Token

/-- A token that may be missing. -/
theorem standalone_getD_strip? (token : List Char) :
    Standalone fun cs => some ((), (strip? token cs).getD cs) := by
  have hread : (fun cs => some ((), (strip? token cs).getD cs)) =
      fun cs => (token? [(token, ())] cs).or (some ((), cs)) := by
    funext cs
    cases h : strip? token cs <;> simp [token?, h]
  rw [hread]
  exact (standalone_token? _).or (standalone_done ()) (staysOut_token? _)

/-! ### References -/

theorem length_idTail_lt {c : Char} (hc : isIdChar c = true) (cs : List Char) :
    (idTail (c :: cs)).2.length < (c :: cs).length := by
  have hlength := congrArg List.length (idTail_append cs)
  rw [List.length_append] at hlength
  rw [idTail, if_pos (by rw [hc, Bool.true_or]), List.length_cons]
  dsimp only
  omega

theorem standalone_idTail : Standalone fun cs => some (idTail cs) where
  suffix {cs rest x} h := by
    rw [← idTail_append cs, Option.some.inj h]
    exact List.suffix_append _ _
  alone {front back rest x} h := by
    have htail := Option.some.inj h
    rw [Option.some.injEq]
    clear h
    induction front generalizing x with
    | nil =>
        have hback := idTail_append back
        rw [List.nil_append] at htail
        rw [htail, ← List.append_assoc, List.append_left_eq_self, List.append_eq_nil_iff] at hback
        obtain ⟨rfl, rfl⟩ := hback
        rfl
    | cons c front ih =>
        rw [List.cons_append, idTail] at htail
        rw [idTail]
        split at htail
        · rename_i hgoes
          obtain ⟨htext, hrest⟩ := Prod.mk.inj htail
          have hgoes' : (isIdChar c || (c == '-' && front.head?.any isIdChar)) = true := by
            cases front with
            | cons d front => exact hgoes
            | nil =>
                cases hc : isIdChar c with
                | true => rfl
                | false =>
                    rw [hc, Bool.false_or, Bool.and_eq_true, List.nil_append] at hgoes
                    cases back with
                    | nil => cases hgoes.2
                    | cons d back =>
                        -- the character behind the hyphen would be read, too
                        have hlt := length_idTail_lt hgoes.2 back
                        rw [List.nil_append] at hrest
                        rw [hrest, List.length_append] at hlt
                        omega
          rw [if_pos hgoes', ih (x := (idTail (front ++ back)).1) (Prod.ext rfl hrest)]
          exact Prod.ext htext rfl
        · rename_i hends
          obtain ⟨htext, hrest⟩ := Prod.mk.inj htail
          have hends' : ¬ (isIdChar c || (c == '-' && front.head?.any isIdChar)) = true := by
            cases front with
            | cons d front => exact hends
            | nil =>
                rw [Bool.or_eq_true, not_or] at hends
                simpa using hends.1
          rw [← List.cons_append] at hrest
          rw [if_neg hends', List.append_cancel_right hrest, htext]

theorem standalone_id? : Standalone id? where
  suffix {cs rest id} h := ⟨id, (id?_append h).1⟩
  alone {front back rest id} h := by
    cases front with
    | nil =>
        obtain ⟨heq, hne⟩ := id?_append h
        rw [List.nil_append, ← List.append_assoc, List.append_left_eq_self] at heq
        exact absurd (List.append_eq_nil_iff.mp heq).1 hne
    | cons c front =>
        rw [List.cons_append, id?] at h
        rw [id?]
        split at h
        · rename_i hc
          obtain ⟨rfl, hrest⟩ := Prod.mk.inj (Option.some.inj h)
          have htail := Option.some.inj
            (standalone_idTail.alone (congrArg some (Prod.ext rfl hrest)))
          rw [if_pos hc, htail]
        · cases h

theorem standalone_quotedTail : Standalone fun cs => some (quotedTail cs) := by
  refine .of_behind ?_ ?_
  · intro cs rest text h
    have hsuffix := quotedTail_suffix cs
    rwa [Option.some.inj h] at hsuffix
  · intro front back rest text hback h back'
    rw [quotedTail_behind hback (Option.some.inj h)]

theorem standalone_plainTail (closing : List Char) :
    Standalone fun cs => some (plainTail closing cs) := by
  refine .of_behind ?_ ?_
  · intro cs rest text h
    obtain ⟨-, rfl⟩ := Prod.mk.inj (Option.some.inj h)
    exact (getD_strip?_suffix closing _).trans ⟨_, (eq_append_upTo closing cs).symm⟩
  · intro front back rest text hback h back'
    rw [plainTail_behind hback (Option.some.inj h)]

theorem quoted?_eq_some {cs : List Char} {p : List Char × List Char} (h : quoted? cs = some p) :
    ∃ tail, cs = '"' :: tail ∧ quotedTail tail = p := by
  unfold quoted? at h
  split at h
  · rename_i tail
    exact ⟨tail, rfl, Option.some.inj h⟩
  · cases h

theorem standalone_quoted? : Standalone quoted? where
  suffix := quoted?_suffix
  alone {front back rest text} h := by
    obtain ⟨tail, hcs, htail⟩ := quoted?_eq_some h
    cases front with
    | nil =>
        have hle := (quotedTail_suffix tail).length_le
        rw [List.nil_append] at hcs
        rw [htail, List.length_append, hcs, List.length_cons] at hle
        omega
    | cons c front =>
        obtain ⟨rfl, rfl⟩ := List.cons.inj hcs
        exact standalone_quotedTail.alone (congrArg some htail)

theorem staysOut_quoted? : StaysOut quoted? := by
  rintro cs _ ⟨back, rfl⟩ hnone
  rw [Option.eq_none_iff_forall_ne_some]
  intro p hp
  obtain ⟨tail, rfl, -⟩ := quoted?_eq_some hp
  cases hnone

/-- A label with the closing bracket behind it, which may be missing. -/
theorem standalone_enclosed (closing : List Char) :
    Standalone fun cs => some (enclosed closing cs) := by
  have hread : (fun cs => some (enclosed closing cs)) = fun cs =>
      ((quoted? (skipGap cs)).map fun p =>
          (normalizeBreaks p.1, (strip? closing (skipGap p.2)).getD (skipGap p.2))).or
        (some (normalizeBreaks (trim (plainTail closing (skipGap cs)).1),
          (plainTail closing (skipGap cs)).2)) := by
    funext cs
    rw [enclosed]
    cases h : quoted? (skipGap cs) with
    | none =>
        rw [label_of_quoted?_eq_none h]
        rfl
    | some p =>
        rw [label_of_quoted? h]
        rfl
  have hquoted : Standalone fun cs => (quoted? cs).map fun p =>
      (normalizeBreaks p.1, (strip? closing (skipGap p.2)).getD (skipGap p.2)) :=
    standalone_quoted?.andThen fun text =>
      ((standalone_getD_strip? closing).map fun _ => normalizeBreaks text).behindGap
  have hplain := (standalone_plainTail closing).map fun text => normalizeBreaks (trim text)
  rw [hread]
  exact (hquoted.or hplain (staysOut_quoted?.map _)).behindGap

theorem standalone_definition? : Standalone definition? := by
  have hopened : Standalone opened? := standalone_token? _
  rw [funext definition?_eq]
  exact hopened.andThen fun b =>
    (standalone_enclosed b.closing).map fun text => Definition.mk b.shape (String.ofList text)

theorem staysOut_definition? : StaysOut definition? := by
  rw [funext definition?_eq]
  exact (staysOut_token? _).map _

theorem standalone_reference? : Standalone reference? := by
  rw [funext reference?_eq]
  exact (standalone_id?.andThen? standalone_definition? staysOut_definition? _).behindGap

/-! ### Connectors -/

theorem standalone_connector? : Standalone connector? :=
  (standalone_token? connectors).behindGap

theorem staysOut_connector? : StaysOut connector? :=
  (staysOut_token? connectors).behindGap

theorem standalone_barLabel? : Standalone barLabel? :=
  .of_behind barLabel?_suffix barLabel?_behind

theorem staysOut_barLabel? : StaysOut barLabel? := by
  intro cs cs' hbegins hnone
  unfold barLabel?
  split
  · rename_i inside hinside
    obtain ⟨behind, hbehind⟩ := skipGap_isPrefix hbegins
    rw [hinside, List.cons_append] at hbehind
    rw [barLabel?, ← hbehind] at hnone
    cases hnone
  · rfl

/-- A closing that is found in a shorter text is the one of the longer text. -/
theorem standalone_closed? {form : InlineForm} (hform : form ∈ inlineForms) :
    Standalone (closed? form) where
  suffix h := by
    obtain ⟨⟨text, k, left⟩, hclosed, heq⟩ := Option.map_eq_some_iff.mp h
    cases heq
    exact closedBy?_suffix hclosed
  alone {front back rest x} h := by
    have hfound : ∀ {front rest k}, token? form.closings (front ++ back) = some (k, rest ++ back) →
        token? form.closings (front ++ []) = some (k, rest ++ []) := by
      intro front rest k htoken
      simpa only [List.append_nil] using (standalone_token? _).alone htoken
    have hout : ∀ {front}, front ≠ [] → token? form.closings (front ++ back) = none →
        token? form.closings (front ++ []) = none := by
      intro front _ hnone
      simpa only [List.append_nil] using staysOut_token? _ (List.prefix_append front back) hnone
    simpa only [List.append_nil] using closed?_behind hform hfound hout h

theorem standalone_spaced? {form : InlineForm} (hform : form ∈ inlineForms) :
    Standalone (spaced? form) where
  suffix := spaced?_suffix
  alone {front back rest x} h := by
    have hclosed : ∀ {y}, closed? form (front ++ back) = some (y, rest ++ back) →
        closed? form (front ++ []) = some (y, rest ++ []) := by
      intro y hread
      simpa only [List.append_nil] using (standalone_closed? hform).alone hread
    simpa only [List.append_nil] using spaced?_behind hform hclosed h

theorem standalone_inlineLabel? : Standalone inlineLabel? where
  suffix := inlineLabel?_suffix
  alone {front back rest x} h := by
    rw [inlineLabel?_eq] at h
    obtain ⟨form, hform, h⟩ := List.exists_of_findSome?_eq_some h
    obtain ⟨body, hbody, h⟩ := Option.bind_eq_some_iff.mp h
    obtain ⟨inner, rfl⟩ := (List.suffix_append rest back).trans (spaced?_suffix h)
    have hskip : skipGap (front ++ back) = form.opening ++ inner ++ back := by
      rw [List.append_assoc]
      exact strip?_eq_some.mp hbody
    exact inlineLabel?_of_opening hform (skipGap_alone hskip) ((standalone_spaced? hform).alone h)

theorem standalone_link? : Standalone link? := by
  have hinline := standalone_inlineLabel?.map fun x => (x.1, link?.labelOf x.2)
  rw [funext link?_eq]
  exact (standalone_connector?.andThen? standalone_barLabel? staysOut_barLabel? _).or hinline
    (staysOut_connector?.map _)

theorem standalone_hop? : Standalone hop? where
  suffix h := (hop?_suffix h).1
  alone {front back rest p} h := by
    obtain ⟨middle, hlink, htarget⟩ := hop?_eq_some_iff.mp h
    obtain ⟨inner, rfl⟩ := (List.suffix_append rest back).trans (reference?_suffix htarget).1
    exact hop?_eq_some_iff.mpr
      ⟨inner, standalone_link?.alone hlink, standalone_reference?.alone htarget⟩

/-! ### Paths -/

/-- Hops that lead to a rest of the line are read as well if the line ends in it. -/
theorem HopsTo.alone {front back rest : List Char} {hops : List Hop}
    (h : HopsTo (front ++ back) hops (rest ++ back)) : HopsTo front hops rest := by
  induction hops generalizing front with
  | nil =>
      generalize hcs : front ++ back = cs at h
      generalize hrest : rest ++ back = left at h
      cases h
      rw [List.append_cancel_right (hcs.trans hrest.symm)]
      exact .here _
  | cons p hops ih =>
      cases h with
      | hop hp more =>
          obtain ⟨middle, rfl⟩ := (List.suffix_append rest back).trans more.suffix
          exact .hop (standalone_hop?.alone hp) (ih more)

/-- Some hops lead to one rest of a line only. -/
theorem HopsTo.unique {cs left left' : List Char} {hops : List Hop} (h : HopsTo cs hops left)
    (h' : HopsTo cs hops left') : left = left' := by
  induction h with
  | here cs =>
      cases h'
      rfl
  | hop hp _ ih =>
      cases h' with
      | hop hp' more' =>
          rw [hp] at hp'
          cases hp'
          exact ih more'

/-- A chain ends where no hop begins. -/
theorem hopsTo_chain (cs : List Char) :
    HopsTo cs (chain cs).1 (chain cs).2 ∧ hop? (chain cs).2 = none := by
  fun_induction chain cs with
  | case1 cs h => exact ⟨.here cs, h⟩
  | case2 cs p rest h hops left hchain ih =>
      rw [hchain] at ih
      exact ⟨.hop h ih.1, ih.2⟩

theorem hop?_nil : hop? [] = none :=
  rfl

/-- A node and the hops from it are read from a line up to what is left over of it. -/
def LeavesOver (line : List Char) (first : Reference) (hops : List Hop) (left : List Char) : Prop :=
  ∃ rest, reference? line = some (first, rest) ∧ HopsTo rest hops left

/-- A path accounts for the whole line, but for a gap behind it. -/
def Accounts (line : List Char) (first : Reference) (hops : List Hop) : Prop :=
  ∃ left, LeavesOver line first hops left ∧ skipGap left = []

/-- A path accounts for its line exactly if nothing but a gap is left over. -/
theorem LeavesOver.accounts_iff {line left : List Char} {first : Reference} {hops : List Hop}
    (h : LeavesOver line first hops left) : Accounts line first hops ↔ skipGap left = [] := by
  constructor
  · rintro ⟨left', ⟨rest', hfirst', hhops'⟩, hgap⟩
    obtain ⟨rest, hfirst, hhops⟩ := h
    rw [hfirst] at hfirst'
    cases hfirst'
    rwa [hhops.unique hhops']
  · exact fun hgap => ⟨left, h, hgap⟩

/-- A path that leaves something over is read as well where the line ends in front of that. -/
theorem LeavesOver.alone {front back rest : List Char} {first : Reference} {hops : List Hop}
    (h : LeavesOver (front ++ back) first hops (rest ++ back)) :
    LeavesOver front first hops rest := by
  obtain ⟨middle, hfirst, hhops⟩ := h
  obtain ⟨inner, rfl⟩ := (List.suffix_append rest back).trans hhops.suffix
  exact ⟨inner, standalone_reference?.alone hfirst, hhops.alone⟩

/-- What the path of a line leaves over begins no hop, and is a gap if the path has no hop. -/
theorem path?_eq_some_iff {line : List Char} {first : Reference} {hops : List Hop} :
    path? line = some (.path first hops) ↔
      ∃ left, LeavesOver line first hops left ∧ hop? left = none ∧
        (hops = [] → skipGap left = []) := by
  simp only [path?, Option.bind_eq_bind, Option.bind_eq_some_iff, Prod.exists]
  constructor
  · rintro ⟨node, rest, hfirst, h⟩
    obtain ⟨hhops, hend⟩ := hopsTo_chain rest
    split at h
    · cases h
    · rename_i hwhole
      cases h
      refine ⟨(chain rest).2, ⟨rest, hfirst, hhops⟩, hend, fun hnil => ?_⟩
      simpa [hnil] using hwhole
  · rintro ⟨left, ⟨rest, hfirst, hhops⟩, hend, hlone⟩
    refine ⟨first, rest, hfirst, ?_⟩
    rw [hhops.chain_eq, chain_of_hop?_eq_none hend, List.append_nil, if_neg]
    rw [Bool.and_eq_true, List.isEmpty_iff, Bool.not_eq_true', List.isEmpty_eq_false_iff]
    rintro ⟨hnil, hgap⟩
    exact hgap (hlone hnil)

/-- A line that is a path is none of the other statements. -/
theorem path?_of_ofLine? {line : List Char} {first : Reference} {hops : List Hop}
    (h : Statement.ofLine? line = some (.path first hops)) :
    path? (trimLine line) = some (.path first hops) := by
  unfold Statement.ofLine? at h
  dsimp only at h
  split at h
  · cases h
  · split at h
    · cases h
    · split at h
      · unfold subgraphOf at h
        split at h <;> cases h
      · split at h
        · cases h
        · exact h

/-- A line that is read as a path is a part that says the path on its own, and what is left over
behind it. What is left over begins no hop, and behind a lone node it is a gap. So the path accounts
for the whole line exactly if a gap is left over; anything else is dropped. -/
theorem path_leftover {line : List Char} {first : Reference} {hops : List Hop}
    (h : Statement.ofLine? line = some (.path first hops)) :
    ∃ kept left, trimLine line = kept ++ left ∧ LeavesOver (trimLine line) first hops left ∧
      LeavesOver kept first hops [] ∧ path? kept = some (.path first hops) ∧ hop? left = none ∧
      (hops = [] → skipGap left = []) ∧
      (Accounts (trimLine line) first hops ↔ skipGap left = []) := by
  obtain ⟨left, hleft, hend, hlone⟩ := path?_eq_some_iff.mp (path?_of_ofLine? h)
  have hsuffix : left <:+ trimLine line := by
    obtain ⟨rest, hfirst, hhops⟩ := hleft
    exact hhops.suffix.trans (reference?_suffix hfirst).1
  obtain ⟨kept, hkept⟩ := hsuffix
  have halone : LeavesOver kept first hops [] := by
    have hline : LeavesOver (kept ++ left) first hops ([] ++ left) := hkept ▸ hleft
    exact hline.alone
  have hpath : path? kept = some (.path first hops) :=
    path?_eq_some_iff.mpr ⟨[], halone, hop?_nil, fun _ => rfl⟩
  exact ⟨kept, left, hkept.symm, hleft, halone, hpath, hend, hlone, hleft.accounts_iff⟩

/-- A second statement behind a chain with a label in it. -/
theorem path_leftover_chain :
    let line := "  A -- yes --> B{ok?}; B --o C ; ;".toList
    let first : Reference := ⟨"A", none⟩
    let hops : List Hop := [⟨⟨.absent, .closed, .solid⟩, some "yes", ⟨"B", some ⟨.diamond, "ok?"⟩⟩⟩]
    Statement.ofLine? line = some (.path first hops) ∧
    ∃ kept left, trimLine line = kept ++ left ∧ LeavesOver (trimLine line) first hops left ∧
      LeavesOver kept first hops [] ∧ path? kept = some (.path first hops) ∧ hop? left = none ∧
      (hops = [] → skipGap left = []) ∧
      (Accounts (trimLine line) first hops ↔ skipGap left = []) := by
  intro line first hops
  have h : Statement.ofLine? line = some (.path first hops) := by decide +kernel
  exact ⟨h, path_leftover h⟩

/-- What stands behind the last hop of a path is dropped. -/
theorem ampersand_dropped :
    let first : Reference := ⟨"A", none⟩
    let hops : List Hop := [⟨⟨.absent, .closed, .solid⟩, none, ⟨"B", none⟩⟩]
    Statement.ofLine? "A --> B & C".toList = some (.path first hops) ∧
      Statement.ofLine? "A --> B".toList = some (.path first hops) ∧
      LeavesOver "A --> B & C".toList first hops " & C".toList ∧
      ¬ Accounts (trimLine "A --> B & C".toList) first hops := by
  intro first hops
  have hleft : LeavesOver "A --> B & C".toList first hops " & C".toList :=
    ⟨" --> B & C".toList, by decide, .hop (by decide) (.here _)⟩
  have htrim : trimLine "A --> B & C".toList = "A --> B & C".toList := by decide
  refine ⟨by decide +kernel, by decide +kernel, hleft, ?_⟩
  rw [htrim, hleft.accounts_iff]
  decide

end Whiteboard.Flowchart
