import Whiteboard.Flowchart.Statement
import Whiteboard.Proofs.Flowchart.Local

/-!
How far a chain of hops looks ahead.

A connector, its label and the node it leads to are read in front of a mark whatever stands behind
it: no connector is longer than another one by more than the two characters of the mark, and neither
the bars of a label nor the closing of a connector that is written around one is sought behind it.
So hops that lead to a mark lead to it on every line that is the same up to there
(`HopsTo.local`), and the path goes on from there as the hop says that is read there
(`Comes.path?_eq`).
-/

namespace Whiteboard.Flowchart

open Text

variable {c d : Char}

/-! ### Connectors -/

theorem length_connector : ∀ p ∈ connectors, 3 ≤ p.1.length ∧ p.1.length ≤ 5 := by
  decide

theorem local_connector? (mark : IsMark c d) : Local c d connector? := by
  intro front back k rest h back'
  rw [connector?, skipGap_append mark] at h ⊢
  refine local_token? (fun p hp q hq => ?_) h back'
  have hlong := (length_connector p hp).2
  have hshort := (length_connector q hq).1
  omega

/-- The bar in front of a label stands in front of the mark. -/
theorem exists_bar (mark : IsMark c d) {front back text : List Char}
    (h : skipGap (front ++ c :: d :: back) = '|' :: text) :
    ∃ tail, skipGap front = '|' :: tail ∧ text = tail ++ c :: d :: back := by
  rw [skipGap_append mark] at h
  cases hfront : skipGap front with
  | nil =>
      rw [hfront] at h
      exact absurd (List.cons.inj h).1 mark.bar
  | cons x tail =>
      rw [hfront] at h
      obtain ⟨rfl, rfl⟩ := List.cons.inj h
      exact ⟨tail, rfl, rfl⟩

theorem barLabel?_eq_none_behind (mark : IsMark c d) {front back : List Char}
    (h : barLabel? (front ++ c :: d :: back) = none) (back' : List Char) :
    barLabel? (front ++ c :: d :: back') = none := by
  unfold barLabel? at h ⊢
  split
  · rename_i text htext
    obtain ⟨tail, htail, -⟩ := exists_bar mark htext
    rw [skipGap_append mark, htail] at h
    cases h
  · rfl

/-- A label whose second bar stands in front of a rest is read whatever the rest is. -/
theorem barLabel?_behind {front back text rest : List Char} (hback : back ≠ [])
    (h : barLabel? (front ++ back) = some (text, rest ++ back)) (back' : List Char) :
    barLabel? (front ++ back') = some (text, rest ++ back') := by
  have hbar := h
  unfold barLabel? at hbar
  split at hbar
  · rename_i inside hinside
    obtain ⟨-, hrest⟩ := Prod.mk.inj (Option.some.inj hbar)
    have hsuffix : rest ++ back <:+ inside := by
      rw [← hrest]
      exact (List.drop_suffix _ _).trans (List.dropWhile_suffix _)
    obtain ⟨tail, rfl⟩ := (List.suffix_append rest back).trans hsuffix
    have hfront : skipGap front = '|' :: tail := skipGap_alone hinside
    have hclosed : '|' ∈ tail := by
      by_contra hopen
      -- the label would go on to a bar in the rest
      have hall : ∀ c ∈ tail, (c != '|') = true :=
        fun c hc => bne_iff_ne.mpr (ne_of_mem_of_not_mem hc hopen)
      rw [List.dropWhile_append_of_pos hall] at hrest
      have hlength := congrArg List.length hrest
      have hle := (List.dropWhile_suffix (· != '|') (l := back)).length_le
      have hpos := List.length_pos_iff.mpr hback
      rw [List.length_drop, List.length_append] at hlength
      omega
    obtain ⟨inner, outer, rfl, hinner⟩ := List.eq_append_cons_of_mem hclosed
    have hskip : ∀ back, skipGap (front ++ back) = '|' :: (inner ++ '|' :: (outer ++ back)) := by
      intro back
      rw [skipGap_append_of_cons hfront, List.append_assoc, List.cons_append]
    rw [barLabel?_append hinner (hskip back)] at h
    obtain ⟨rfl, hrest⟩ := Prod.mk.inj (Option.some.inj h)
    rw [barLabel?_append hinner (hskip back'), List.append_cancel_right hrest]
  · cases hbar

theorem local_barLabel? : Local c d barLabel? := fun _ _ _ _ h _ =>
  barLabel?_behind (List.cons_ne_nil _ _) h _

theorem length_opening : ∀ form ∈ inlineForms, form.opening.length = 2 := by
  decide

theorem length_closings : ∀ form ∈ inlineForms, ∀ p ∈ form.closings,
    2 ≤ p.1.length ∧ p.1.length ≤ 3 := by
  decide

theorem length_token?_lt {α : Type} {tokens : List (List Char × α)} {cs rest : List Char} {a : α}
    (hpos : ∀ p ∈ tokens, 0 < p.1.length) (h : token? tokens cs = some (a, rest)) :
    rest.length < cs.length := by
  obtain ⟨p, hp, hread⟩ := List.exists_of_findSome?_eq_some h
  obtain ⟨left, hstrip, heq⟩ := Option.map_eq_some_iff.mp hread
  cases heq
  have hlt := hpos p hp
  rw [strip?_eq_some.mp hstrip, List.length_append]
  omega

/-- A closing uses some of the line up. -/
theorem length_closedBy?_lt {closings : List (List Char × Connector)} {cs text rest : List Char}
    {k : Connector} (hpos : ∀ p ∈ closings, 0 < p.1.length)
    (h : closedBy? closings cs = some (text, k, rest)) : rest.length < cs.length := by
  induction cs generalizing text with
  | nil => cases h
  | cons x cs ih =>
      rw [closedBy?] at h
      split at h
      · rename_i hclosing
        cases h
        exact length_token?_lt hpos hclosing
      · obtain ⟨⟨text', k', rest'⟩, hrest, heq⟩ := Option.map_eq_some_iff.mp h
        cases heq
        exact Nat.lt_succ_of_lt (ih hrest)

/-- What a closing is found behind, what it stands for, and what it leaves. -/
def closed? (form : InlineForm) (cs : List Char) :
    Option ((List Char × Connector) × List Char) :=
  (closedBy? form.closings cs).map fun (text, k, rest) => ((text, k), rest)

/-- A closing stands here or further on. -/
theorem closed?_cons (form : InlineForm) (x : Char) (cs : List Char) :
    closed? form (x :: cs) =
      ((token? form.closings (x :: cs)).map fun (k, rest) => (([], k), rest)).or
        ((closed? form cs).map fun ((text, k), rest) => ((x :: text, k), rest)) := by
  rw [closed?, closedBy?, closed?]
  rcases token? form.closings (x :: cs) with _ | ⟨k, rest⟩
  · rcases closedBy? form.closings cs with _ | ⟨text, k, rest⟩ <;> rfl
  · rfl

theorem length_closed?_lt {form : InlineForm} (hform : form ∈ inlineForms) {cs rest : List Char}
    {x : List Char × Connector} (h : closed? form cs = some (x, rest)) :
    rest.length < cs.length := by
  obtain ⟨⟨text, k, left⟩, hclosed, heq⟩ := Option.map_eq_some_iff.mp h
  cases heq
  have hpos : ∀ p ∈ form.closings, 0 < p.1.length := fun p hp =>
    Nat.lt_of_lt_of_le Nat.two_pos (length_closings form hform p hp).1
  exact length_closedBy?_lt hpos hclosed

/-- A closing is found with another rest behind it, too, if the same tokens are found there. -/
theorem closed?_behind {form : InlineForm} (hform : form ∈ inlineForms) {back back' : List Char}
    (hfound : ∀ {front rest k}, token? form.closings (front ++ back) = some (k, rest ++ back) →
      token? form.closings (front ++ back') = some (k, rest ++ back'))
    (hout : ∀ {front}, front ≠ [] → token? form.closings (front ++ back) = none →
      token? form.closings (front ++ back') = none)
    {front rest : List Char} {x : List Char × Connector}
    (h : closed? form (front ++ back) = some (x, rest ++ back)) :
    closed? form (front ++ back') = some (x, rest ++ back') := by
  induction front generalizing x with
  | nil =>
      have hlt := length_closed?_lt hform h
      rw [List.length_append, List.nil_append] at hlt
      omega
  | cons y front ih =>
      rw [List.cons_append, closed?_cons, Option.or_eq_some_iff] at h
      rw [List.cons_append, closed?_cons, Option.or_eq_some_iff]
      rcases h with h | ⟨hnone, h⟩
      · obtain ⟨⟨k, left⟩, htoken, heq⟩ := Option.map_eq_some_iff.mp h
        cases heq
        rw [← List.cons_append] at htoken ⊢
        exact .inl (congrArg _ (hfound htoken))
      · rw [Option.map_eq_none_iff] at hnone
        obtain ⟨⟨⟨text, k⟩, left⟩, hclosed, heq⟩ := Option.map_eq_some_iff.mp h
        cases heq
        refine .inr ⟨?_, congrArg _ (ih hclosed)⟩
        rw [Option.map_eq_none_iff]
        exact hout (List.cons_ne_nil y front) hnone

/-- A closing is found in front of the mark whatever stands behind the mark. -/
theorem local_closed? {form : InlineForm} (hform : form ∈ inlineForms) :
    Local c d (closed? form) := by
  have hlength := length_closings form hform
  intro front back x rest h back'
  refine closed?_behind hform (fun {front rest k} htoken => ?_) (fun {front} hne hnone => ?_) h
  · refine local_token? (fun p hp q hq => ?_) htoken back'
    have hlong := (hlength p hp).2
    have hshort := (hlength q hq).1
    omega
  · refine token?_eq_none_behind (fun p hp => ?_) hnone back'
    have hlong := (hlength p hp).2
    have hpos := List.length_pos_iff.mpr hne
    omega

/-- No opening begins with another one. -/
theorem pairwise_opening : inlineForms.Pairwise fun a b => ¬ a.opening <+: b.opening := by
  decide

theorem isRun_opening : ∀ form ∈ inlineForms, IsRun (!isBlank ·) form.opening := by
  decide

/-- A label with its connector behind what opens it, where a blank must come first. -/
def spaced? (form : InlineForm) (body : List Char) : Option ((Connector × List Char) × List Char) :=
  if body.head?.any isBlank then
    (closed? form body).map fun ((text, k), rest) => ((k, normalizeBreaks (unquote text)), rest)
  else none

/-- The first form whose opening and closing are there is read. -/
theorem inlineLabel?_eq (cs : List Char) :
    inlineLabel? cs =
      inlineForms.findSome? fun form => (strip? form.opening (skipGap cs)).bind (spaced? form) := by
  rw [inlineLabel?]
  congr 1
  funext form
  cases strip? form.opening (skipGap cs) with
  | none => rfl
  | some body =>
      simp only [Option.bind_eq_bind, Option.bind_some, spaced?, closed?]
      cases closedBy? form.closings body <;> rfl

/-- A connector around a label is read in the one form that its opening belongs to. -/
theorem inlineLabel?_of_opening {form : InlineForm} (hform : form ∈ inlineForms)
    {cs body : List Char} (hcs : skipGap cs = form.opening ++ body)
    {x : (Connector × List Char) × List Char} (h : spaced? form body = some x) :
    inlineLabel? cs = some x := by
  cases body with
  | nil => cases h
  | cons y body =>
      have hy : isBlank y = true := by
        unfold spaced? at h
        split at h
        · assumption
        · cases h
      rw [inlineLabel?_eq, hcs]
      refine findSome?_strip? pairwise_opening hform (fun other hother hmem => ?_) h
      exact (isRun_opening other hother).not_mem (by rw [hy, Bool.not_true]) hmem

/-- The blank behind the opening stands in front of what the closing leaves. -/
theorem spaced?_behind {form : InlineForm} (hform : form ∈ inlineForms)
    {front back back' rest : List Char} {x : Connector × List Char}
    (hclosed : ∀ {y}, closed? form (front ++ back) = some (y, rest ++ back) →
      closed? form (front ++ back') = some (y, rest ++ back'))
    (h : spaced? form (front ++ back) = some (x, rest ++ back)) :
    spaced? form (front ++ back') = some (x, rest ++ back') := by
  rw [spaced?] at h
  split at h
  · rename_i hblank
    obtain ⟨⟨⟨text, k⟩, left⟩, hread, heq⟩ := Option.map_eq_some_iff.mp h
    cases heq
    cases front with
    | nil =>
        have hlt := length_closed?_lt hform hread
        rw [List.length_append, List.nil_append] at hlt
        omega
    | cons y front =>
        have hblank' : (y :: front ++ back').head?.any isBlank = true := hblank
        rw [spaced?, if_pos hblank', hclosed hread]
        rfl
  · cases h

theorem local_spaced? {form : InlineForm} (hform : form ∈ inlineForms) :
    Local c d (spaced? form) := fun _ _ _ _ h back' =>
  spaced?_behind hform (fun hclosed => local_closed? hform hclosed back') h

theorem spaced?_suffix {form : InlineForm} {body rest : List Char} {x : Connector × List Char}
    (h : spaced? form body = some (x, rest)) : rest <:+ body := by
  unfold spaced? at h
  split at h
  · obtain ⟨⟨⟨text, k⟩, left⟩, hclosed, heq⟩ := Option.map_eq_some_iff.mp h
    cases heq
    obtain ⟨⟨text', k', left'⟩, hclosed, heq⟩ := Option.map_eq_some_iff.mp hclosed
    cases heq
    exact closedBy?_suffix hclosed
  · cases h

/-- A connector around a label stands in front of the mark, and with it a blank behind its
opening. -/
theorem local_inlineLabel? (mark : IsMark c d) {front back rest : List Char}
    {x : Connector × List Char}
    (h : inlineLabel? (front ++ c :: d :: back) = some (x, rest ++ c :: d :: back)) :
    3 ≤ (skipGap front).length ∧
      ∀ back', inlineLabel? (front ++ c :: d :: back') = some (x, rest ++ c :: d :: back') := by
  rw [inlineLabel?_eq] at h
  obtain ⟨form, hform, h⟩ := List.exists_of_findSome?_eq_some h
  obtain ⟨body, hbody, h⟩ := Option.bind_eq_some_iff.mp h
  obtain ⟨inner, rfl⟩ := (List.suffix_append rest _).trans (spaced?_suffix h)
  have hfront : skipGap front = form.opening ++ inner := by
    rw [skipGap_append mark] at hbody
    exact eq_append_of_strip? hbody
  constructor
  · have hinner : inner ≠ [] := by
      rintro rfl
      simp [spaced?, mark.blank] at h
    have hpos := List.length_pos_iff.mpr hinner
    rw [hfront, List.length_append, length_opening form hform]
    omega
  · intro back'
    refine inlineLabel?_of_opening hform ?_ (local_spaced? hform h back')
    rw [skipGap_append mark, hfront, List.append_assoc]

/-- Where no connector stands in front of a mark, none is found for what stands behind it. -/
theorem connector?_eq_none_behind (mark : IsMark c d) {front back : List Char}
    (hlength : 3 ≤ (skipGap front).length) (h : connector? (front ++ c :: d :: back) = none)
    (back' : List Char) : connector? (front ++ c :: d :: back') = none := by
  rw [connector?, skipGap_append mark] at h ⊢
  refine token?_eq_none_behind (fun p hp => ?_) h back'
  have hlong := (length_connector p hp).2
  omega

/-- A link is a connector with a label between bars, or a connector around its label. -/
theorem link?_eq (cs : List Char) :
    link? cs =
      (andThen? connector? barLabel? (fun k text => (k, text.bind link?.labelOf)) cs).or
        ((inlineLabel? cs).map fun ((k, text), rest) => ((k, link?.labelOf text), rest)) := by
  rw [link?, andThen?]
  rcases connector? cs with _ | ⟨k, rest⟩
  · rfl
  · simp only [Option.map_some, Option.some_or]
    cases barLabel? rest <;> rfl

theorem local_link? (mark : IsMark c d) : Local c d link? := by
  intro front back x rest h back'
  rw [link?_eq, Option.or_eq_some_iff] at h ⊢
  rcases h with h | ⟨hnone, h⟩
  · left
    exact local_andThen? (local_connector? mark) local_barLabel? barLabel?_suffix
      (barLabel?_eq_none_behind mark) _ h back'
  · obtain ⟨⟨⟨k, text⟩, left⟩, hinline, heq⟩ := Option.map_eq_some_iff.mp h
    cases heq
    obtain ⟨hlength, hread⟩ := local_inlineLabel? mark hinline
    rw [andThen?, Option.map_eq_none_iff] at hnone
    right
    rw [andThen?, connector?_eq_none_behind mark hlength hnone, hread back']
    exact ⟨rfl, rfl⟩

/-- A hop is a link and a reference behind it. -/
theorem hop?_eq_some_iff {cs rest : List Char} {p : Hop} :
    hop? cs = some (p, rest) ↔
      ∃ middle, link? cs = some ((p.connector, p.label), middle) ∧
        reference? middle = some (p.target, rest) := by
  simp only [hop?, Option.bind_eq_bind, Option.bind_eq_some_iff, Prod.exists, Option.some.injEq,
    Prod.mk.injEq]
  constructor
  · rintro ⟨k, label, middle, hlink, target, left, htarget, rfl, rfl⟩
    exact ⟨middle, hlink, htarget⟩
  · rintro ⟨middle, hlink, htarget⟩
    exact ⟨_, _, middle, hlink, _, _, htarget, rfl, rfl⟩

/-- A hop is read without a look behind the mark. -/
theorem local_hop? (mark : IsMark c d) : Local c d hop? := by
  intro front back p rest h back'
  obtain ⟨middle, hlink, htarget⟩ := hop?_eq_some_iff.mp h
  obtain ⟨mid, rfl⟩ := (List.suffix_append rest _).trans (reference?_suffix htarget).1
  exact hop?_eq_some_iff.mpr
    ⟨_, local_link? mark hlink back', local_reference? mark htarget back'⟩

/-! ### Paths -/

/-- Some hops lead from one rest of a line to another. -/
inductive HopsTo : List Char → List Hop → List Char → Prop
  | here (cs : List Char) : HopsTo cs [] cs
  | hop {cs rest at' : List Char} {p : Hop} {hops : List Hop} (h : hop? cs = some (p, rest))
      (more : HopsTo rest hops at') : HopsTo cs (p :: hops) at'

theorem HopsTo.suffix {cs rest : List Char} {hops : List Hop} (h : HopsTo cs hops rest) :
    rest <:+ cs := by
  induction h with
  | here cs => exact List.suffix_refl _
  | hop h _ ih => exact ih.trans (hop?_suffix h).1

/-- Hops that lead to a mark do so whatever stands behind the mark. -/
theorem HopsTo.local (mark : IsMark c d) {front back rest : List Char} {hops : List Hop}
    (h : HopsTo (front ++ c :: d :: back) hops (rest ++ c :: d :: back)) (back' : List Char) :
    HopsTo (front ++ c :: d :: back') hops (rest ++ c :: d :: back') := by
  induction hops generalizing front with
  | nil =>
      generalize hcs : front ++ c :: d :: back = cs at h
      generalize hrest : rest ++ c :: d :: back = left at h
      cases h
      rw [List.append_cancel_right (hcs.trans hrest.symm)]
      exact .here _
  | cons p hops ih =>
      cases h with
      | hop hp more =>
          obtain ⟨middle, rfl⟩ := (List.suffix_append rest _).trans more.suffix
          exact .hop (local_hop? mark hp back') (ih more)

/-- A chain takes the hops that lead to a rest of the line and goes on from there. -/
theorem HopsTo.chain_eq {cs rest : List Char} {hops : List Hop} (h : HopsTo cs hops rest) :
    chain cs = (hops ++ (chain rest).1, (chain rest).2) := by
  induction h with
  | here cs => rfl
  | hop h _ ih => rw [chain_of_hop? h, ih]; rfl

/-- A gap in front of a hop does not matter. -/
theorem hop?_skipGap (cs : List Char) : hop? (skipGap cs) = hop? cs := by
  have hlink : link? (skipGap cs) = link? cs := by
    simp only [link?_eq, andThen?, connector?, inlineLabel?_eq, skipGap_skipGap]
  rw [hop?, hlink, hop?]

/-- The readers of a path come to a place, gap aside: a node is mentioned, and hops lead there. -/
def Comes (cs place : List Char) : Prop :=
  ∃ first rest hops here, reference? cs = some (first, rest) ∧ HopsTo rest hops here ∧
    skipGap here = place

/-- A path that comes to a mark takes the same way whatever stands behind the mark. -/
theorem Comes.exists_way (mark : IsMark c d) {front back : List Char}
    (h : Comes (front ++ c :: d :: back) (c :: d :: back)) :
    ∃ first rest hops gap, skipGap gap = [] ∧ ∀ back',
      reference? (front ++ c :: d :: back') = some (first, rest ++ c :: d :: back') ∧
        HopsTo (rest ++ c :: d :: back') hops (gap ++ c :: d :: back') := by
  obtain ⟨first, left, hops, here, hfirst, hhops, hhere⟩ := h
  obtain ⟨gap, rfl⟩ : c :: d :: back <:+ here := hhere ▸ skipGap_suffix here
  obtain ⟨rest, rfl⟩ := (List.suffix_append gap _).trans hhops.suffix
  refine ⟨first, rest, hops, gap, ?_, fun back' => ⟨?_, hhops.local mark back'⟩⟩
  · rw [skipGap_append mark] at hhere
    exact List.append_left_eq_self.mp hhere
  · exact local_reference? mark hfirst back'

/-- How a path comes to a place is told by what stands in front of it. -/
theorem Comes.local (mark : IsMark c d) {front back : List Char}
    (h : Comes (front ++ c :: d :: back) (c :: d :: back)) (back' : List Char) :
    Comes (front ++ c :: d :: back') (c :: d :: back') := by
  obtain ⟨first, rest, hops, gap, hgap, hway⟩ := h.exists_way mark
  obtain ⟨hfirst, hhops⟩ := hway back'
  exact ⟨first, _, hops, _, hfirst, hhops, by rw [skipGap_append mark, hgap, List.nil_append]⟩

/-- A path goes on from a mark as the hop does that stands there. -/
theorem Comes.path?_eq (mark : IsMark c d) {front back back' : List Char}
    (h : Comes (front ++ c :: d :: back) (c :: d :: back))
    (hhop : hop? (c :: d :: back) = hop? (c :: d :: back')) :
    path? (front ++ c :: d :: back) = path? (front ++ c :: d :: back') := by
  obtain ⟨first, rest, hops, gap, hgap, hway⟩ := h.exists_way mark
  have hskip : ∀ back, skipGap (gap ++ c :: d :: back) = c :: d :: back := by
    intro back
    rw [skipGap_append mark, hgap, List.nil_append]
  have hread : ∀ back, path? (front ++ c :: d :: back) =
      if (hops ++ (chain (gap ++ c :: d :: back)).1).isEmpty &&
          !(skipGap (chain (gap ++ c :: d :: back)).2).isEmpty then none
      else some (.path first (hops ++ (chain (gap ++ c :: d :: back)).1)) := by
    intro back
    obtain ⟨hfirst, hhops⟩ := hway back
    simp only [path?, hfirst, hhops.chain_eq, Option.bind_eq_bind, Option.bind_some]
  rw [hread, hread]
  cases hp : hop? (c :: d :: back) with
  | none =>
      have hnone : ∀ back, hop? (c :: d :: back) = none →
          chain (gap ++ c :: d :: back) = ([], gap ++ c :: d :: back) := by
        intro back h
        rw [← hskip back, hop?_skipGap] at h
        exact chain_of_hop?_eq_none h
      rw [hnone back hp, hnone back' (hhop ▸ hp), hskip, hskip]
      rfl
  | some p =>
      have hsome : ∀ back, hop? (c :: d :: back) = some p →
          chain (gap ++ c :: d :: back) = (p.1 :: (chain p.2).1, (chain p.2).2) := by
        intro back h
        rw [← hskip back, hop?_skipGap] at h
        exact chain_of_hop? h
      rw [hsome back hp, hsome back' (hhop ▸ hp)]

end Whiteboard.Flowchart
