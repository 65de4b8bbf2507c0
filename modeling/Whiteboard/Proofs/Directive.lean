import Whiteboard.Directive
import Whiteboard.Proofs.Text.Blank
import Whiteboard.Proofs.Text.Search

/-!
Texts with and without directive blocks.

`IsFirst` is the block that begins first and, of those that begin there, ends first; it is the one
that is read (`block?_eq_some_iff`). `Blanked` puts a line feed in the place of one first block
after the other until none is left. As no block can arise across a line feed, stripping leaves a
text without blocks (`strip_spec`), however the marks are nested, repeated or left open. What a
block says is found where a key or an id begins with one of its own characters (`themeAt?_cons`,
`stylesAt?_cons`, `pairs_cons`).
-/

namespace Whiteboard.Directive

open Text

def Block.text (b : Block) : List Char :=
  b.before ++ opening ++ b.body ++ closing ++ b.after

/-- The text has an opening mark, and a closing mark somewhere behind it. -/
def HasBlock (cs : List Char) : Prop :=
  ∃ b : Block, b.text = cs

/-- The block begins before every other block of the text, or else begins with it and ends no later.
-/
structure IsFirst (cs : List Char) (b : Block) : Prop where
  text_eq : b.text = cs
  first : ∀ b' : Block, b'.text = cs →
    b.before.length < b'.before.length ∨
      b.before.length = b'.before.length ∧ b.body.length ≤ b'.body.length

/-- A text and what is left of it when a line feed has been put in the place of its first block,
then in the place of the first block behind that one, and so on until there is none. -/
inductive Blanked : List Char → List Char → Prop where
  | clear {cs : List Char} : ¬ HasBlock cs → Blanked cs cs
  | block {cs rest : List Char} {b : Block} :
      IsFirst cs b → Blanked b.after rest → Blanked cs (b.before ++ '\n' :: rest)

/-! ### The block that is read -/

theorem text_eq (b : Block) :
    b.text = b.before ++ opening ++ (b.body ++ closing ++ b.after) := by
  simp only [Block.text, List.append_assoc]

/-- A block stays a block in a longer text. -/
theorem HasBlock.of_isInfix {cs cs' : List Char} (h : HasBlock cs) (hin : cs <:+: cs') :
    HasBlock cs' := by
  obtain ⟨b, rfl⟩ := h
  obtain ⟨front, back, hcs⟩ := hin
  refine ⟨⟨front ++ b.before, b.body, b.after ++ back⟩, ?_⟩
  rw [← hcs]
  simp only [Block.text, List.append_assoc]

/-- Where there is a block there is an opening mark. -/
theorem HasBlock.opening_isInfix {cs : List Char} (h : HasBlock cs) : opening <:+: cs := by
  obtain ⟨b, rfl⟩ := h
  exact ⟨b.before, b.body ++ closing ++ b.after, (text_eq b).symm⟩

/-- Looking for a block is cutting at the first opening mark, and behind it at the first closing
mark. -/
theorem block?_eq (cs : List Char) :
    block? cs = (cut? opening cs).bind fun (before, rest) =>
      (cut? closing rest).map fun (body, after) => ⟨before, body, after⟩ := by
  rw [block?]
  cases cut? opening cs with
  | none => rfl
  | some p => cases h : cut? closing p.2 <;> simp [h]

/-- The block that is read is cut out at both its marks. -/
theorem block?_iff_cuts {cs : List Char} {b : Block} :
    block? cs = some b ↔
      ∃ rest, cut? opening cs = some (b.before, rest) ∧
        cut? closing rest = some (b.body, b.after) := by
  rw [block?_eq]
  constructor
  · intro h
    obtain ⟨⟨before, rest⟩, hopen, h⟩ := Option.bind_eq_some_iff.mp h
    obtain ⟨⟨body, after⟩, hclose, rfl⟩ := Option.map_eq_some_iff.mp h
    exact ⟨rest, hopen, hclose⟩
  · rintro ⟨rest, hopen, hclose⟩
    rw [hopen, Option.bind_some]
    dsimp only
    rw [hclose]
    rfl

/-- What stands behind the opening mark of a block stands behind the first opening mark. -/
theorem suffix_of_cut? {b : Block} {before rest : List Char}
    (h : cut? opening b.text = some (before, rest)) : b.body ++ closing ++ b.after <:+ rest := by
  have hb : b.body ++ closing ++ b.after <:+ b.text := ⟨_, (text_eq b).symm⟩
  have hrest : rest <:+ b.text := ⟨_, (eq_append_of_cut? h).symm⟩
  refine List.suffix_of_suffix_length_le hb hrest ?_
  have hle := length_le_of_cut? h (text_eq b)
  have heq := congrArg List.length (eq_append_of_cut? h)
  simp only [text_eq, List.length_append] at heq ⊢
  omega

/-- No block is read if there is none. -/
theorem block?_eq_none_iff {cs : List Char} : block? cs = none ↔ ¬ HasBlock cs := by
  constructor
  · rintro h ⟨b, rfl⟩
    cases hopen : cut? opening b.text with
    | none =>
        exact cut?_eq_none_iff.mp hopen (HasBlock.opening_isInfix ⟨b, rfl⟩)
    | some p =>
        rw [block?_eq, hopen, Option.bind_some, Option.map_eq_none_iff, cut?_eq_none_iff] at h
        apply h
        have hclosing : closing <:+: b.body ++ closing ++ b.after := ⟨_, _, rfl⟩
        exact hclosing.trans (suffix_of_cut? hopen).isInfix
  · intro h
    rw [Option.eq_none_iff_forall_ne_some]
    intro b hb
    exact h ⟨b, (eq_append_of_block? hb).symm⟩

/-- The search finds the leftmost block, and of those that begin there the shortest. -/
theorem isFirst_of_block? {cs : List Char} {b : Block} (h : block? cs = some b) :
    IsFirst cs b where
  text_eq := (eq_append_of_block? h).symm
  first b' hb' := by
    obtain ⟨rest, hopen, hclose⟩ := block?_iff_cuts.mp h
    subst hb'
    rcases Nat.lt_or_eq_of_le (length_le_of_cut? hopen (text_eq b')) with hlt | heq
    · exact Or.inl hlt
    · have htext : b'.before ++ (opening ++ (b'.body ++ closing ++ b'.after)) =
          b.before ++ (opening ++ rest) := by
        rw [← List.append_assoc, ← text_eq, eq_append_of_cut? hopen, List.append_assoc]
      have hrest := List.append_cancel_left (List.append_inj htext heq.symm).2
      exact Or.inr ⟨heq, length_le_of_cut? hclose hrest.symm⟩

/-- A text has only one first block. -/
theorem IsFirst.unique {cs : List Char} {b b' : Block} (h : IsFirst cs b) (h' : IsFirst cs b') :
    b = b' := by
  have h₁ := h.first b' h'.text_eq
  have h₂ := h'.first b h.text_eq
  have hbefore : b.before.length = b'.before.length := by omega
  have hbody : b.body.length = b'.body.length := by omega
  have htext := h.text_eq.trans h'.text_eq.symm
  simp only [Block.text, List.append_assoc] at htext
  obtain ⟨hb, htext⟩ := List.append_inj htext hbefore
  obtain ⟨hd, htext⟩ := List.append_inj (List.append_cancel_left htext) hbody
  cases b
  cases b'
  simp_all

/-- The block that is read is the first one. -/
theorem block?_eq_some_iff {cs : List Char} {b : Block} : block? cs = some b ↔ IsFirst cs b := by
  constructor
  · exact isFirst_of_block?
  · intro h
    cases hb : block? cs with
    | none => exact absurd ⟨b, h.text_eq⟩ (block?_eq_none_iff.mp hb)
    | some b' => rw [h.unique (isFirst_of_block? hb)]

/-! ### What a block says -/

@[simp] theorem pairs_nil : pairs [] = [] := by
  rw [pairs]
  rfl

/-- A pair that stands at the front is the first one. -/
theorem pairs_of_pairAt? {cs rest : List Char} {p : List Char × List Char}
    (h : pairAt? cs = some (p, rest)) : pairs cs = p :: pairs rest := by
  rw [pairs]
  split
  · rename_i p' rest' hsome
    rw [h] at hsome
    cases hsome
    rfl
  · rename_i hnone
    rw [h] at hnone
    cases hnone

/-- Where no pair begins, the search goes on with the next character. -/
theorem pairs_cons_of_pairAt?_eq_none {c : Char} {cs : List Char} (h : pairAt? (c :: cs) = none) :
    pairs (c :: cs) = pairs cs := by
  rw [pairs]
  split
  · rename_i p rest hsome
    rw [h] at hsome
    cases hsome
  · rfl

/-- The key of a theme begins with its first letter. -/
theorem themeAt?_cons {c : Char} (h : c ≠ 't') (cs : List Char) : themeAt? (c :: cs) = none := by
  have hkey : strip? "theme".toList (c :: cs) = none := if_neg (Ne.symm h)
  rw [themeAt?, hkey]
  rfl

theorem stylesAt?_cons {c : Char} (h : c ≠ 's') (cs : List Char) : stylesAt? (c :: cs) = none := by
  have hkey : strip? "styles".toList (c :: cs) = none := if_neg (Ne.symm h)
  rw [stylesAt?, hkey]
  rfl

/-- A pair begins with a character of its id. -/
theorem pairAt?_cons {c : Char} (h : isIdChar c = false) (cs : List Char) :
    pairAt? (c :: cs) = none := by
  have hrun : run? isIdChar (c :: cs) = none := by
    rw [run?, List.takeWhile_cons_of_neg (by simp [h])]
    rfl
  rw [pairAt?, hrun]
  rfl

/-- A character that no id holds is passed over. -/
theorem pairs_cons {c : Char} (h : isIdChar c = false) (cs : List Char) :
    pairs (c :: cs) = pairs cs :=
  pairs_cons_of_pairAt?_eq_none (pairAt?_cons h cs)

/-! ### Stripping -/

theorem blankOut_of_block?_eq_none {cs : List Char} (h : block? cs = none) : blankOut cs = cs := by
  rw [blankOut]
  split
  · rfl
  · rename_i b hb
    rw [h] at hb
    cases hb

/-- Blanking out goes from block to block. -/
theorem blankOut_of_block?_eq_some {cs : List Char} {b : Block} (h : block? cs = some b) :
    blankOut cs = b.before ++ '\n' :: blankOut b.after := by
  rw [blankOut]
  split
  · rename_i hnone
    rw [h] at hnone
    cases hnone
  · rename_i b' hb
    rw [h] at hb
    cases hb
    rfl

/-- What is left of a text is what blanking leaves of it. -/
theorem blanked_iff {cs out : List Char} : Blanked cs out ↔ out = blankOut cs := by
  constructor
  · intro h
    induction h with
    | clear hno => rw [blankOut_of_block?_eq_none (block?_eq_none_iff.mpr hno)]
    | block hfirst _ ih => rw [blankOut_of_block?_eq_some (block?_eq_some_iff.mpr hfirst), ih]
  · rintro rfl
    fun_induction blankOut cs with
    | case1 cs h => exact .clear (block?_eq_none_iff.mp h)
    | case2 cs b h ih => exact .block (isFirst_of_block? h) ih

/-- A block behind a line feed is read as if the line feed began the text. -/
theorem block?_append_break {a b : List Char} (ha : ¬ opening <:+: a) :
    block? (a ++ '\n' :: b) =
      (block? b).map fun k => { k with before := a ++ '\n' :: k.before } := by
  rw [block?_eq, cut?_append_cons (by decide) ha, block?_eq]
  cases cut? opening b with
  | none => rfl
  | some p => cases h : cut? closing p.2 <;> simp [h]

/-- No block begins in front of the first one. -/
theorem opening_not_infix_before {cs : List Char} {b : Block} (h : block? cs = some b) :
    ¬ opening <:+: b.before := by
  obtain ⟨rest, hopen, -⟩ := block?_iff_cuts.mp h
  exact not_infix_of_cut? (by decide) hopen

/-- Blanking leaves no block, not even one made of the marks on the two sides of another. -/
theorem block?_blankOut (cs : List Char) : block? (blankOut cs) = none := by
  fun_induction blankOut cs with
  | case1 cs h => exact h
  | case2 cs b h ih =>
      rw [block?_append_break (opening_not_infix_before h), ih, Option.map_none]

/-- Stripping leaves no block, not even one put together from what stood around others. -/
theorem not_hasBlock_strip (cs : List Char) : ¬ HasBlock (strip cs) := fun h =>
  block?_eq_none_iff.mp (block?_blankOut cs) (h.of_isInfix (trim_isInfix _))

/-- A text without blocks is only trimmed. -/
theorem strip_of_not_hasBlock {cs : List Char} (h : ¬ HasBlock cs) : strip cs = trim cs := by
  rw [strip, blankOut_of_block?_eq_none (block?_eq_none_iff.mpr h)]

/-- Stripping twice is stripping once. -/
@[simp] theorem strip_strip (cs : List Char) : strip (strip cs) = strip cs := by
  rw [strip_of_not_hasBlock (not_hasBlock_strip cs), strip, trim_trim]

/-- Stripping puts a line feed in the place of each block, found from left to right, each as short
as it can be, and trims what is left. There is no block any more, so that nothing is left to be
stripped or read; and a text without an opening mark is only trimmed. -/
theorem strip_spec (cs : List Char) :
    ¬ HasBlock (strip cs) ∧ strip (strip cs) = strip cs ∧ ofText (strip cs) = {} ∧
      (∃ out, (∀ out', Blanked cs out' ↔ out' = out) ∧ strip cs = trim out) ∧
      (¬ opening <:+: cs → strip cs = trim cs) := by
  refine ⟨not_hasBlock_strip cs, strip_strip cs, ?_, ⟨blankOut cs, fun _ => blanked_iff, rfl⟩, ?_⟩
  · rw [ofText, block?_eq_none_iff.mpr (not_hasBlock_strip cs)]
  · intro h
    exact strip_of_not_hasBlock fun hblock => h hblock.opening_isInfix

end Whiteboard.Directive
