/-
The presentation directive of a diagram text.

A directive block is written between `%%` with a brace and a brace with `%%`; only the first block
is read. It may name a theme and give style categories to ids in a `styles` map; a category that is
not in the vocabulary is dropped. `Directive.strip` puts a line feed in the place of every block, so
what stood on its two sides can never join into a new one.
-/

import Whiteboard.Diagram.Basic
import Whiteboard.Text.Search

namespace Whiteboard.Directive

open Text

/-! ### Blocks -/

def opening : List Char := ['%', '%', '{']

def closing : List Char := ['}', '%', '%']

/-- A text around its first block. -/
structure Block where
  before : List Char
  body : List Char
  after : List Char

/-- The first opening mark with the first closing mark behind it. -/
def block? (cs : List Char) : Option Block := do
  let (before, rest) ← cut? opening cs
  let (body, after) ← cut? closing rest
  some { before, body, after }

/-- A text with a block is what stands before it, the block, and what stands after it. -/
theorem eq_append_of_block? {cs : List Char} {b : Block} (h : block? cs = some b) :
    cs = b.before ++ opening ++ b.body ++ closing ++ b.after := by
  simp only [block?, Option.bind_eq_bind, Option.bind_eq_some_iff, Prod.exists] at h
  obtain ⟨before, rest, h₁, body, after, h₂, h₃⟩ := h
  cases h₃
  simp [eq_append_of_cut? h₁, eq_append_of_cut? h₂]

/-- The rest behind a block is shorter, so blanking out blocks comes to an end. -/
theorem length_after_lt {cs : List Char} {b : Block} (h : block? cs = some b) :
    b.after.length < cs.length := by
  rw [eq_append_of_block? h]
  simp only [List.length_append, opening, closing, List.length_cons, List.length_nil]
  omega

/-- The text with each block, found from left to right, replaced by one line feed. -/
def blankOut (cs : List Char) : List Char :=
  match _h : block? cs with
  | none => cs
  | some b => b.before ++ '\n' :: blankOut b.after
termination_by cs.length
decreasing_by exact length_after_lt _h

def strip (cs : List Char) : List Char :=
  trim (blankOut cs)

/-! ### What a block says -/

def isTokenChar (c : Char) : Bool :=
  c.isAlphanum || c == '_' || c == '-'

/-- The characters of an id in a styles map. -/
def isIdChar (c : Char) : Bool :=
  isTokenChar c || c == '.'

def dropQuote : List Char → List Char
  | '"' :: cs => cs
  | '\'' :: cs => cs
  | cs => cs

/-- What follows the colon behind a key: the key's closing quote and the blanks around the colon are
skipped. -/
def afterColon? (cs : List Char) : Option (List Char) :=
  match trimStart (dropQuote cs) with
  | ':' :: rest => some (trimStart rest)
  | _ => none

/-- The token that is the value of the key `theme` here. -/
def themeAt? (cs : List Char) : Option (List Char) := do
  let rest ← strip? "theme".toList cs
  let rest ← afterColon? rest
  let (token, _) ← run? isTokenChar (dropQuote rest)
  some token

/-- The inside of the brace-free map that is the value of the key `styles` here. -/
def stylesAt? (cs : List Char) : Option (List Char) := do
  let rest ← strip? "styles".toList cs
  let rest ← afterColon? rest
  let rest ← strip? ['{'] rest
  let inside := rest.takeWhile fun c => c != '{' && c != '}'
  let _ ← strip? ['}'] (rest.drop inside.length)
  some inside

/-- An id, a colon and a category token here, and what follows them. -/
def pairAt? (cs : List Char) : Option ((List Char × List Char) × List Char) := do
  let (id, rest) ← run? isIdChar cs
  let rest ← afterColon? rest
  let (token, rest) ← run? isTokenChar (dropQuote rest)
  some ((id, token), rest)

theorem length_dropQuote_le (cs : List Char) : (dropQuote cs).length ≤ cs.length := by
  unfold dropQuote
  split <;> simp

theorem length_lt_of_afterColon? {cs rest : List Char} (h : afterColon? cs = some rest) :
    rest.length < cs.length := by
  unfold afterColon? at h
  split at h
  · rename_i r hr
    cases h
    have h₁ := length_trimStart_le r
    have h₂ := length_trimStart_le (dropQuote cs)
    have h₃ := length_dropQuote_le cs
    rw [hr, List.length_cons] at h₂
    omega
  · cases h

/-- Reading a pair uses some of the text up. -/
theorem length_lt_of_pairAt? {cs rest : List Char} {p : List Char × List Char}
    (h : pairAt? cs = some (p, rest)) : rest.length < cs.length := by
  simp only [pairAt?, Option.bind_eq_bind, Option.bind_eq_some_iff, Prod.exists,
    Option.some.injEq, Prod.mk.injEq] at h
  obtain ⟨id, r₁, h₁, r₂, h₂, token, r₃, h₃, -, rfl⟩ := h
  have e₁ := congrArg List.length (eq_append_of_run? h₁).1
  have e₂ := length_lt_of_afterColon? h₂
  have e₃ := congrArg List.length (eq_append_of_run? h₃).1
  have e₄ := length_dropQuote_le r₂
  simp only [List.length_append] at e₁ e₃
  omega

/-- The pairs of an id and a category token inside a styles map, from left to right. -/
def pairs (cs : List Char) : List (List Char × List Char) :=
  match _h : pairAt? cs with
  | some (p, rest) => p :: pairs rest
  | none =>
    match cs with
    | [] => []
    | _ :: cs => pairs cs
termination_by cs.length
decreasing_by
  · exact length_lt_of_pairAt? _h
  · simp

/-- Adds the pair of an id and a token to the overrides if the token names a category. -/
def addPair (m : Overrides) (pair : List Char × List Char) : Overrides :=
  match Category.parse (String.ofList pair.2) with
  | .ok c => m.insert (String.ofList pair.1) c
  | .error _ => m

/-- What the body of a block says: the first theme and the pairs of the first styles map. -/
def ofBody (body : List Char) : Directive where
  theme := (firstAt? themeAt? body).map String.ofList
  overrides := (pairs ((firstAt? stylesAt? body).getD [])).foldl addPair []

/-- What the first block of a text says. A text without a block says nothing. -/
def ofText (cs : List Char) : Directive :=
  match block? cs with
  | none => {}
  | some b => ofBody b.body

end Whiteboard.Directive
