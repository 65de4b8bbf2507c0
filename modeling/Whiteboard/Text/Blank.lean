/-
Blank characters and trimming.

A text is a list of characters throughout the readers. `isBlank` is the class every reader skips;
`trim` takes blanks off both ends and nothing else: `trim` of a trimmed text is the text itself.
-/

namespace Whiteboard.Text

/-- A blank is one of the twenty-five characters with Unicode's property `White_Space`. -/
def isBlank (c : Char) : Bool :=
  ('\t' ≤ c && c ≤ '\r') || c == ' ' || c == '\u0085' || c == '\u00a0' || c == '\u1680' ||
    ('\u2000' ≤ c && c ≤ '\u200a') || c == '\u2028' || c == '\u2029' || c == '\u202f' ||
    c == '\u205f' || c == '\u3000'

def trimStart (cs : List Char) : List Char :=
  cs.dropWhile isBlank

def trimEnd (cs : List Char) : List Char :=
  (cs.reverse.dropWhile isBlank).reverse

/-- The text without the blanks at its two ends. -/
def trim (cs : List Char) : List Char :=
  trimEnd (trimStart cs)

/-- Every character in lower case, as far as the Latin letters A to Z go. -/
def lower (cs : List Char) : List Char :=
  cs.map Char.toLower

@[simp] theorem trimStart_nil : trimStart [] = [] := rfl

@[simp] theorem trimEnd_nil : trimEnd [] = [] := rfl

@[simp] theorem trim_nil : trim [] = [] := rfl

theorem length_trimStart_le (cs : List Char) : (trimStart cs).length ≤ cs.length :=
  (List.dropWhile_suffix isBlank).length_le

theorem length_trimEnd_le (cs : List Char) : (trimEnd cs).length ≤ cs.length := by
  have h := (List.dropWhile_suffix isBlank (l := cs.reverse)).length_le
  simpa [trimEnd] using h

end Whiteboard.Text
