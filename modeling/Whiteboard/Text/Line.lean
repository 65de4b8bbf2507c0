/-
The lines of a diagram text and the small readings every dialect shares: which lines count, how a
header line splits, how a keyword opens a line, how quotes come off and how line breaks are written
inside a label.
-/

import Whiteboard.Text.Search

namespace Whiteboard.Text

/-- The lines that carry meaning: trimmed, not empty, and not a `%%` comment. -/
def significantLines (cs : List Char) : List (List Char) :=
  ((cs.splitOn '\n').map trim).filter fun line =>
    !line.isEmpty && (strip? ['%', '%'] line).isNone

/-- A header's keyword ends at the first blank or semicolon. -/
def endsKeyword (c : Char) : Bool :=
  isBlank c || c == ';'

/-- A header line as its keyword and what stands after the blanks and semicolons behind it. -/
def splitHeader (line : List Char) : List Char × List Char :=
  let keyword := line.takeWhile (!endsKeyword ·)
  (keyword, (line.drop keyword.length).dropWhile endsKeyword)

/-- Two texts are the same up to the case of Latin letters. -/
def sameLetters (a b : List Char) : Bool :=
  lower a == lower b

/-- What stands after `keyword`, trimmed, if the line opens with it as a whole word in any case. -/
def stripKeyword? (keyword line : List Char) : Option (List Char) :=
  let rest := line.drop keyword.length
  if sameLetters (line.take keyword.length) keyword && (rest.isEmpty || rest.head?.any isBlank) then
    some (trim rest)
  else none

/-- The text between two quotes `q`, if it has them at both ends. -/
def unquoteWith? (q : Char) (cs : List Char) : Option (List Char) :=
  if 2 ≤ cs.length && cs.head? == some q && cs.getLast? == some q then some cs.tail.dropLast
  else none

/-- The trimmed text without one pair of surrounding double or else single quotes. -/
def unquote (cs : List Char) : List Char :=
  let cs := trim cs
  ((unquoteWith? '"' cs).or (unquoteWith? '\'' cs)).getD cs

/-- The three spellings of a line break inside a label. -/
def breakTags : List (List Char) :=
  ["<br/>".toList, "<br />".toList, "<br>".toList]

/-- The text with a line feed for every line break tag, one spelling after the other. -/
def normalizeBreaks (cs : List Char) : List Char :=
  breakTags.foldl (fun cs tag => replaceAll tag ['\n'] cs) cs

end Whiteboard.Text
