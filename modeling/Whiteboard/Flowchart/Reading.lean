/-
Readings: single steps over a flowchart line that keep their place in it.

A reading answers a question about the rest of a line and moves on. One that finds nothing stays
where it is, except that a reading which allows a gap in front of what it looks for has passed the
gap. The rest after a reading is always a suffix of the rest before it.
-/

import Whiteboard.Flowchart.Scan

namespace Whiteboard.Flowchart

open Text

/-- A question about the rest of a line. -/
inductive Reading where
  /-- Is the line at its end? -/
  | atEnd
  /-- Does this text come next? -/
  | sees (token : List Char)
  /-- Take this text. -/
  | take (token : List Char)
  /-- Pass a gap. -/
  | gap
  | id
  | direction
  /-- A quoted text, where a double quote comes next. -/
  | quoted
  /-- A node label up to a closing bracket. -/
  | label (closing : List Char)
  | definition
  | reference
  | connector
  | barLabel
  | inlineLabel
  | chain
deriving DecidableEq, Repr

namespace Reading

def Answer : Reading → Type
  | atEnd | sees _ | take _ => Bool
  | gap => Unit
  | id | quoted | barLabel => Option String
  | direction => Option Direction
  | label _ => String
  | definition => Option Definition
  | reference => Option Reference
  | connector => Option Connector
  | inlineLabel => Option (Connector × String)
  | chain => List Hop

/-- What was found with the rest behind it, or nothing with the rest to stay at. -/
def found (stay : List Char) : Option (α × List Char) → Option α × List Char
  | some (a, rest) => (some a, rest)
  | none => (none, stay)

/-- The answer at the rest `cs` of a line, and the rest after the reading. -/
def run : (r : Reading) → (cs : List Char) → r.Answer × List Char
  | atEnd, cs => (cs.isEmpty, cs)
  | sees token, cs => ((strip? token cs).isSome, cs)
  | take token, cs =>
    match strip? token cs with
    | some rest => (true, rest)
    | none => (false, cs)
  | gap, cs => ((), skipGap cs)
  | id, cs => found cs ((id? cs).map fun (a, rest) => (String.ofList a, rest))
  | direction, cs => found cs (direction? cs)
  | quoted, cs => found cs ((quoted? cs).map fun (a, rest) => (String.ofList a, rest))
  | label closing, cs =>
    let (a, rest) := Flowchart.label closing cs
    (String.ofList a, rest)
  | definition, cs => found cs (definition? cs)
  | reference, cs => found (skipGap cs) (reference? cs)
  | connector, cs => found (skipGap cs) (connector? cs)
  | barLabel, cs =>
    found (skipGap cs) ((barLabel? cs).map fun (a, rest) => (String.ofList a, rest))
  | inlineLabel, cs =>
    found (skipGap cs) ((inlineLabel? cs).map fun ((k, a), rest) => ((k, String.ofList a), rest))
  | chain, cs => Flowchart.chain cs

end Reading

end Whiteboard.Flowchart
