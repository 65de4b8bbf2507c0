/-
Arguments: what the words of a command line ask for.

A word of two dashes and a name is a switch, one of a dash and letters is a switch for each letter.
A switch that takes a value has it in the same word, behind an equals sign if it has a long name, or
in the next word, which must not look like a switch. All other words name the input, and so do all
words behind one of two dashes only. No switch but the one for verbosity may be given twice, and
there is one input at most.
-/

import Whiteboard.Text.Search

namespace Whiteboard.CommandLine

open Text

/-- A drawing that a command line asks for. -/
structure Invocation where
  /-- The file to read. Without one the text comes from standard input. -/
  input : Option String := none
  /-- The file to write. Without one the drawing goes to standard output. -/
  output : Option String := none
  /-- The direction in the place of the one a flowchart asks for, as it is written. -/
  direction : Option String := none
  seed : UInt64 := 1
  /-- The drawing is written over several lines. -/
  pretty : Bool := false
deriving DecidableEq, Repr

inductive Flag where
  | pretty | verbose | help
deriving DecidableEq, Repr

inductive Parameter where
  | output | direction | seed
deriving DecidableEq, Repr

inductive Switch where
  | flag (f : Flag)
  | parameter (p : Parameter)
deriving DecidableEq, Repr

namespace Switch

def names : List (List Char × Switch) :=
  [("output".toList, .parameter .output),
   ("direction".toList, .parameter .direction),
   ("seed".toList, .parameter .seed),
   ("pretty".toList, .flag .pretty),
   ("verbose".toList, .flag .verbose),
   ("help".toList, .flag .help)]

def letters : List (Char × Switch) :=
  [('o', .parameter .output),
   ('d', .parameter .direction),
   ('v', .flag .verbose),
   ('h', .flag .help)]

def ofName? (name : List Char) : Option Switch :=
  names.lookup name

def ofLetter? (letter : Char) : Option Switch :=
  letters.lookup letter

end Switch

/-! ### Words -/

/-- A word of a command line by its form. -/
inductive Word where
  /-- Two dashes only: no switch follows. -/
  | separator
  /-- A long name, with a value behind an equals sign or none. -/
  | long (name : List Char) (value : Option (List Char))
  /-- The letters of short switches, which may end in a value. -/
  | short (letters : List Char)
  | plain
deriving DecidableEq, Repr

def Word.ofText : List Char → Word
  | ['-', '-'] => .separator
  | '-' :: '-' :: cs =>
    match cut? ['='] cs with
    | some (name, value) => .long name (some value)
    | none => .long cs none
  | ['-'] => .plain
  | '-' :: cs => .short cs
  | _ => .plain

/-! ### Reading the words -/

/-- What keeps a command line from being read to its end. -/
inductive Interruption where
  /-- Help is asked for. -/
  | help
  /-- The words ask for nothing that there is. -/
  | misuse
deriving DecidableEq, Repr

def Interruption.code : Interruption → Nat
  | help => 0
  | misuse => 2

/-- A seed: digits below `2 ^ 64`, a plus sign allowed in front of them. -/
def seed? (cs : List Char) : Option UInt64 :=
  let digits := (strip? ['+'] cs).getD cs
  let value := digits.foldl (fun n c => 10 * n + (c.toNat - '0'.toNat)) 0
  if !digits.isEmpty && digits.all Char.isDigit && value < UInt64.size then some (.ofNat value)
  else none

/-- What the words read so far ask for. -/
structure Draft where
  input : Option String := none
  output : Option String := none
  direction : Option String := none
  seed : Option UInt64 := none
  pretty : Bool := false
  /-- The parameter whose value is the next word. -/
  pending : Option Parameter := none
  /-- No word is a switch any more. -/
  isClosed : Bool := false
deriving DecidableEq, Repr

namespace Draft

def raise (d : Draft) : Flag → Except Interruption Draft
  | .pretty => if d.pretty then .error .misuse else .ok { d with pretty := true }
  | .verbose => .ok d
  | .help => .error .help

def assign (d : Draft) (p : Parameter) (value : List Char) : Except Interruption Draft :=
  let text := String.ofList value
  match p with
  | .output =>
    if d.output.isSome then .error .misuse else .ok { d with output := some text }
  | .direction =>
    if d.direction.isSome then .error .misuse else .ok { d with direction := some text }
  | .seed =>
    if d.seed.isSome then .error .misuse
    else
      match seed? value with
      | some seed => .ok { d with seed := some seed }
      | none => .error .misuse

def addInput (d : Draft) (word : String) : Except Interruption Draft :=
  if d.input.isSome then .error .misuse else .ok { d with input := some word }

/-- Reads the letters of a word. All that follows the letter of a parameter is its value. -/
def readLetters (d : Draft) : List Char → Except Interruption Draft
  | [] => .ok d
  | letter :: rest =>
    match Switch.ofLetter? letter with
    | none => .error .misuse
    | some (.flag f) => do
      let d ← d.raise f
      readLetters d rest
    | some (.parameter p) =>
      if rest.isEmpty then .ok { d with pending := some p }
      else d.assign p ((strip? ['='] rest).getD rest)

def readName (d : Draft) (name : List Char) (value : Option (List Char)) :
    Except Interruption Draft :=
  match Switch.ofName? name, value with
  | none, _ => .error .misuse
  | some (.flag f), none => d.raise f
  | some (.flag _), some _ => .error .misuse
  | some (.parameter p), none => .ok { d with pending := some p }
  | some (.parameter p), some value => d.assign p value

/-- Reads a word where a value may be due. -/
def read (d : Draft) (word : String) : Except Interruption Draft :=
  if d.isClosed then d.addInput word
  else
    match Word.ofText word.toList, d.pending with
    | .plain, some p => { d with pending := none }.assign p word.toList
    | .plain, none => d.addInput word
    | _, some _ => .error .misuse
    | .separator, none => .ok { d with isClosed := true }
    | .long name value, none => d.readName name value
    | .short letters, none => d.readLetters letters

def finish (d : Draft) : Except Interruption Invocation :=
  match d.pending with
  | some _ => .error .misuse
  | none =>
    .ok
      { input := d.input
        output := d.output
        direction := d.direction
        seed := d.seed.getD 1
        pretty := d.pretty }

end Draft

def Invocation.ofWords (words : List String) : Except Interruption Invocation := do
  let draft ← words.foldlM Draft.read {}
  draft.finish

end Whiteboard.CommandLine
