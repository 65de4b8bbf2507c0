/-
JSON: structured values and how they are written.

An object is a list of fields and is written in their order. A value is written either on one line
without any blanks or over several lines, two blanks deeper on each level. A string escapes only
what it must: quotes, backslashes and controls.
-/

import Whiteboard.Decimal.Notation

namespace Whiteboard

inductive Json where
  | null
  | bool (b : Bool)
  | natural (n : Nat)
  | number (x : Float)
  | string (s : String)
  | array (items : List Json)
  | object (fields : List (String × Json))
deriving Repr

namespace Json

def ofString? (s : Option String) : Json :=
  (s.map string).getD null

/-! ### Strings -/

/-- A digit of a code point below 256, in lower case. -/
def hexDigits (n : Nat) : List Char :=
  [Nat.digitChar (n / 16), Nat.digitChar (n % 16)]

def escape (c : Char) : List Char :=
  if c == '"' then ['\\', '"']
  else if c == '\\' then ['\\', '\\']
  else if c == '\n' then ['\\', 'n']
  else if c == '\r' then ['\\', 'r']
  else if c == '\t' then ['\\', 't']
  else if c == '\x08' then ['\\', 'b']
  else if c == '\x0c' then ['\\', 'f']
  else if c.toNat < 0x20 then ['\\', 'u', '0', '0'] ++ hexDigits c.toNat
  else [c]

def quote (s : String) : String :=
  String.ofList ('"' :: s.toList.flatMap escape ++ ['"'])

/-! ### Values -/

inductive Format where
  /-- On one line. -/
  | compact
  /-- Over several lines. -/
  | pretty
deriving DecidableEq, Repr

namespace Format

/-- What stands before an item on a level, and before the bracket that closes the level above it. -/
def newline (f : Format) (level : Nat) : String :=
  match f with
  | compact => ""
  | pretty => String.ofList ('\n' :: List.replicate (2 * level) ' ')

/-- What stands between the name and the value of a field. -/
def colon : Format → String
  | compact => ":"
  | pretty => ": "

/-- Items in brackets on a level. Without any item the brackets stand together. -/
def enclose (f : Format) (level : Nat) (opening closing : Char) (items : List String) : String :=
  if items.isEmpty then String.ofList [opening, closing]
  else
    let separator := "," ++ f.newline (level + 1)
    opening.toString ++ f.newline (level + 1) ++ separator.intercalate items ++
      f.newline level ++ closing.toString

end Format

mutual

/-- A value that begins on a level. A number that is not finite is written as nothing. -/
def render (f : Format) (level : Nat) : Json → String
  | null => "null"
  | bool b => if b then "true" else "false"
  | natural n => String.ofList (Nat.toDigits 10 n)
  | number x => (Decimal.numeral? x).getD "null"
  | string s => quote s
  | array items => f.enclose level '[' ']' (renderItems f (level + 1) items)
  | object fields => f.enclose level '{' '}' (renderFields f (level + 1) fields)

def renderItems (f : Format) (level : Nat) : List Json → List String
  | [] => []
  | item :: items => render f level item :: renderItems f level items

def renderFields (f : Format) (level : Nat) : List (String × Json) → List String
  | [] => []
  | (name, value) :: fields =>
    (quote name ++ f.colon ++ render f level value) :: renderFields f level fields

end

def toText (f : Format) (value : Json) : String :=
  value.render f 0

end Json

end Whiteboard
