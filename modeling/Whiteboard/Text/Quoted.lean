/-
Quoted texts: a text as it is shown inside a message.

Double quotes surround it; quotes, backslashes and four controls are escaped by a backslash, and any
other character that would not be seen is given by its code point.
-/

import Whiteboard.Text.Printable

namespace Whiteboard.Text

def hex (n : Nat) : List Char :=
  Nat.toDigits 16 n

def escape (c : Char) : List Char :=
  if c == '\x00' then ['\\', '0']
  else if c == '\t' then ['\\', 't']
  else if c == '\r' then ['\\', 'r']
  else if c == '\n' then ['\\', 'n']
  else if c == '"' then ['\\', '"']
  else if c == '\\' then ['\\', '\\']
  else if isPrintable c then [c]
  else ['\\', 'u', '{'] ++ hex c.toNat ++ ['}']

def quote (cs : List Char) : List Char :=
  '"' :: cs.flatMap escape ++ ['"']

end Whiteboard.Text
