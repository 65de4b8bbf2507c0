/-
Entity statements: what one line of an entity-relationship diagram says.

Outside an attribute block a line is a relationship, with a multiplicity at either end or without,
or it opens the block of an entity; inside a block it is an attribute or closes the block. Where a
line can be cut in several ways, the first name is as long as possible, then each symbol comes
before the ones listed after it.
-/

import Whiteboard.Text.Line

namespace Whiteboard.Entity

open Text

/-! ### Multiplicities -/

/-- How many entities stand at one end of a relationship. -/
inductive Multiplicity where
  | one | zeroOrOne | zeroOrMore | many
deriving DecidableEq, Repr

namespace Multiplicity

def text : Multiplicity → String
  | one => "1"
  | zeroOrOne => "0..1"
  | zeroOrMore => "0..n"
  | many => "n"

/-- The multiplicity a symbol stands for. Any other text stands for many. -/
def ofSymbol (symbol : String) : Multiplicity :=
  if symbol == "||" then one
  else if symbol == "|o" || symbol == "o|" then zeroOrOne
  else if symbol == "\x7do" || symbol == "o\x7b" then zeroOrMore
  else many

end Multiplicity

/-- The symbols of multiplicity, longer ones before those they begin with. -/
def symbols : List (List Char) :=
  [['|', '|'], ['|', 'o'], ['o', '|'], ['}', '|'], ['|', '{'], ['}', 'o'], ['o', '{'], ['}'], ['{']]

/-! ### Statements -/

structure Relationship where
  left : String
  right : String
  /-- The symbols at the two ends, where they are written. -/
  ends : Option (String × String) := none
  /-- The relationship is drawn with a solid line. -/
  identifying : Bool
  label : Option String := none
deriving DecidableEq, Repr

/-- What stands at the line of a relationship: its label, else the multiplicities of its ends. -/
def Relationship.caption (r : Relationship) : Option String :=
  r.label.or (r.ends.map fun (a, b) =>
    (Multiplicity.ofSymbol a).text ++ ":" ++ (Multiplicity.ofSymbol b).text)

/-- What an attribute is a key for. -/
inductive Key where
  | primary | foreign | unique
deriving DecidableEq, Repr

def Key.text : Key → String
  | primary => "PK"
  | foreign => "FK"
  | unique => "UK"

structure Attribute where
  typeName : String
  name : String
  keys : List Key := []
deriving DecidableEq, Repr

def Attribute.display (a : Attribute) : String :=
  let head := a.typeName ++ " " ++ a.name
  if a.keys.isEmpty then head else head ++ " " ++ ", ".intercalate (a.keys.map Key.text)

/-- What a line outside an attribute block says. -/
inductive Statement where
  | relationship (r : Relationship)
  /-- Opens the block of an entity, perhaps giving it an alias and closing it at once. -/
  | opening (id : String) (otherName : Option String) (closed : Bool)
deriving DecidableEq, Repr

/-- What a line inside an attribute block says. -/
inductive BlockStatement where
  | attribute (a : Attribute)
  | close
deriving DecidableEq, Repr

/-! ### Relationships -/

def isNameChar (c : Char) : Bool :=
  c.isAlphanum || c == '_' || c == '-'

/-- The cuts of a text after its first `most`, …, `least` characters, the longest piece first. -/
def cuts (least most : Nat) (cs : List Char) : List (List Char × List Char) :=
  (List.range' least (most + 1 - least)).reverse.map fun n => (cs.take n, cs.drop n)

/-- The names a text may begin with, the longest first, and what follows each. -/
def names (cs : List Char) : List (List Char × List Char) :=
  cuts 1 (cs.takeWhile isNameChar).length cs

/-- The lines of two or more `c` a text may begin with, the longest first, and what follows each. -/
def dashes (c : Char) (cs : List Char) : List (List Char × List Char) :=
  cuts 2 (cs.takeWhile (· == c)).length cs

/-- A label as it is written behind a colon; an empty one is none. -/
def labelOf (cs : List Char) : Option String :=
  let label := trim (unquote cs)
  if label.isEmpty then none else some (String.ofList label)

/-- The label at the end of a relationship. It stands on one line behind a colon, or is left out. -/
def ending? (cs : List Char) : Option (Option String) :=
  match trimStart cs with
  | [] => some none
  | ':' :: rest =>
    let label := trimStart rest
    if label.contains '\n' then none else some (labelOf label)
  | _ => none

/-- The second name of a relationship and the label behind it. -/
def secondName? (cs : List Char) : Option (String × Option String) := do
  let (right, rest) ← run? isNameChar (trimStart cs)
  let label ← ending? rest
  some (String.ofList right, label)

/-- The two kinds of line between symbols, and whether it is the solid one. -/
def lines : List (List Char × Bool) :=
  [(['-', '-'], true), (['.', '.'], false)]

/-- A relationship with a symbol at either end of its line. -/
def relationship? (line : List Char) : Option Relationship :=
  (names line).findSome? fun (left, rest) =>
    symbols.findSome? fun a => do
      let rest ← strip? a (trimStart rest)
      lines.findSome? fun (token, identifying) => do
        let rest ← strip? token rest
        symbols.findSome? fun b => do
          let rest ← strip? b rest
          let (right, label) ← secondName? rest
          some
            { left := String.ofList left
              right
              ends := some (String.ofList a, String.ofList b)
              identifying
              label }

def plainRelationship? (line : List Char) : Option Relationship :=
  (names line).findSome? fun (left, rest) =>
    ['-', '.'].findSome? fun c =>
      (dashes c (trimStart rest)).findSome? fun (_, rest) => do
        let (right, label) ← secondName? rest
        some { left := String.ofList left, right, identifying := c == '-', label }

/-! ### Blocks -/

def dropOne (c : Char) : List Char → List Char
  | [] => []
  | d :: cs => if c == d then cs else d :: cs

/-- An alias in square brackets, quoted or not, and what follows it. -/
def otherName? (cs : List Char) : Option (List Char × List Char) := do
  let rest ← strip? ['['] cs
  let rest := dropOne '"' (trimStart rest)
  let inside := rest.takeWhile fun c => c != '"' && c != ']'
  let rest ← strip? [']'] (trimStart (dropOne '"' (rest.drop inside.length)))
  some (inside, rest)

/-- The opening of an entity's block: a name, perhaps an alias, a brace, and perhaps the brace that
closes the block again. -/
def opening? (line : List Char) : Option Statement := do
  let (id, rest) ← run? isNameChar line
  let rest := trimStart rest
  let (otherName, rest) := (otherName? rest).getD ([], rest)
  let rest ← strip? ['{'] (trimStart rest)
  let closed ←
    match trimStart rest with
    | [] => some false
    | ['}'] => some true
    | _ => none
  let otherName := trim otherName
  let otherName := if otherName.isEmpty then none else some (String.ofList otherName)
  some (.opening (String.ofList id) otherName closed)

def isTypeChar (c : Char) : Bool :=
  c.isAlphanum || "_()[],.<>*-".toList.contains c

def isAttributeChar (c : Char) : Bool :=
  c.isAlphanum || c == '_' || c == '*' || c == '-'

/-- A key here, behind blanks and perhaps a comma. -/
def key? (cs : List Char) : Option (Key × List Char) :=
  let cs := trimStart (dropOne ',' (trimStart cs))
  [Key.primary, .foreign, .unique].findSome? fun k =>
    (strip? k.text.toList cs).map fun rest => (k, rest)

theorem length_dropOne_le (c : Char) (cs : List Char) : (dropOne c cs).length ≤ cs.length := by
  unfold dropOne
  split
  · simp
  · split <;> simp

/-- Reading a key uses some of the text up. -/
theorem length_lt_of_key? {cs rest : List Char} {k : Key} (h : key? cs = some (k, rest)) :
    rest.length < cs.length := by
  obtain ⟨k', -, hk⟩ := List.exists_of_findSome?_eq_some h
  simp only [Option.map_eq_some_iff, Prod.mk.injEq] at hk
  obtain ⟨r, hr, rfl, rfl⟩ := hk
  have h₁ := congrArg List.length (strip?_eq_some.1 hr)
  have h₂ := length_trimStart_le (dropOne ',' (trimStart cs))
  have h₃ := length_dropOne_le ',' (trimStart cs)
  have h₄ := length_trimStart_le cs
  have h₅ : 0 < k'.text.toList.length := by cases k' <;> decide
  rw [List.length_append] at h₁
  omega

/-- The keys here, as many as follow one another, and what stands behind them. -/
def keys (cs : List Char) : List Key × List Char :=
  match _h : key? cs with
  | none => ([], cs)
  | some (k, rest) =>
    let (ks, rest) := keys rest
    (k :: ks, rest)
termination_by cs.length
decreasing_by exact length_lt_of_key? _h

/-- Nothing is left but perhaps a comment in double quotes. -/
def endsInComment (cs : List Char) : Bool :=
  match cs with
  | [] => true
  | '"' :: cs => cs.dropWhile (· != '"') == ['"']
  | _ => false

/-- An attribute: a type, a name, keys and perhaps a comment. -/
def attribute? (line : List Char) : Option Attribute := do
  let (typeName, rest) ← run? isTypeChar line
  let (_, rest) ← run? isBlank rest
  let (name, rest) ← run? isAttributeChar rest
  let (ks, rest) := keys rest
  if endsInComment (trimStart rest) then
    some { typeName := String.ofList typeName, name := String.ofList name, keys := ks }
  else none

/-! ### Reading a line -/

/-- What a line outside an attribute block says, if it says anything. -/
def Statement.ofLine? (line : List Char) : Option Statement :=
  let line := trim line
  ((relationship? line).map .relationship).or
    (((plainRelationship? line).map .relationship).or (opening? line))

/-- What a line inside an attribute block says, if it says anything. -/
def BlockStatement.ofLine? (line : List Char) : Option BlockStatement :=
  let line := trim line
  if line == ['}'] then some .close else (attribute? line).map .attribute

end Whiteboard.Entity
