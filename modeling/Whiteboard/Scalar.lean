/-
Scalars: the numbers that lengths and coordinates are made of.

All geometry is written once, over any type with arithmetic and an order that can be decided. Run
with `Float` it computes as the machine does, operation by operation; read with `Rat` the same
definitions say what it computes without rounding. No law of arithmetic is assumed of a scalar.
-/

namespace Whiteboard

/-- A type of numbers with the operations of arithmetic and a decidable order. -/
class Scalar (α : Type) extends Add α, Sub α, Mul α, Div α, Neg α, LT α, LE α where
  /-- A natural number as a scalar. -/
  ofNat : Nat → α
  decLt : (a b : α) → Decidable (a < b)
  decLe : (a b : α) → Decidable (a ≤ b)

namespace Scalar

instance : Scalar Float where
  ofNat := Float.ofNat
  decLt := fun _ _ => inferInstance
  decLe := fun _ _ => inferInstance

instance : Scalar Rat where
  ofNat n := (n : Rat)
  decLt := fun _ _ => inferInstance
  decLe := fun _ _ => inferInstance

variable {α : Type} [Scalar α]

instance (priority := low) instDecidableLt (a b : α) : Decidable (a < b) :=
  decLt a b

instance (priority := low) instDecidableLe (a b : α) : Decidable (a ≤ b) :=
  decLe a b

instance (priority := low) instOfNat (n : Nat) : OfNat α n :=
  ⟨ofNat n⟩

/-- The greater of two scalars: the second if they are equal, and the other one if one of them
compares with nothing. -/
def max (a b : α) : α :=
  if b < a then a else if b ≤ b then b else a

/-- The lesser of two scalars: the second if they are equal, and the other one if one of them
compares with nothing. -/
def min (a b : α) : α :=
  if a < b then a else if b ≤ b then b else a

def abs (a : α) : α :=
  if a < 0 then -a else a

/-- The sum of some scalars, added from the left. It begins with the first of them, so that negative
zeros add up to a negative zero. -/
def sum : List α → α
  | [] => 0
  | x :: xs => xs.foldl (· + ·) x

def greatest (xs : List α) : α :=
  xs.foldl max 0

/-- Where a piece begins if the pieces before it lie one after the other from `start`, each followed
by a gap. -/
def offset (gap start : α) (pieces : List α) : α :=
  pieces.foldl (fun position piece => position + (piece + gap)) start

end Scalar

end Whiteboard
