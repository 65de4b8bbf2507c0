/-
Decimal notation: how a number is written with the fewest digits.

Numbers from `10⁻⁵` up to but not including `10¹⁶` are written by position, with a zero behind the
point of a whole number; all others have one digit before the point and an exponent with its sign.
-/

import Whiteboard.Decimal.Shortest

namespace Whiteboard.Decimal

/-- The first power of ten that is not written by position. -/
def positionalEnd : Int := 16

/-- The least power of ten that is written by position. -/
def positionalStart : Int := -5

def zeros (n : Nat) : List Char :=
  List.replicate n '0'

/-- Digits by position, where the first of them counts powers `10 ^ place`. -/
def positional (digits : List Char) (place : Int) : List Char :=
  if place < 0 then
    '0' :: '.' :: (zeros (-place - 1).toNat ++ digits)
  else
    let whole := place.toNat + 1
    let fraction := digits.drop whole
    digits.take whole ++ zeros (whole - digits.length) ++
      '.' :: (if fraction.isEmpty then ['0'] else fraction)

/-- Digits with an exponent, where the first of them counts powers `10 ^ place`. -/
def scientific (digits : List Char) (place : Int) : List Char :=
  let fraction := digits.drop 1
  let sign := if place < 0 then '-' else '+'
  digits.take 1 ++ (if fraction.isEmpty then [] else '.' :: fraction) ++
    'e' :: sign :: Nat.toDigits 10 place.natAbs

def write (d : Decimal) : List Char :=
  let digits := Nat.toDigits 10 d.digits
  let place := d.exponent + digits.length - 1
  if positionalStart ≤ place && place < positionalEnd then positional digits place
  else scientific digits place

def isNegative (bits : UInt64) : Bool :=
  bits >>> 63 == 1

/-- A number with the fewest digits. Infinities and undefined numbers have none. -/
def numeral? (x : Float) : Option String :=
  if x.isFinite then
    let bits := x.toBits
    let binary := BinaryFraction.ofBits bits
    let decimal := if binary.significand = 0 then ⟨0, 0⟩ else binary.shortest
    let sign := if isNegative bits then ['-'] else []
    some (String.ofList (sign ++ decimal.write))
  else none

end Whiteboard.Decimal
