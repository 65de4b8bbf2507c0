/-
Shortest decimals: the fewest digits that tell a binary fraction from all others.

The reals that are nearer to a binary fraction than to its neighbours form an interval around it.
The shortest decimal of the fraction lies in that interval and has as few digits as any number
there; of two it is the nearer one, and of two equally near the even one. The search is carried out
in natural numbers and so is exact.
-/

namespace Whiteboard

/-- A binary fraction of 53 bits: `significand * 2 ^ exponent`. -/
structure BinaryFraction where
  significand : Nat
  exponent : Int
  /-- The neighbour below is half as far away as the one above. -/
  isNarrowBelow : Bool := false
deriving DecidableEq, Repr

/-- A decimal: `digits * 10 ^ exponent`. -/
structure Decimal where
  digits : Nat
  exponent : Int
deriving DecidableEq, Repr

def Decimal.strip (d : Decimal) : Decimal :=
  if d.digits ≠ 0 ∧ d.digits % 10 = 0 then strip ⟨d.digits / 10, d.exponent + 1⟩ else d
termination_by d.digits
decreasing_by omega

namespace BinaryFraction

/-- The binary fraction that the bits of a finite number stand for, without its sign. -/
def ofBits (bits : UInt64) : BinaryFraction :=
  let exponent : Nat := (bits >>> 52 &&& 0x7ff).toNat
  let fraction : Nat := (bits &&& 0xfffffffffffff).toNat
  if exponent = 0 then { significand := fraction, exponent := -1074 }
  else
    { significand := 0x10000000000000 + fraction
      exponent := (exponent : Int) - 1075
      isNarrowBelow := fraction = 0 && 1 < exponent }

/-- A number times `base ^ k`, or the number itself if `k` is negative. -/
def raise (n base : Nat) (k : Int) : Nat :=
  n * Nat.pow base k.toNat

/-- How a decimal compares with `n * 2 ^ k`. -/
def compareDecimal (d : Decimal) (n : Nat) (k : Int) : Ordering :=
  compare (raise (raise d.digits 10 d.exponent) 2 (-k)) (raise (raise n 2 k) 10 (-d.exponent))

/-- The decimal is nearer to the fraction than to its neighbours. The ends of the interval belong to
an even significand. -/
def isNearest (x : BinaryFraction) (d : Decimal) : Bool :=
  let low := if x.isNarrowBelow then 4 * x.significand - 1 else 4 * x.significand - 2
  let high := 4 * x.significand + 2
  let ends := x.significand % 2 == 0
  let atLow := compareDecimal d low (x.exponent - 2)
  let atHigh := compareDecimal d high (x.exponent - 2)
  (atLow == .gt || ends && atLow == .eq) && (atHigh == .lt || ends && atHigh == .eq)

def floor (x : BinaryFraction) (k : Int) : Nat :=
  raise (raise x.significand 2 x.exponent) 10 (-k) / raise (raise 1 2 (-x.exponent)) 10 k

/-- The nearest decimal in units of `10 ^ k`, if the interval holds one. -/
def onGrid? (x : BinaryFraction) (k : Int) : Option Decimal :=
  let below : Decimal := ⟨x.floor k, k⟩
  let above : Decimal := ⟨x.floor k + 1, k⟩
  match x.isNearest below, x.isNearest above with
  | false, false => none
  | true, false => some below
  | false, true => some above
  | true, true =>
    match compareDecimal ⟨below.digits + above.digits, k⟩ (2 * x.significand) x.exponent with
    | .gt => some below
    | .lt => some above
    | .eq => some (if below.digits % 2 = 0 then below else above)

/-- The least power of ten above the fraction, searched in a few steps from `k`. -/
def scaleFrom (x : BinaryFraction) : (steps : Nat) → (k : Int) → Int
  | 0, k => k
  | steps + 1, k => if x.floor k = 0 then k else scaleFrom x steps (k + 1)

/-- The least power of ten above the fraction. The search begins at the power of two below it, as a
power of ten. -/
def scale (x : BinaryFraction) : Int :=
  scaleFrom x 3 (((x.significand.log2 : Int) + x.exponent) * 30103 / 100000)

def maxDigits : Nat := 17

def exact (x : BinaryFraction) : Decimal :=
  if 0 ≤ x.exponent then ⟨raise x.significand 2 x.exponent, 0⟩
  else ⟨raise x.significand 5 (-x.exponent), x.exponent⟩


def shortest (x : BinaryFraction) : Decimal :=
  let scale := x.scale
  let found := (List.range maxDigits).findSome? fun n : Nat => x.onGrid? (scale - (n + 1 : Nat))
  (found.getD x.exact).strip

end BinaryFraction

end Whiteboard
