/-
The keystream: random words as a pure function of a key and a position.

The stream is that of the ChaCha cipher with twelve rounds, a block counter of sixty-four bits that
begins at zero, and a nonce of zero. The key is drawn from a seed of sixty-four bits by a permuted
congruential generator.
-/

namespace Whiteboard

abbrev Key := Vector UInt32 8

namespace Key

/-- A word turned to the right by some number of bits. -/
def turnRight (x n : UInt32) : UInt32 :=
  (x >>> n) ||| (x <<< ((32 - n) % 32))

/-- The next state of the generator that spreads a seed over a key. -/
def advance (state : UInt64) : UInt64 :=
  state * 6364136223846793005 + 11634580027462260723

def output (state : UInt64) : UInt32 :=
  turnRight (((state >>> 18) ^^^ state) >>> 27).toUInt32 (state >>> 59).toUInt32

def states (seed : UInt64) : Nat → UInt64
  | 0 => advance seed
  | i + 1 => advance (states seed i)

def ofSeed (seed : UInt64) : Key :=
  Vector.ofFn fun i => output (states seed i.val)

end Key

namespace Keystream

abbrev Block := Vector UInt32 16

/-- A word turned to the left by some number of bits. -/
def turnLeft (x n : UInt32) : UInt32 :=
  (x <<< n) ||| (x >>> (32 - n))

def quarter (a b c d : Fin 16) (s : Block) : Block :=
  let s := s.set a (s[a] + s[b])
  let s := s.set d (turnLeft (s[d] ^^^ s[a]) 16)
  let s := s.set c (s[c] + s[d])
  let s := s.set b (turnLeft (s[b] ^^^ s[c]) 12)
  let s := s.set a (s[a] + s[b])
  let s := s.set d (turnLeft (s[d] ^^^ s[a]) 8)
  let s := s.set c (s[c] + s[d])
  s.set b (turnLeft (s[b] ^^^ s[c]) 7)

def doubleRound (s : Block) : Block :=
  let s := quarter 0 4 8 12 s
  let s := quarter 1 5 9 13 s
  let s := quarter 2 6 10 14 s
  let s := quarter 3 7 11 15 s
  let s := quarter 0 5 10 15 s
  let s := quarter 1 6 11 12 s
  let s := quarter 2 7 8 13 s
  quarter 3 4 9 14 s

def rounds : Nat → Block → Block
  | 0, s => s
  | k + 1, s => rounds k (doubleRound s)

/-- The block at a count before it is mixed: four constants, the key, the count and the nonce. -/
def initial (key : Key) (count : UInt64) : Block :=
  #v[0x61707865, 0x3320646e, 0x79622d32, 0x6b206574,
    key[0], key[1], key[2], key[3], key[4], key[5], key[6], key[7],
    count.toUInt32, (count >>> 32).toUInt32, 0, 0]

def block (key : Key) (count : UInt64) : Block :=
  let s := initial key count
  s.zipWith (· + ·) (rounds 6 s)

def word (key : Key) (position : Nat) : UInt32 :=
  (block key (position / 16).toUInt64)[position % 16]

/-- The quotient of a scaled word leaves room for one more where its remainder is large. -/
theorem quotient_lt {n high low : Nat} {w : UInt32} (hlow : UInt32.size - n < low)
    (h : UInt32.size * high + low = w.toNat * n) : high + 1 < n := by
  have hw : w.toNat * n ≤ (UInt32.size - 1) * n := Nat.mul_le_mul_right n (by
    have := w.toNat_lt
    rw [UInt32.size]
    omega)
  rw [UInt32.size] at *
  omega

end Keystream

/-- A keystream that has been read up to a position. -/
structure Keystream where
  key : Key
  position : Nat := 0
deriving DecidableEq, Repr

namespace Keystream

def ofSeed (seed : UInt64) : Keystream where
  key := .ofSeed seed

/-- A number below `n`. A word is scaled to that range; where its remainder leaves the last bit
open, a second word decides it. -/
def below (n : Nat) (hn : 0 < n) (s : Keystream) : Fin n × Keystream :=
  let product := (word s.key s.position).toNat * n
  let high := product / UInt32.size
  let low := product % UInt32.size
  if h : UInt32.size - n < low then
    let carry := (word s.key (s.position + 1)).toNat * n / UInt32.size
    let rounded := if UInt32.size ≤ low + carry then high + 1 else high
    (⟨rounded, by
      have := quotient_lt h (Nat.div_add_mod product UInt32.size)
      grind⟩, { s with position := s.position + 2 })
  else
    (⟨high, by
      have hw := (word s.key s.position).toNat_lt
      exact Nat.div_lt_of_lt_mul (Nat.mul_lt_mul_of_pos_right hw hn)⟩,
      { s with position := s.position + 1 })

end Keystream

end Whiteboard
