/-
Generators: where random numbers come from.

A drawing asks for numbers below a bound and for nothing else, so that all that is said of drawings
holds whatever generator they are made with. The program uses that of a keystream.
-/

import Whiteboard.Identity.Keystream

namespace Whiteboard

structure Generator where
  State : Type
  ofSeed : UInt64 → State
  /-- A number below a bound, and the state behind it. -/
  below (n : Nat) : 0 < n → State → Fin n × State

namespace Generator

def keystream : Generator where
  State := Keystream
  ofSeed := .ofSeed
  below := Keystream.below

end Generator

end Whiteboard
