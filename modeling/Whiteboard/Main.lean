/-
The program: a command line carried out on real files.
-/

import Whiteboard.CommandLine.Run

namespace Whiteboard.CommandLine

def faultOf : IO.Error → Fault
  | .noFileOrDirectory _ code details | .inappropriateType _ code details
  | .permissionDenied _ code details | .invalidArgument _ code details
  | .resourceExhausted _ code details | .noSuchThing _ code details
  | .otherError code details => ⟨details, some code.toNat⟩
  | e => ⟨toString e, none⟩

def attempt (action : IO α) : IO (Except Fault α) := do
  match ← action.toBaseIO with
  | .ok a => return .ok a
  | .error e => return .error (faultOf e)

def processSurroundings : Surroundings IO where
  readInput := return (← attempt do (← IO.getStdin).readBinToEnd) >>= decode
  readFile path := return (← attempt (IO.FS.readBinFile path)) >>= decode
  writeOutput text := attempt do
    let stdout ← IO.getStdout
    stdout.putStr text
    stdout.flush
  writeFile path text := attempt (IO.FS.writeFile path text)

end Whiteboard.CommandLine

open Whiteboard.CommandLine

def main (words : List String) : IO UInt32 := do
  match Invocation.ofWords words with
  | .error e => return e.code.toUInt32
  | .ok i =>
    match ← i.perform processSurroundings with
    | .ok () => return 0
    | .error failure =>
      IO.eprint (complaint failure.message)
      return 1
