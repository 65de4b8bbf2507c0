/-
Runs: from what a command line asks for to what is left behind.

A run goes through four steps: the direction is looked up, the text is read, the scene is drawn, and
it is delivered to the one place asked for. The first step that fails ends the run, and what it left
undone stays undone. The steps are the same whatever surroundings they are taken in; a `Session` is
the kind that can be reasoned about, some file system with an input and an output.
-/

import Whiteboard.CommandLine.Arguments
import Whiteboard.CommandLine.FileSystem
import Whiteboard.Draw

namespace Whiteboard.CommandLine

/-! ### Failures -/

inductive Failure where
  | direction (token : String)
  | input (fault : Fault)
  | read (path : String) (fault : Fault)
  | document (e : Document.Error)
  | write (path : String) (fault : Fault)
  | output (fault : Fault)
deriving DecidableEq, Repr

def Failure.message : Failure → String
  | direction token => "unknown direction '" ++ token ++ "'; use TD, TB, BT, LR or RL"
  | input fault => "cannot read stdin: " ++ fault.message
  | read path fault => "cannot read '" ++ path ++ "': " ++ fault.message
  | document e => e.message
  | write path fault => "cannot write '" ++ path ++ "': " ++ fault.message
  | output fault => "cannot write stdout: " ++ fault.message

/-! ### The steps of a run -/

/-- What a run does to its surroundings. -/
structure Surroundings (m : Type → Type) where
  readInput : m (Except Fault String)
  readFile : String → m (Except Fault String)
  writeOutput : String → m (Except Fault Unit)
  writeFile : String → String → m (Except Fault Unit)

def settings (direction : Option Direction) (seed : UInt64) : Settings Float :=
  { Settings.standard with direction, seed }

namespace Invocation

def heading (i : Invocation) : Except Failure (Option Direction) :=
  match i.direction with
  | none => .ok none
  | some token =>
    match Direction.ofToken? token.toList with
    | some direction => .ok (some direction)
    | none => .error (.direction token)

def format (i : Invocation) : Json.Format :=
  if i.pretty then .pretty else .compact

variable {m : Type → Type} [Monad m]

def text (i : Invocation) (around : Surroundings m) : m (Except Failure String) :=
  match i.input with
  | none => return (← around.readInput).mapError .input
  | some path => return (← around.readFile path).mapError (.read path)

def drawing (i : Invocation) (direction : Option Direction) (text : String) :
    Except Failure String :=
  (Document.drawJson .keystream (settings direction i.seed) i.format text).mapError .document

/-- Delivers a drawing, which ends in a line feed on standard output only. -/
def deliver (i : Invocation) (around : Surroundings m) (json : String) :
    m (Except Failure Unit) :=
  match i.output with
  | none => return (← around.writeOutput (json ++ "\n")).mapError .output
  | some path => return (← around.writeFile path json).mapError (.write path)

def perform (i : Invocation) (around : Surroundings m) : m (Except Failure Unit) := do
  match i.heading with
  | .error failure => return .error failure
  | .ok direction =>
    match ← i.text around with
    | .error failure => return .error failure
    | .ok text =>
      match i.drawing direction text with
      | .error failure => return .error failure
      | .ok json => i.deliver around json

end Invocation

/-! ### Runs in a session -/

structure Streams where
  /-- The bytes up to the end of the input, unless it cannot be read. -/
  input : Except Fault ByteArray
  /-- Whether the output takes a text. It takes all of it or nothing. -/
  accepts : String → Except Fault Unit := fun _ => .ok ()

def Streams.text (streams : Streams) : Except Fault String :=
  streams.input >>= decode

theorem Streams.text_of_toUTF8 (streams : Streams) (text : String) :
    Streams.text { streams with input := .ok text.toUTF8 } = .ok text :=
  decode_toUTF8 text

/-- The files and what has been written to the output. -/
structure Session (fs : FileSystem) where
  files : fs.State
  output : String := ""

def Session.surroundings {fs : FileSystem} (streams : Streams) :
    Surroundings (StateM (Session fs)) where
  readInput := fun s => (streams.text, s)
  readFile := fun path s => (fs.read s.files path, s)
  writeOutput := fun text s =>
    match streams.accepts text with
    | .ok () => (.ok (), { s with output := s.output ++ text })
    | .error fault => (.error fault, s)
  writeFile := fun path text s =>
    match fs.target s.files path with
    | .ok file => (.ok (), { s with files := fs.put s.files file text.toUTF8 })
    | .error fault => (.error fault, s)

structure Outcome (fs : FileSystem) where
  code : Nat
  stdout : String
  /-- What has been written to standard error, the lines of the log aside. -/
  stderr : String
  files : fs.State

def complaint (message : String) : String :=
  "error: " ++ message ++ "\n"

def Invocation.run {fs : FileSystem} (i : Invocation) (files : fs.State) (streams : Streams) :
    Outcome fs :=
  let (result, session) := i.perform (Session.surroundings streams) { files }
  match result with
  | .ok () => { code := 0, stdout := session.output, stderr := "", files := session.files }
  | .error failure =>
    { code := 1
      stdout := session.output
      stderr := complaint failure.message
      files := session.files }

/-- What the words of a command line leave behind, if they ask for a drawing. -/
def run {fs : FileSystem} (words : List String) (files : fs.State) (streams : Streams) :
    Except Interruption (Outcome fs) := do
  let i ← Invocation.ofWords words
  return i.run files streams

end Whiteboard.CommandLine
