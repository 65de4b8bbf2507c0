/-
File systems: what a run needs of the files around it.

A path opens a file, for reading or for writing, or there is a fault. A file holds bytes, and
writing to it changes what it holds and what no other file holds. Nothing else is asked of a file
system: it may have links and permissions, and paths may lead where they like.
-/

namespace Whiteboard.CommandLine

/-- Why a file or a stream cannot be read or written. -/
structure Fault where
  description : String
  /-- The number that the system has for it. -/
  code : Option Nat := none
deriving DecidableEq, Repr

namespace Fault

def notText : Fault := ⟨"stream did not contain valid UTF-8", none⟩

def notFound : Fault := ⟨"No such file or directory", some 2⟩

def notDirectory : Fault := ⟨"Not a directory", some 20⟩

def isDirectory : Fault := ⟨"Is a directory", some 21⟩

def nameTooLong : Fault := ⟨"File name too long", some 36⟩

def message (f : Fault) : String :=
  match f.code with
  | none => f.description
  | some code => f.description ++ " (os error " ++ toString code ++ ")"

end Fault

def decode (bytes : ByteArray) : Except Fault String :=
  match String.fromUTF8? bytes with
  | some text => .ok text
  | none => .error .notText

/-- A text is read from the bytes that encode it. -/
@[simp]
theorem decode_toUTF8 (text : String) : decode text.toUTF8 = .ok text := by
  simp [decode, String.fromUTF8?, String.fromUTF8, text.isValidUTF8]

/-- Files, and how paths lead to them. -/
structure FileSystem where
  /-- All there is at one time. -/
  State : Type
  /-- What can hold bytes, however many paths lead to it. -/
  File : Type
  /-- The file that a path opens for reading. -/
  source : State → String → Except Fault File
  /-- The file that a path opens for writing, which need not be there before. -/
  target : State → String → Except Fault File
  /-- What a file holds, if it is there. -/
  bytes? : State → File → Option ByteArray
  /-- What is there after some bytes have taken the place of what a file held. -/
  put : State → File → ByteArray → State
  bytes?_put (s : State) (f : File) (b : ByteArray) : bytes? (put s f b) f = some b
  bytes?_put_of_ne {f f' : File} (s : State) (b : ByteArray) :
    f' ≠ f → bytes? (put s f b) f' = bytes? s f'

namespace FileSystem

def read (fs : FileSystem) (s : fs.State) (path : String) : Except Fault String := do
  match fs.bytes? s (← fs.source s path) with
  | some bytes => decode bytes
  | none => .error .notFound

/-- The text of a file is in its bytes. -/
theorem read_eq_decode {fs : FileSystem} {s : fs.State} {path : String} {file : fs.File}
    {bytes : ByteArray} (hsource : fs.source s path = .ok file)
    (hbytes : fs.bytes? s file = some bytes) : fs.read s path = decode bytes := by
  rw [read, hsource]
  simp [bind, Except.bind, hbytes]

end FileSystem

end Whiteboard.CommandLine
