/-
Trees: a file system of names.

A path is followed one step at a time, from the root or from the working directory, and each step
must start in a directory; the step up from the root stays there. What a file stands in is a
directory, and there may be directories without files. Writing makes files, never directories.
-/

import Whiteboard.CommandLine.FileSystem

namespace Whiteboard.CommandLine

/-! ### Paths -/

inductive Step where
  | down (name : String)
  | stay
  | up
deriving DecidableEq, Repr

namespace Step

def ofPart (part : List Char) : Step :=
  if part == ['.'] then .stay
  else if part == ['.', '.'] then .up
  else .down (String.ofList part)

def isDown : Step → Bool
  | .down _ => true
  | .stay | .up => false

end Step

structure Path where
  /-- It starts at the root. -/
  isAbsolute : Bool
  steps : List Step
  endsInSlash : Bool
deriving DecidableEq, Repr

namespace Path

/-- The number of bytes that a path stays below. -/
def sizeLimit : Nat := 4096

def maxNameSize : Nat := 255

/-- The path that a text writes, with one or more slashes between its parts. -/
def parse (text : String) : Except Fault Path :=
  let parts := text.toList.splitOn '/'
  if text.isEmpty then .error .notFound
  else if sizeLimit ≤ text.utf8ByteSize then .error .nameTooLong
  else
    .ok
      { isAbsolute := text.toList.head? == some '/'
        steps := (parts.filter (!·.isEmpty)).map Step.ofPart
        endsInSlash := parts.getLast? == some [] }

end Path

/-! ### Trees -/

/-- The names that lead from the root to a place. -/
abbrev Place := List String

def Place.next (place : Place) : Step → Except Fault Place
  | .stay => .ok place
  | .up => .ok place.dropLast
  | .down name =>
    if Path.maxNameSize < name.utf8ByteSize then .error .nameTooLong else .ok (place ++ [name])

structure Tree where
  files : List (Place × ByteArray)
  /-- Directories, besides those in which a file or the working directory stands. -/
  directories : List Place := []
  /-- The directory that a path starts from unless it starts at the root. -/
  working : Place := []

namespace Tree

/-- What is found at a place. -/
inductive Entry where
  | file (bytes : ByteArray)
  | directory
  /-- Nothing yet, but a file could be made there. -/
  | vacant

def hasDirectory (t : Tree) (place : Place) : Bool :=
  (t.working :: t.directories).any place.isPrefixOf ||
    t.files.any fun file => place.isPrefixOf file.1 && place != file.1

def entry (t : Tree) (place : Place) : Entry :=
  if t.hasDirectory place then .directory
  else
    match t.files.lookup place with
    | some bytes => .file bytes
    | none => .vacant

def enter (t : Tree) (place : Place) : Except Fault Place :=
  match t.entry place with
  | .directory => .ok place
  | .file _ => .error .notDirectory
  | .vacant => .error .notFound

def follow (t : Tree) (start : Place) (steps : List Step) : Except Fault Place :=
  steps.foldlM (fun place step => do (← t.enter place).next step) start

def start (t : Tree) (p : Path) : Place :=
  if p.isAbsolute then [] else t.working

/-- The place of the file that a path opens for reading. -/
def source (t : Tree) (path : String) : Except Fault Place := do
  let p ← Path.parse path
  let place ← t.follow (t.start p) p.steps
  match t.entry place with
  | .vacant => .error .notFound
  | .directory => .error .isDirectory
  | .file _ => if p.endsInSlash then .error .notDirectory else .ok place

/-- The place of the file that a path opens for writing. A path that ends in a slash behind a name
asks for a directory, whatever stands under the name. -/
def target (t : Tree) (path : String) : Except Fault Place := do
  let p ← Path.parse path
  if p.endsInSlash && p.steps.getLast?.any Step.isDown then
    let _ ← t.enter (← t.follow (t.start p) p.steps.dropLast)
    .error .isDirectory
  else
    let place ← t.follow (t.start p) p.steps
    match t.entry place with
    | .directory => .error .isDirectory
    | .file _ | .vacant => .ok place

def put (t : Tree) (place : Place) (bytes : ByteArray) : Tree :=
  { t with files := t.files.filter (·.1 != place) ++ [(place, bytes)] }

theorem lookup_filter_self (files : List (Place × ByteArray)) (place : Place) :
    (files.filter (·.1 != place)).lookup place = none := by
  rw [List.lookup_eq_none_iff]
  intro file hfile
  have hne := (List.mem_filter.mp hfile).2
  rwa [bne_comm] at hne

theorem lookup_filter_ne {place place' : Place} (hne : place' ≠ place)
    (files : List (Place × ByteArray)) :
    (files.filter (·.1 != place)).lookup place' = files.lookup place' := by
  induction files with
  | nil => rfl
  | cons file files ih =>
    by_cases hfile : file.1 = place
    · have hfalse : (place' == file.1) = false := by simpa [hfile] using hne
      rw [List.filter_cons_of_neg (by simp [hfile]), ih, List.lookup_cons, hfalse]
    · rw [List.filter_cons_of_pos (by simp [hfile]), List.lookup_cons, List.lookup_cons, ih]

/-- What was put at a place is found there. -/
theorem lookup_put_self (t : Tree) (place : Place) (bytes : ByteArray) :
    (t.put place bytes).files.lookup place = some bytes := by
  rw [put, List.lookup_append, lookup_filter_self]
  simp

/-- What is put at a place changes nothing elsewhere. -/
theorem lookup_put_of_ne {place place' : Place} (t : Tree) (bytes : ByteArray)
    (hne : place' ≠ place) :
    (t.put place bytes).files.lookup place' = t.files.lookup place' := by
  have hfalse : (place' == place) = false := by simpa using hne
  rw [put, List.lookup_append, lookup_filter_ne hne, List.lookup_cons, hfalse, List.lookup_nil,
    Option.or_none]

def fileSystem : FileSystem where
  State := Tree
  File := Place
  source := source
  target := target
  bytes? t place := t.files.lookup place
  put := put
  bytes?_put := lookup_put_self
  bytes?_put_of_ne := lookup_put_of_ne

end Tree

end Whiteboard.CommandLine
