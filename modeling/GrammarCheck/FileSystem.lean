import GrammarCheck.FileName

/-! A tree of files: where a path leads in it, and why a file cannot be read. -/

namespace GrammarCheck

/-- Why a file cannot be read. -/
inductive ReadFailure where
  | notFound
  | isDirectory
  /-- The path goes on behind a file. -/
  | notDirectory
  | nameTooLong
  /-- The name holds the character that ends names inside the system. -/
  | invalidName
  | permissionDenied
  | other (reason : String)
  deriving DecidableEq

/-- The reason in the words of the operating system, with its error number. A name that never
reaches the system has none. -/
def ReadFailure.message : ReadFailure → String
  | .notFound => "No such file or directory (os error 2)"
  | .isDirectory => "Is a directory (os error 21)"
  | .notDirectory => "Not a directory (os error 20)"
  | .nameTooLong => "File name too long (os error 36)"
  | .invalidName => "file name contained an unexpected NUL byte"
  | .permissionDenied => "Permission denied (os error 13)"
  | .other reason => reason

/-- A place in the tree: the names that lead to it from the root. -/
abbrev Place := List (List Char)

/-- The files of a system. There is no directory but the working directory and those above it or
above a file. -/
structure FileSystem where
  /-- Each file with its place. -/
  files : List (Place × List UInt8)
  /-- The directory in which a path starts that has no leading slash. -/
  working : Place

namespace FileSystem

/-- The largest number of bytes in a name. -/
def nameLimit : Nat := 255

/-- The largest number of bytes in a path. -/
def pathLimit : Nat := 4095

def file? (system : FileSystem) (place : Place) : Option (List UInt8) :=
  system.files.lookup place

def isDirectory (system : FileSystem) (place : Place) : Bool :=
  place.isPrefixOf system.working ||
    system.files.any fun file => file.1 != place && place.isPrefixOf file.1

def contains (system : FileSystem) (place : Place) : Bool :=
  system.isDirectory place || (system.file? place).isSome

/-- The place one part of a path leads to. Every part starts from a directory, even an empty one or
one of dots. The root is the directory above itself. -/
def step (system : FileSystem) (place : Place) (part : List Char) : Except ReadFailure Place :=
  if !system.isDirectory place then .error .notDirectory
  else if part = [] ∨ part = ['.'] then .ok place
  else if part = ['.', '.'] then .ok place.dropLast
  else if nameLimit < (String.ofList part).utf8ByteSize then .error .nameTooLong
  else if system.contains (place ++ [part]) then .ok (place ++ [part])
  else .error .notFound

/-- The place a path leads to. A leading slash leaves an empty part in front of it. -/
def placeOf (system : FileSystem) (name : FileName) : Except ReadFailure Place :=
  let parts := FileName.segments name.text.toList
  parts.foldlM system.step (if parts.head? = some [] then [] else system.working)

def read (system : FileSystem) (name : FileName) : Except ReadFailure (List UInt8) :=
  if '\x00' ∈ name.text.toList then .error .invalidName
  else if name.isEmpty then .error .notFound
  else if pathLimit < name.text.utf8ByteSize then .error .nameTooLong
  else match system.placeOf name with
    | .error failure => .error failure
    | .ok place =>
      match system.file? place with
      | some content => .ok content
      | none => .error .isDirectory

end FileSystem

end GrammarCheck
