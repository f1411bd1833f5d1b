/-!
Reading input files. A run sees files only through a function from paths to their text; `Directory`
gives such a function for files that are held in memory.
-/
namespace CallTrace

inductive ReadError where
  | missing
  | notDirectory
  | isDirectory
  | notText
  | nameTooLong
  | nulInName
  | refused (reason : String)
deriving DecidableEq, Repr

def ReadError.message : ReadError → String
  | .missing => "No such file or directory (os error 2)"
  | .notDirectory => "Not a directory (os error 20)"
  | .isDirectory => "Is a directory (os error 21)"
  | .notText => "stream did not contain valid UTF-8"
  | .nameTooLong => "File name too long (os error 36)"
  | .nulInName => "file name contained an unexpected NUL byte"
  | .refused reason => reason

/-- The text of the file at a path. -/
abbrev Files := String → Except ReadError String

def decodeText (bytes : ByteArray) : Except ReadError String :=
  match String.fromUTF8? bytes with
  | some text => .ok text
  | none => .error .notText

/-- What a directory holds under a path of names. -/
inductive Content where
  | file (bytes : ByteArray)
  | folder

/-- Files and folders by their paths, the latest first. -/
structure Directory where
  entries : List (List String × Content)

namespace Directory

/-- The names on a path, empty ones and those of the folder itself left out. -/
def names (path : String) : List String := (path.splitOn "/").filter fun s => s ≠ "" ∧ s ≠ "."

/-- Adds a file or folder. Of two at one path the later one counts. -/
def insert (d : Directory) (path : String) (content : Content) : Directory :=
  ⟨(names path, content) :: d.entries⟩

/-- The content at names. A folder exists if something lies below it. -/
def content? (d : Directory) (path : List String) : Option Content :=
  match d.entries.find? fun e => e.1 = path with
  | some e => some e.2
  | none =>
    if path.isEmpty ∨ d.entries.any fun e => path.isPrefixOf e.1 then some .folder else none

/-- A place is given by the names from the directory to it, or lies outside the directory. There
only folders are known, those on the way to the directory. -/
abbrev Place := Option (List String)

/-- The folder that holds a place. -/
def Place.up : Place → Place
  | some (name :: rest) => some (name :: rest).dropLast
  | _ => none

def contentAt (d : Directory) : Place → Except ReadError Content
  | none => .ok .folder
  | some path => match d.content? path with
    | some c => .ok c
    | none => .error .missing

/-- The length in bytes that a name may have, and the length that no path may reach. -/
def lengthLimits : Nat × Nat := (255, 4096)

/-- The content at the end of names that are taken one by one from a place. -/
def locate (d : Directory) (place : Place) : List String → Except ReadError Content
  | [] => d.contentAt place
  | name :: rest => do
    match ← d.contentAt place with
    | .file _ => throw .notDirectory
    | .folder =>
      if name = ".." then locate d place.up rest
      else if lengthLimits.1 < name.utf8ByteSize then throw .nameTooLong
      else match place with
        | some path => locate d (some (path ++ [name])) rest
        | none => throw .missing

/-- The text of a file in the directory. A path that starts with a slash leads outside, and one that
ends in a slash can only be a folder's. -/
def read (d : Directory) : Files := fun path => do
  if path.contains '\x00' then throw .nulInName
  if lengthLimits.2 ≤ path.utf8ByteSize then throw .nameTooLong
  match ← d.locate (if path.startsWith "/" then none else some []) (names path) with
  | .folder => throw .isDirectory
  | .file bytes =>
    if path.endsWith "/" ∨ path.endsWith "/." then throw .notDirectory else decodeText bytes

end Directory

end CallTrace
