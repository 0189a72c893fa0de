import LimitSyntax.Text.Basic

/-!
# Files

What a command can read: a function from paths to contents. A `Folder` is such a function given as
data, with the rules by which a path leads to a file.
-/

namespace LimitSyntax

/-- Why nothing can be read at a path. -/
inductive ReadFailure where
  /-- There is nothing. -/
  | notFound
  /-- The path goes on behind a file. -/
  | notDirectory
  /-- There is a directory. -/
  | isDirectory
  /-- There is a file whose bytes are no text. -/
  | notText
  /-- Any other cause. -/
  | other (cause : String)
  deriving DecidableEq

namespace ReadFailure

/-- The wording of a cause. -/
def message : ReadFailure → String
  | notFound => "No such file or directory (os error 2)"
  | notDirectory => "Not a directory (os error 20)"
  | isDirectory => "Is a directory (os error 21)"
  | notText => "stream did not contain valid UTF-8"
  | other cause => cause

/-- Whether there is something at the path. -/
def isPresent : ReadFailure → Bool
  | notFound | notDirectory => false
  | _ => true

end ReadFailure

/-- What can be read at each path. -/
abbrev Files := String → Except ReadFailure ByteArray

namespace Files

/-- Whether there is something at a path. -/
def exists? (files : Files) (path : String) : Bool :=
  match files path with
  | .ok _ => true
  | .error e => e.isPresent

def text (files : Files) (path : String) : Except ReadFailure String := do
  match String.fromUTF8? (← files path) with
  | some text => return text
  | none => throw .notText

end Files

/-- The working directory: files with their contents, and directories, by their names from there
on. -/
structure Folder where
  entries : List (String × Option ByteArray)

namespace Folder

/-- The names along a path. -/
def components (path : String) : List String :=
  (path.splitOn "/").filter fun name => name ≠ "" ∧ name ≠ "."

/-- What lies at the end of a row of names: a file, or a directory if the name of something goes on
behind it. -/
def entry? (folder : Folder) (place : List String) : Option (Option ByteArray) :=
  let named := folder.entries.map fun (path, content) => (components path, content)
  match named.lookup place with
  | some content => some content
  | none => if named.any fun (names, _) => place.isPrefixOf names then some none else none

/-- Follows a path from the directory at `place`. Nothing is known outside of the folder. -/
def follow (folder : Folder) (place : List String) : List String → Except ReadFailure ByteArray
  | [] => throw .isDirectory
  | name :: names =>
    if name = "" ∨ name = "." then follow folder place names
    else if name = ".." then
      if place.isEmpty then throw (if names.isEmpty then .isDirectory else .notFound)
      else follow folder place.dropLast names
    else match folder.entry? (place ++ [name]) with
      | none => throw .notFound
      | some none => follow folder (place ++ [name]) names
      | some (some content) => if names.isEmpty then return content else throw .notDirectory

def files (folder : Folder) : Files := fun path =>
  if path.startsWith "/" then throw .notFound else folder.follow [] (path.splitOn "/")

end Folder

end LimitSyntax
