/-!
# Access to files

The command reads and writes files through a record of operations, so that it can work on the disk
as well as on a directory that is held in memory.

* `FileError`: why an operation fails, with `FileError.message`.
* `FileAccess`: the operations that the command needs.
* `parentPath?`: the directory that a path stands in.
* `FileAccess.makeDirectories`: makes a directory and all directories that it stands in.
-/

namespace Formulary

/-- Why an operation on files fails. -/
inductive FileError
  | notFound
  | alreadyExists
  | notDirectory
  | isDirectory
  | nameTooLong
  /-- The bytes are not UTF-8. -/
  | notText
  | other (text : String)
deriving DecidableEq

/-- The text of a failure. -/
def FileError.message : FileError → String
  | notFound => "No such file or directory (os error 2)"
  | alreadyExists => "File exists (os error 17)"
  | notDirectory => "Not a directory (os error 20)"
  | isDirectory => "Is a directory (os error 21)"
  | nameTooLong => "File name too long (os error 36)"
  | notText => "stream did not contain valid UTF-8"
  | other text => text

/-- The operations on files that the command needs. -/
structure FileAccess (m : Type → Type) where
  read : (path : String) → m (Except FileError ByteArray)
  /-- Whether the path leads to a directory. -/
  isDirectory : (path : String) → m Bool
  /-- Makes a new directory in a directory. -/
  makeDirectory : (path : String) → m (Except FileError Unit)
  write : (path : String) → (content : String) → m (Except FileError Unit)

/-- A path that is written in reverse, without the slashes and lone dots at its end. -/
def trimReversed : List Char → List Char
  | '/' :: rest => trimReversed rest
  | '.' :: '/' :: rest => trimReversed rest
  | path => path

/-- The path of the directory that a path stands in: the path without its last part. A single part
    stands in the empty path, and the root and the empty path stand nowhere. -/
def parentPath? (path : String) : Option String :=
  let trimmed := trimReversed path.toList.reverse
  if trimmed.isEmpty then none
  else
    let up := trimReversed (trimmed.dropWhile (· ≠ '/'))
    if up.isEmpty && path.toList.head? = some '/' then some "/"
    else some (String.ofList up.reverse)

namespace FileAccess

variable {m : Type → Type} [Monad m]

/-- Makes a directory; one that is there already is fine. -/
def ensureDirectory (files : FileAccess m) (path : String) : m (Except FileError Unit) := do
  match ← files.makeDirectory path with
  | .ok () => return .ok ()
  | .error e => return if ← files.isDirectory path then .ok () else .error e

/-- Makes a directory and, where it has nothing to stand in, first the directory that it stands in.
    The number of attempts is bounded by the length of the path. -/
def makeDirectoriesWithin (files : FileAccess m) :
    (attempts : Nat) → (path : String) → m (Except FileError Unit)
  | 0, _ => return .error .notFound
  | attempts + 1, path => do
    if path = "" then return .ok ()
    match ← files.makeDirectory path, parentPath? path with
    | .ok (), _ => return .ok ()
    | .error .notFound, none => return .error .notFound
    | .error .notFound, some parent =>
      match ← files.makeDirectoriesWithin attempts parent with
      | .ok () => files.ensureDirectory path
      | .error e => return .error e
    | .error e, _ => return if ← files.isDirectory path then .ok () else .error e

/-- Makes a directory and all directories that it stands in. -/
def makeDirectories (files : FileAccess m) (path : String) : m (Except FileError Unit) :=
  files.makeDirectoriesWithin (path.length + 1) path

end FileAccess

end Formulary
