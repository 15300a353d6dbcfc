import Formulary.CommandLine.Files

/-!
# A directory in memory

A tree of files and folders. Paths from the root start there, and all others start at the working
folder. A path is followed part by part, each step needing a folder to start from.

* `Directory.follow`: the way that a path leads.
* `Directory.contentOf`, `Directory.isFolder`, `Directory.makeFolder`, `Directory.store`.
* `Directory.access`: these operations as the command needs them.
-/

namespace Formulary

/-- A file or a folder. -/
inductive Entry
  | file (content : ByteArray)
  | folder (entries : List (String × Entry))

namespace Entry

/-- A folder without entries. -/
def emptyFolder : Entry := folder []

/-- The entry with a new one at the end of a sequence of names. Folders on the way that are missing
    are made, and nothing is put below a file. -/
def put (old : Entry) (names : List String) (new : Entry) : Entry :=
  match names, old with
  | [], _ => new
  | _ :: _, file content => file content
  | name :: names, folder entries =>
    let inner := ((entries.lookup name).getD emptyFolder).put names new
    folder ((name, inner) :: entries.filter (·.1 ≠ name))

end Entry

/-- The files and folders below the root. -/
structure Directory where
  root : Entry

/-- The way from the root to a place, the last step first. Every step has its name and what stands
    there; at the end of the way, that may be nothing yet. -/
abbrev Way := List (String × Option Entry)

/-- The names on a way, from the root on. -/
def Way.names (way : Way) : List String := way.reverse.map (·.1)

namespace Directory

/-- What stands at the end of a way. -/
def at? (d : Directory) : Way → Option Entry
  | [] => some d.root
  | (_, entry) :: _ => entry

/-- Puts something at the end of a way. -/
def put (d : Directory) (way : Way) (new : Entry) : Directory := ⟨d.root.put way.names new⟩

/-- The entries of the folder at the end of a way, or why no step leads on from there. -/
def entriesAt (d : Directory) (way : Way) : Except FileError (List (String × Entry)) :=
  match d.at? way with
  | some (.folder entries) => .ok entries
  | some (.file _) => .error .notDirectory
  | none => .error .notFound

/-- The most bytes of a name. -/
def nameLimit : Nat := 255

/-- The most bytes of a path. -/
def pathLimit : Nat := 4095

/-- Where one part of a path leads from a folder. Two dots lead up, and from the root to itself. -/
def step (d : Directory) (way : Way) (part : String) : Except FileError Way := do
  let entries ← d.entriesAt way
  if part = "" ∨ part = "." then .ok way
  else if part = ".." then .ok way.tail
  else if part.utf8ByteSize ≤ nameLimit then .ok ((part, entries.lookup part) :: way)
  else .error .nameTooLong

/-- Follows the parts of a path on from the end of a way. -/
def follow (d : Directory) (way : Way) (parts : List String) : Except FileError Way :=
  parts.foldlM d.step way

/-- The folder that the working folder stands in. -/
def temporary : String := "tmp"

/-- The name of the working folder. No path can write it. -/
def workingName : String := ""

/-- The way to the working folder. -/
def toWorking (d : Directory) : Way :=
  let outer := match d.root with
    | .folder entries => entries.lookup temporary
    | .file _ => none
  let inner := match outer with
    | some (.folder entries) => entries.lookup workingName
    | _ => none
  [(workingName, inner), (temporary, outer)]

/-- The folders of every system. -/
def systemFolders : List String :=
  ["bin", "boot", "dev", "etc", "home", "lib", "media", "mnt", "opt", "proc", "root", "run", "sbin",
   "srv", "sys", "tmp", "usr", "var"]

/-- The directory whose working folder is empty. -/
def empty : Directory :=
  let system := Entry.folder (systemFolders.map fun name => (name, .emptyFolder))
  ⟨(system.put [temporary, workingName] .emptyFolder).put ["dev", "null"] (.file .empty)⟩

/-- The parts of a path. -/
def parts (path : String) : List String := (path.toList.splitOn '/').map String.ofList

/-- Where a path starts, if it is neither empty nor too long. -/
def start (d : Directory) (path : String) : Except FileError Way :=
  if path = "" then .error .notFound
  else if pathLimit < path.utf8ByteSize then .error .nameTooLong
  else .ok (if path.startsWith "/" then [] else d.toWorking)

/-- What a path leads to. -/
def find (d : Directory) (path : String) : Except FileError Entry := do
  let way ← d.follow (← d.start path) (parts path)
  match d.at? way with
  | some entry => .ok entry
  | none => .error .notFound

/-- The content of the file that a path leads to. -/
def contentOf (d : Directory) (path : String) : Except FileError ByteArray := do
  match ← d.find path with
  | .folder _ => .error .isDirectory
  | .file content => .ok content

/-- The path leads to a folder. -/
def isFolder (d : Directory) (path : String) : Bool :=
  match d.find path with
  | .ok (.folder _) => true
  | _ => false

/-- The last part of a path and the parts before it, slashes at the end left out. A path of slashes
    alone ends at the root itself, as if in a lone dot. -/
def lastPart (path : String) : List String × String :=
  match (parts path).reverse.dropWhile (· = "") with
  | [] => ([], ".")
  | name :: before => (before.reverse, name)

/-- The way to the folder that the last part of a path stands in, and that part. -/
def findLast (d : Directory) (path : String) : Except FileError (Way × String) := do
  let (before, name) := lastPart path
  let way ← d.follow (← d.start path) before
  discard (d.entriesAt way)
  return (way, name)

/-- A name that leads to a folder wherever it stands. -/
def isDots (name : String) : Bool := name = "." || name = ".."

/-- Makes a new folder in a folder. -/
def makeFolder (d : Directory) (path : String) : Except FileError Directory := do
  let (way, name) ← d.findLast path
  if isDots name then .error .alreadyExists
  else
    let target ← d.step way name
    if (d.at? target).isSome then .error .alreadyExists else .ok (d.put target .emptyFolder)

/-- Writes a file, a new one or in place of an old one. A path that ends in a slash can only mean
    a folder. -/
def store (d : Directory) (path : String) (content : ByteArray) : Except FileError Directory := do
  let (way, name) ← d.findLast path
  if path.endsWith "/" || isDots name then .error .isDirectory
  else
    let target ← d.step way name
    match d.at? target with
    | some (.folder _) => .error .isDirectory
    | _ => .ok (d.put target (.file content))

/-- Replaces the directory by what an operation makes of it. A failed one leaves it as it is. -/
def change (operation : Directory → Except FileError Directory) :
    StateM Directory (Except FileError Unit) :=
  modifyGet fun d =>
    match operation d with
    | .ok d => (.ok (), d)
    | .error e => (.error e, d)

/-- The operations of the command on a directory in memory. -/
def access : FileAccess (StateM Directory) where
  read path := return (← get).contentOf path
  isDirectory path := return (← get).isFolder path
  makeDirectory path := change (·.makeFolder path)
  write path content := change (·.store path content.toUTF8)

/-- The directory with the given files, and the folders that they stand in. -/
def ofFiles (files : List (String × ByteArray)) : Directory :=
  files.foldl (fun d (path, content) =>
    let d := match parentPath? path with
      | some parent => ((access.makeDirectories parent).run d).2
      | none => d
    (d.store path content).toOption.getD d) empty

end Directory

end Formulary
