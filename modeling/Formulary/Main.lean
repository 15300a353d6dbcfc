import Formulary.CommandLine.Run

/-!
# The command

Reads the arguments, runs the command on the files of the disk, and passes on what it says.
-/

namespace Formulary.Main

/-- Why an operation of the system failed. -/
def fileError : IO.Error → FileError
  | .noFileOrDirectory .. => .notFound
  | .alreadyExists .. => .alreadyExists
  | .inappropriateType _ 20 _ => .notDirectory
  | .inappropriateType _ 21 _ => .isDirectory
  | .invalidArgument _ 36 _ => .nameTooLong
  | e => .other e.toString

/-- Does an operation of the system and catches its failure. -/
def attempt {α : Type} (action : IO α) : IO (Except FileError α) := do
  match ← action.toBaseIO with
  | .ok a => return .ok a
  | .error e => return .error (fileError e)

/-- The files of the disk. Directories are known by the dot that only they hold. -/
def disk : FileAccess IO where
  read path := attempt do (← IO.FS.Handle.mk path .read).readBinToEnd
  isDirectory path := do
    match ← attempt (IO.FS.createDir (path ++ "/.")) with
    | .error .alreadyExists => return true
    | _ => return false
  makeDirectory path := attempt (IO.FS.createDir path)
  write path content := attempt (IO.FS.writeFile path content)

/-- All bytes of a stream, behind those read before. -/
partial def readAll (stream : IO.FS.Stream) (before : ByteArray) : IO ByteArray := do
  let more ← stream.read 65536
  if more.isEmpty then return before else readAll stream (before ++ more)

/-- What is told to those who ask how to use the command. -/
def usage : String :=
  "Usage: kaleido [--input FILE] [--output FILE] [--module-name NAME] [--strict-numbers] [--quiet]\n"

end Formulary.Main

open Formulary Formulary.Main in
/-- Runs the command. -/
def main (args : List String) : IO UInt32 := do
  match readOptions Config.standard.moduleName args with
  | .error .information => IO.print usage; return 0
  | .error .refused => IO.eprint usage; return 2
  | .ok options =>
    let stdin ← if options.input.isSome then pure ByteArray.empty
      else readAll (← IO.getStdin) ByteArray.empty
    let outcome ← execute disk describeFailure options stdin
    IO.eprint outcome.stderr
    IO.print outcome.stdout
    return outcome.exitCode.toUInt32
