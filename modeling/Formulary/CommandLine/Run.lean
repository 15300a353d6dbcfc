import Formulary.CommandLine.LineSource
import Formulary.CommandLine.Options
import Formulary.Session.Compile
import Formulary.Session.Driver
import Formulary.Text.Quoted

/-!
# Running the command

The command reads a program from a file or from standard input, tells of each construct as it is
read, and writes the module to a file or to standard output. How the failure of an operation on
files is described is left open: a description is made from what was attempted and from the cause.

* `run`: what a program makes the command say and write, and what is left of its source.
* `execute`: what the command does, given its options.
* `describeFailure`: the usual description of a failure.
-/

namespace Formulary

/-- What a program makes the command say and write. -/
structure Report where
  /-- What is told while the program is read. -/
  echo : String
  /-- The text of the module. -/
  listing : String
  /-- No construct had a fault. -/
  clean : Bool
deriving DecidableEq

/-- Tells of a routine under a heading, unless nothing but faults is to be told. -/
def tellRoutine (quiet : Bool) (heading : String) (id : RoutineId) (code : CodeModule) : String :=
  if quiet then ""
  else
    match code.routineText? id with
    | some text => heading ++ "\n" ++ text
    | none => ""

/-- What is told of a step that has left the code as it is. -/
def tellStep (quiet : Bool) (event : Event) (code : CodeModule) : String :=
  match event with
  | .definition id => tellRoutine quiet "Read function definition:" id code
  | .declaration id => tellRoutine quiet "Read extern:" id code
  | .expression id => tellRoutine quiet "Read top-level expression:" id code
  | .separator => ""
  | .error e => "Error: " ++ e.message ++ "\n"

/-- Reads a program from a source and tells of each step (`run`). Also yields what is left of the
    source. -/
def run {σ : Type} [CharSource σ] (config : Config) (quiet : Bool) (source : σ) : Report × σ :=
  let (told, final) := (Driver.start config source).observe config.precedence
    fun event d => (tellStep quiet event d.code, event.error?.isNone)
  (⟨String.join (told.map (·.1)), final.code.text, told.all (·.2)⟩, final.source)

/-- Reads a program that is a text. -/
def runText (config : Config) (quiet : Bool) (text : String) : Report :=
  (run config quiet text.toList).1

/-- What the command leaves behind. -/
structure Outcome where
  stdout : String
  stderr : String
  exitCode : Nat
deriving DecidableEq

/-- The outcome of a failed operation on files, after what was told before. -/
def Outcome.failed (describe : (context cause : String) → String) (echo context : String)
    (cause : FileError) : Outcome :=
  ⟨"", echo ++ "Error: " ++ describe context cause.message ++ "\n", 1⟩

/-- The usual description of a failure: what was attempted, and in lines below it the cause. -/
def describeFailure (context cause : String) : String := context ++ "\n\nCaused by:\n    " ++ cause

/-- How the options have programs read. -/
def Options.config (o : Options) : Config := ⟨.standard, o.strictNumbers, o.moduleName⟩

/-- The exit code of a program that was read. -/
def Report.exitCode (r : Report) : Nat := if r.clean then 0 else 1

section Access

variable {m : Type → Type} [Monad m]
variable (files : FileAccess m) (describe : (context cause : String) → String)

/-- Writes the module to a file, making the directory that it stands in (`write_output`). -/
def writeOutput (path : String) (r : Report) : m Outcome := do
  let parent := (parentPath? path).getD ""
  let made ← if parent = "" then pure (.ok ()) else files.makeDirectories parent
  match made with
  | .error e => return .failed describe r.echo ("failed to create directory " ++ quoted parent) e
  | .ok () =>
    match ← files.write path r.listing with
    | .error e => return .failed describe r.echo ("failed to write output file " ++ path) e
    | .ok () => return ⟨"", r.echo, r.exitCode⟩

/-- Writes the module to where the options say. -/
def deliver (o : Options) (r : Report) : m Outcome :=
  match o.output with
  | some path => writeOutput files describe path r
  | none => return ⟨r.listing, r.echo, r.exitCode⟩

/-- Reads the program from a file and writes its module. -/
def executeFile (o : Options) (path : String) : m Outcome := do
  let content := (← files.read path).bind fun bytes =>
    match String.fromUTF8? bytes with
    | some text => .ok text
    | none => .error .notText
  match content with
  | .error e => return .failed describe "" ("failed to read input file " ++ path) e
  | .ok text => deliver files describe o (runText o.config o.quiet text)

/-- Reads the program from the bytes of standard input, line by line, and writes its module. If the
    source has noted a failure by the end of the run, that is told and nothing is written. -/
def executeStdin (o : Options) (stdin : ByteArray) : m Outcome :=
  let (r, source) := run o.config o.quiet (LineSource.ofBytes stdin)
  match source.error with
  | some e => return .failed describe r.echo "failed to read from stdin" e
  | none => deliver files describe o r

/-- What the command does (`execute`). -/
def execute (o : Options) (stdin : ByteArray) : m Outcome :=
  match o.input with
  | some path => executeFile files describe o path
  | none => executeStdin files describe o stdin

end Access

end Formulary
