/-!
# Options of the command

Options are read from left to right, and the first argument that does not fit, or that asks for
information, decides. An option that takes a value has it attached or in the next argument; such an
argument must not look like an option. No option may be given twice, and nothing but options may be
given.

* `Options`: what the arguments say.
* `readOptions`: the options of a list of arguments, or why there are none.
-/

namespace Formulary

/-- What the arguments of the command say. -/
structure Options where
  /-- The file to read; standard input without one. -/
  input : Option String
  /-- The file to write; standard output without one. -/
  output : Option String
  moduleName : String
  strictNumbers : Bool
  quiet : Bool
deriving DecidableEq

/-- Why the command does not start. -/
inductive Stop
  /-- The arguments are refused. -/
  | refused
  /-- Help or the version is asked for. -/
  | information
deriving DecidableEq

/-- The options that take a value. -/
inductive Setting
  | input
  | output
  | moduleName
deriving DecidableEq

/-- The options that take none. -/
inductive Switch
  | strictNumbers
  | quiet
deriving DecidableEq

/-- What an option is. -/
inductive OptionKind
  | setting (s : Setting)
  | switch (s : Switch)
  | information
deriving DecidableEq

/-- The options by their long names. -/
def longOption? (name : String) : Option OptionKind :=
  [("input", .setting .input), ("output", .setting .output),
   ("module-name", .setting .moduleName), ("strict-numbers", .switch .strictNumbers),
   ("quiet", .switch .quiet), ("help", .information), ("version", .information)].lookup name

/-- The options by their letters. -/
def shortOption? (letter : Char) : Option OptionKind :=
  [('i', .setting .input), ('o', .setting .output), ('q', .switch .quiet), ('h', .information),
   ('V', .information)].lookup letter

/-- The values and switches given so far. -/
structure Given where
  settings : List (Setting × String)
  switches : List Switch

namespace Given

/-- Nothing given. -/
def empty : Given := ⟨[], []⟩

/-- Gives an option its value, which it must not have yet. -/
def set (g : Given) (s : Setting) (value : String) : Except Stop Given :=
  if (g.settings.lookup s).isSome then .error .refused
  else .ok ⟨(s, value) :: g.settings, g.switches⟩

/-- Turns on a switch, which must not be on yet. -/
def turnOn (g : Given) (s : Switch) : Except Stop Given :=
  if g.switches.contains s then .error .refused else .ok ⟨g.settings, s :: g.switches⟩

/-- The options, with the given name for a module that is not named. -/
def toOptions (g : Given) (moduleName : String) : Options where
  input := g.settings.lookup .input
  output := g.settings.lookup .output
  moduleName := (g.settings.lookup .moduleName).getD moduleName
  strictNumbers := g.switches.contains .strictNumbers
  quiet := g.switches.contains .quiet

end Given

/-- What is given after an argument, and the option that waits for the next argument. -/
abbrev Reached := Given × Option Setting

/-- Reads letters behind one dash. The rest behind an option that takes a value is its value, with
    or without an equals sign. -/
def readLetters (g : Given) : List Char → Except Stop Reached
  | [] => .ok (g, none)
  | letter :: rest =>
    match shortOption? letter with
    | none => .error .refused
    | some .information => .error .information
    | some (.switch s) => do
      let g ← g.turnOn s
      readLetters g rest
    | some (.setting s) =>
      match rest with
      | [] => .ok (g, some s)
      | '=' :: value => (g.set s (String.ofList value)).map (·, none)
      | value => (g.set s (String.ofList value)).map (·, none)

/-- Reads what stands behind two dashes: a name, or a name and a value parted by the first equals
    sign. -/
def readLong (g : Given) (text : List Char) : Except Stop Reached :=
  let name := String.ofList (text.takeWhile (· ≠ '='))
  let attached := text.dropWhile (· ≠ '=')
  match longOption? name, attached with
  | none, _ => .error .refused
  | some .information, [] => .error .information
  | some (.switch s), [] => (g.turnOn s).map (·, none)
  | some (.setting s), [] => .ok (g, some s)
  | some (.setting s), _ :: value => (g.set s (String.ofList value)).map (·, none)
  | some _, _ :: _ => .error .refused

/-- Reads an argument that starts with what may be dashes. -/
def readOption (g : Given) : List Char → Except Stop Reached
  | '-' :: '-' :: text => readLong g text
  | '-' :: letter :: rest => readLetters g (letter :: rest)
  | _ => .error .refused

/-- An argument that looks like an option. A lone dash does not. -/
def looksLikeOption : List Char → Bool
  | '-' :: _ :: _ => true
  | _ => false

/-- Reads the arguments from left to right. Behind two dashes alone nothing may follow. -/
def givenBy (reached : Reached) : List String → Except Stop Given
  | [] =>
    match reached with
    | (g, none) => .ok g
    | (_, some _) => .error .refused
  | arg :: rest =>
    match reached with
    | (g, some s) =>
      if looksLikeOption arg.toList then .error .refused
      else do
        let g ← g.set s arg
        givenBy (g, none) rest
    | (g, none) =>
      if arg = "--" then
        if rest.isEmpty then .ok g else .error .refused
      else do
        let reached ← readOption g arg.toList
        givenBy reached rest

/-- The options that arguments give, with the given name for a module that is not named. -/
def readOptions (moduleName : String) (args : List String) : Except Stop Options :=
  (givenBy (.empty, none) args).map (·.toOptions moduleName)

end Formulary
