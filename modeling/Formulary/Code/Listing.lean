import Formulary.Code.Module
import Formulary.Numeric.Scientific

/-!
# The text of code

A module is written as two header lines and its routines, each behind an empty line. Routines
without a name are written with a number, counted among those that have not been erased.

* `CodeModule.globalName`: how a routine is referred to.
* `CodeModule.routineText?`: the text of the routine at a place.
* `CodeModule.text`: the text of a module.
-/

namespace Formulary

/-- Lines as one text, each with its end. -/
def unlines (lines : List String) : String := String.join (lines.map (· ++ "\n"))

/-- Texts parted by commas. -/
def commaSeparated (texts : List String) : String := String.intercalate ", " texts

/-- The instruction word of an operation on two numbers. -/
def BinaryOp.text : BinaryOp → String
  | add => "fadd"
  | sub => "fsub"
  | mul => "fmul"
  | less => "fcmp ult"

/-- How many routines without a name stand before a place. -/
def CodeModule.anonymousBefore (m : CodeModule) (id : RoutineId) : Nat :=
  (m.slots.toList.take id.index).countP fun slot => slot.any (·.isAnonymous)

/-- How a routine is referred to (`global_name`): by its name, or by its number if it has none. -/
def CodeModule.globalName (m : CodeModule) (id : RoutineId) : String :=
  match m.get? id with
  | none => "@<erased>"
  | some r => "@" ++ if r.isAnonymous then toString (m.anonymousBefore id) else r.name

/-- How a parameter or result is referred to. -/
def localName (name : String) : String := "%" ++ name

/-- How a parameter or result is referred to that may not exist. -/
def localName? (name : Option String) : String := localName (name.getD "<undef>")

/-- The text of an operand in a body whose parameters have the given names (`operand`). -/
def Body.operandText (body : Body) (params : List String) : Value → String
  | .constant x => x.constantText
  | .truth flag => if flag then "true" else "false"
  | .param index => localName? params[index]?
  | .result position => localName? (body.instructions[position]?.map (·.name))

/-- An operand behind its type (`typed`). -/
def Body.typedText (body : Body) (params : List String) (v : Value) : String :=
  ((body.typeOf? v).getD .double).text ++ " " ++ body.operandText params v

/-- The text of an operation. -/
def Body.operationText (body : Body) (m : CodeModule) (params : List String) :
    Operation → String
  | .binary op lhs rhs =>
    op.text ++ " double " ++ body.operandText params lhs ++ ", " ++ body.operandText params rhs
  | .ofTruth v => "uitofp " ++ body.typedText params v ++ " to double"
  | .call callee args =>
    "call double " ++ m.globalName callee ++ "(" ++
      commaSeparated (args.map (body.typedText params)) ++ ")"

/-- The line of an instruction. -/
def Body.instructionLine (body : Body) (m : CodeModule) (params : List String)
    (i : Instruction) : String :=
  "  " ++ localName i.name ++ " = " ++ body.operationText m params i.operation

/-- The line of the returned value, if there is one. -/
def Body.returnLine (body : Body) (params : List String) : List String :=
  body.ret.toList.map fun v => "  ret " ++ body.typedText params v

/-- The lines of the routine at a place. -/
def CodeModule.routineLines (m : CodeModule) (id : RoutineId) (r : Routine) : List String :=
  match r.body with
  | none =>
    ["declare double " ++ m.globalName id ++ "(" ++
      commaSeparated (r.params.map fun _ => "double") ++ ")"]
  | some body =>
    ("define double " ++ m.globalName id ++ "(" ++
      commaSeparated (r.params.map fun p => "double " ++ localName p) ++ ") \x7b") ::
    "entry:" ::
    (body.instructions.toList.map (body.instructionLine m r.params) ++
      (body.returnLine r.params ++ ["\x7d"]))

/-- The text of the routine at a place (`display_function`). -/
def CodeModule.routineText? (m : CodeModule) (id : RoutineId) : Option String :=
  (m.get? id).map fun r => unlines (m.routineLines id r)

/-- The text of a module. -/
def CodeModule.text (m : CodeModule) : String :=
  unlines (("; ModuleID = '" ++ m.name ++ "'") :: ("source_filename = \"" ++ m.name ++ "\"") ::
    m.live.flatMap fun (id, r) => "" :: m.routineLines id r)

end Formulary
