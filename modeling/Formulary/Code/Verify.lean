import Formulary.Code.Module

/-!
# Checking code

A routine is sound if every operand is defined before it is used and has the right type, and every
call passes as many arguments as the called routine takes. Checking reports the first fault in the
order of the program.

* `VerifyError`: what can be wrong, with `VerifyError.message`.
* `CodeModule.verify`: checks the routine at a place.
-/

namespace Formulary

/-- The faults of code. -/
inductive VerifyError
  | noSuchFunction
  | missingBody
  /-- The body has no returned value. -/
  | missingTerminator
  | undefinedValue (inst : String)
  | operandType (inst : String) (expected found : ValueType)
  | unknownCallee (inst : String)
  | callArity (inst : String) (expected found : Nat)
deriving DecidableEq

/-- The text of a fault. -/
def VerifyError.message : VerifyError → String
  | noSuchFunction => "function does not exist"
  | missingBody => "function has no body"
  | missingTerminator => "entry block has no terminator"
  | undefinedValue inst => "operand of '" ++ inst ++ "' refers to an undefined value"
  | operandType inst expected found =>
    "operand of '" ++ inst ++ "' has type " ++ found.text ++ ", expected " ++ expected.text
  | unknownCallee inst => "call '" ++ inst ++ "' targets a function that no longer exists"
  | callArity inst expected found =>
    "call '" ++ inst ++ "' passes " ++ toString found ++ " argument(s) to a function taking " ++
      toString expected

/-- An operand at a position is defined: a parameter exists, and a result is an earlier one. -/
def Value.isDefinedAt (arity position : Nat) : Value → Bool
  | constant _ => true
  | truth _ => true
  | param index => index < arity
  | result earlier => earlier < position

namespace Body

/-- Checks an operand of the instruction at a position (the `check` of `verify_function`). -/
def checkOperand (body : Body) (arity : Nat) (inst : String) (position : Nat)
    (expected : ValueType) (v : Value) : Except VerifyError Unit :=
  if v.isDefinedAt arity position then
    match body.typeOf? v with
    | some found =>
      if found = expected then .ok () else .error (.operandType inst expected found)
    | none => .error (.undefinedValue inst)
  else .error (.undefinedValue inst)

/-- Checks operands one after the other. -/
def checkOperands (body : Body) (arity : Nat) (inst : String) (position : Nat)
    (expected : ValueType) : List Value → Except VerifyError Unit
  | [] => .ok ()
  | v :: rest => do
    body.checkOperand arity inst position expected v
    body.checkOperands arity inst position expected rest

/-- Checks the instruction at a position: of a call first the called routine, then the number of
    arguments, then the arguments. -/
def checkInstruction (body : Body) (m : CodeModule) (arity position : Nat) (i : Instruction) :
    Except VerifyError Unit :=
  match i.operation with
  | .binary _ lhs rhs => body.checkOperands arity i.name position .double [lhs, rhs]
  | .ofTruth v => body.checkOperand arity i.name position .truth v
  | .call callee args =>
    match m.get? callee with
    | none => .error (.unknownCallee i.name)
    | some target =>
      if target.arity = args.length then body.checkOperands arity i.name position .double args
      else .error (.callArity i.name target.arity args.length)

/-- Checks the instructions from a position on. -/
def checkInstructions (body : Body) (m : CodeModule) (arity position : Nat) :
    List Instruction → Except VerifyError Unit
  | [] => .ok ()
  | i :: rest => do
    body.checkInstruction m arity position i
    body.checkInstructions m arity (position + 1) rest

end Body

/-- Checks the returned value, which has to be there and to be a number. -/
def Body.checkReturn (body : Body) (arity : Nat) : Except VerifyError Unit :=
  match body.ret with
  | none => .error .missingTerminator
  | some v => body.checkOperand arity "ret" body.instructions.size .double v

/-- Checks the routine at a place (`verify_function`): its instructions in order, then the returned
    value. -/
def CodeModule.verify (m : CodeModule) (id : RoutineId) : Except VerifyError Unit :=
  match m.get? id with
  | none => .error .noSuchFunction
  | some r =>
    match r.body with
    | none => .error .missingBody
    | some body => do
      body.checkInstructions m r.arity 0 body.instructions.toList
      body.checkReturn r.arity

end Formulary
