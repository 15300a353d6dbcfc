import Formulary.Numeric.Double

/-!
# Values, instructions and routines

Code is straight-line: a routine takes numbers, computes one value after the other, and returns a
number. An operand is a constant, a parameter, or the result of an earlier instruction, named by
its position. Comparison yields a truth value, which has to be turned into a number before it can
be computed with.

* `Value`, `Operation`, `Instruction`, `Body`, `Routine`: the parts of code.
* `Body.typeOf?`: the type of an operand.
* `Routine.sameValue`: equality that compares numbers as numbers.
-/

namespace Formulary

/-- The place of a routine in its module. -/
structure RoutineId where
  index : Nat
deriving DecidableEq

/-- The two types of values. -/
inductive ValueType
  | double
  | truth
deriving DecidableEq

/-- The name of a type in code. -/
def ValueType.text : ValueType → String
  | double => "double"
  | truth => "i1"

/-- An operand. Parameters and results belong to the routine they stand in. -/
inductive Value
  | constant (value : Double)
  | truth (flag : Bool)
  | param (index : Nat)
  /-- The result of the instruction at a position. -/
  | result (position : Nat)
deriving DecidableEq

/-- The number that a constant is (`as_constant`). -/
def Value.asConstant? : Value → Option Double
  | constant x => some x
  | _ => none

/-- The operations on two numbers. -/
inductive BinaryOp
  | add
  | sub
  | mul
  /-- Less, or not comparable. -/
  | less
deriving DecidableEq

namespace BinaryOp

/-- The type of the result. -/
def resultType : BinaryOp → ValueType
  | less => .truth
  | _ => .double

/-- The result for two known numbers. -/
def fold : BinaryOp → Double → Double → Value
  | add, a, b => .constant (a.add b)
  | sub, a, b => .constant (a.sub b)
  | mul, a, b => .constant (a.mul b)
  | less, a, b => .truth (a.lessOrUnordered b)

end BinaryOp

/-- What an instruction does. -/
inductive Operation
  | binary (op : BinaryOp) (lhs rhs : Value)
  /-- The number that a truth value stands for. -/
  | ofTruth (value : Value)
  | call (callee : RoutineId) (args : List Value)
deriving DecidableEq

/-- The type of an operation's result (`result_type`). -/
def Operation.resultType : Operation → ValueType
  | binary op _ _ => op.resultType
  | _ => .double

/-- An operation with the name of its result. -/
structure Instruction where
  name : String
  operation : Operation
deriving DecidableEq

/-- The instructions of a routine and the value it returns. Without one the body has no end. -/
structure Body where
  instructions : Array Instruction
  ret : Option Value
deriving DecidableEq

/-- The type of an operand (`value_type`); none for the result of an instruction that does not
    exist. -/
def Body.typeOf? (body : Body) : Value → Option ValueType
  | .constant _ => some .double
  | .param _ => some .double
  | .truth _ => some .truth
  | .result position => body.instructions[position]?.map (·.operation.resultType)

/-- A function of a module; without a body it is only declared. An empty name marks one that
    cannot be referred to by name. -/
structure Routine where
  name : String
  params : List String
  body : Option Body
deriving DecidableEq

namespace Routine

/-- The number of parameters (`arity`). -/
def arity (r : Routine) : Nat := r.params.length

/-- The routine has no body (`is_declaration`). -/
def isDeclaration (r : Routine) : Bool := r.body.isNone

/-- The routine has no name (`is_anonymous`). -/
def isAnonymous (r : Routine) : Bool := r.name.isEmpty

end Routine

/-! ## Equality up to the sign of zero -/

/-- The same operand, numbers compared as numbers. -/
def Value.sameValue : Value → Value → Bool
  | constant x, constant y => x.sameValue y
  | v, w => v = w

/-- Equally many operands, the same in pairs. -/
def Value.sameValues : List Value → List Value → Bool
  | [], [] => true
  | v :: rest, w :: rest' => v.sameValue w && sameValues rest rest'
  | _, _ => false

/-- The same operation on the same operands, numbers compared as numbers. -/
def Operation.sameValue : Operation → Operation → Bool
  | binary op l r, binary op' l' r' => op = op' && l.sameValue l' && r.sameValue r'
  | ofTruth v, ofTruth w => v.sameValue w
  | call f args, call g args' => f = g && Value.sameValues args args'
  | _, _ => false

/-- The same name and operation, numbers compared as numbers. -/
def Instruction.sameValue (i j : Instruction) : Bool :=
  i.name = j.name && i.operation.sameValue j.operation

/-- The same instructions and returned value, numbers compared as numbers. -/
def Body.sameValue (a b : Body) : Bool :=
  a.instructions.isEqv b.instructions Instruction.sameValue &&
    Value.sameValues a.ret.toList b.ret.toList

/-- The same routine, numbers compared as numbers. -/
def Routine.sameValue (r s : Routine) : Bool :=
  r.name = s.name && r.params = s.params &&
    match r.body, s.body with
    | some a, some b => a.sameValue b
    | none, none => true
    | _, _ => false

end Formulary
