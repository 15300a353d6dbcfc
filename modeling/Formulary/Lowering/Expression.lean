import Formulary.Language.Expr
import Formulary.Lowering.LowerError

/-!
# Code for expressions

Code is emitted in the order of evaluation: the left operand before the right one, arguments from
left to right. Chains of operators nest on the left, so the left operand is visited in a loop, and
the operators above it wait in a list until its value is known.

* `Scope`: what names refer to.
* `lowerOnto`: code for an expression and for the operators that wait for its value.
* `lowerExpr`: code for an expression.
-/

namespace Formulary

/-- What names refer to in a body: routines of a module, and parameters. -/
structure Scope where
  code : CodeModule
  params : List String

/-- The place of the last parameter with a name. -/
def lastIndex? (name : String) : List String → Option Nat
  | [] => none
  | param :: rest =>
    match lastIndex? name rest with
    | some i => some (i + 1)
    | none => if param = name then some 0 else none

namespace Scope

/-- The value of a variable (`named_values`). Of several parameters with its name the last one
    counts. -/
def lookupVar (s : Scope) (name : String) : Except LowerError Value :=
  match lastIndex? name s.params with
  | some i => .ok (.param i)
  | none => .error (.unknownVariable name)

/-- The routine that a call with a number of arguments refers to. -/
def lookupCallee (s : Scope) (name : String) (found : Nat) : Except LowerError RoutineId :=
  match s.code.find? name with
  | none => .error (.unknownFunction name)
  | some id =>
    let expected := ((s.code.get? id).map (·.arity)).getD 0
    if expected = found then .ok id else .error (.arityMismatch name expected found)

end Scope

/-- Code for an operator (`build_binary`). A comparison is turned into a number. -/
def emitOperator (op : Char) (lhs rhs : Value) (b : Builder) :
    Except LowerError (Value × Builder) :=
  match op with
  | '+' => .ok (b.binary .add lhs rhs "addtmp")
  | '-' => .ok (b.binary .sub lhs rhs "subtmp")
  | '*' => .ok (b.binary .mul lhs rhs "multmp")
  | '<' =>
    let (flag, b) := b.binary .less lhs rhs "cmptmp"
    .ok (b.ofTruth flag "booltmp")
  | other => .error (.invalidOperator other)

/-- What is still to be done with a value. -/
abbrev Pending := Value → Builder → Except LowerError (Value × Builder)

/-- Does what is to be done with a value, the first step first. -/
def resume : List Pending → Pending
  | [], v, b => .ok (v, b)
  | step :: rest, v, b => do
    let (v, b) ← step v b
    resume rest v b

mutual

/-- Code for an expression, and for all that waits for its value (the `spine` of `lower_expr`). -/
def lowerOnto (s : Scope) : Expr → List Pending → Builder → Except LowerError (Value × Builder)
  | .number x, pending, b => resume pending (.constant x) b
  | .var name, pending, b => do
    let v ← s.lookupVar name
    resume pending v b
  | .binary op lhs rhs, pending, b =>
    let operator : Pending := fun l b => do
      let (r, b) ← lowerOnto s rhs [] b
      emitOperator op l r b
    lowerOnto s lhs (operator :: pending) b
  | .call callee args, pending, b => do
    let target ← s.lookupCallee callee args.length
    let (values, b) ← lowerArgs s args b
    let (v, b) := b.call target values "calltmp"
    resume pending v b

/-- Code for arguments, from left to right. -/
def lowerArgs (s : Scope) : List Expr → Builder → Except LowerError (List Value × Builder)
  | [], b => .ok ([], b)
  | arg :: rest, b => do
    let (v, b) ← lowerOnto s arg [] b
    let (values, b) ← lowerArgs s rest b
    .ok (v :: values, b)

end

/-- Code for an expression (`lower_expr`). -/
def lowerExpr (s : Scope) (e : Expr) (b : Builder) : Except LowerError (Value × Builder) :=
  lowerOnto s e [] b

end Formulary
