import Formulary.Code.Names
import Formulary.Code.Value

/-!
# Building code

A builder collects the instructions of one routine. An operation on known numbers is not emitted
but computed at once.

* `Builder.binary`, `Builder.ofTruth`, `Builder.call`: emit or compute an operation.
* `Builder.finish`: the finished body with the names of its parameters.
-/

namespace Formulary

/-- The instructions of a routine so far, and the names in use (`FunctionBuilder`). -/
structure Builder where
  params : List String
  instructions : Array Instruction
  names : Names

/-- A body that returns a value, with the names of the parameters it was built with
    (`DefinedBody`). -/
structure Finished where
  params : List String
  body : Body
  ends : body.ret.isSome = true
deriving DecidableEq

namespace Builder

/-- No instructions yet (`new`). Parameters take the first names. -/
def start (params : List String) : Builder :=
  let (taken, names) := Names.empty.claimAll params
  ⟨taken, #[], names⟩

/-- Emits an instruction (`push`). Its value is its result. -/
def push (b : Builder) (name : String) (operation : Operation) : Value × Builder :=
  let (name, names) := b.names.claim name
  (.result b.instructions.size, ⟨b.params, b.instructions.push ⟨name, operation⟩, names⟩)

/-- An operation on two numbers, computed at once when both are known (`build_fadd`, `build_fsub`,
    `build_fmul`, `build_fcmp_ult`). -/
def binary (b : Builder) (op : BinaryOp) (lhs rhs : Value) (name : String) : Value × Builder :=
  match lhs, rhs with
  | .constant x, .constant y => (op.fold x y, b)
  | _, _ => b.push name (.binary op lhs rhs)

/-- The number that a truth value stands for, computed at once when it is known (`build_uitofp`). -/
def ofTruth (b : Builder) (value : Value) (name : String) : Value × Builder :=
  match value with
  | .truth flag => (.constant (.ofBool flag), b)
  | _ => b.push name (.ofTruth value)

/-- A call, which is always emitted (`build_call`). -/
def call (b : Builder) (callee : RoutineId) (args : List Value) (name : String) :
    Value × Builder :=
  b.push name (.call callee args)

/-- Closes the body with the value it returns (`build_ret`). -/
def finish (b : Builder) (ret : Value) : Finished := 
  ⟨b.params, ⟨b.instructions, some ret⟩, rfl⟩

end Builder

end Formulary
