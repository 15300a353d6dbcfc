import Formulary.Language.Construct
import Formulary.Lowering.Expression

/-!
# Code for constructs

Each construct changes a module, or is refused and leaves its routines as they were. A construct
can refer to the routines of earlier ones and to the routine it defines.

* `lowerPrototype`: declares a routine, or finds the one declared before.
* `lowerFormula`: defines a routine.
* `lowerConstruct`: what a construct does to a module.
-/

namespace Formulary

/-- Declares a routine (`lower_prototype`). One that has the name already is used instead, if it has
    as many parameters. -/
def lowerPrototype (m : CodeModule) (p : Prototype) : Except LowerError RoutineId × CodeModule :=
  match m.find? p.name with
  | none =>
    let (id, m) := m.declare p.name p.params
    (.ok id, m)
  | some id =>
    let expected := ((m.get? id).map (·.arity)).getD 0
    if expected = p.params.length then (.ok id, m)
    else (.error (.signatureMismatch p.name expected p.params.length), m)

/-- A routine with the name has a body. -/
def isDefined (m : CodeModule) (name : String) : Bool :=
  ((m.find? name).bind m.get?).any (!·.isDeclaration)

/-- Defines a routine (`lower_function`). When its body is refused, a routine that was declared for
    it goes away again, and one that was declared before stays as it was. -/
def lowerFormula (m : CodeModule) (f : Formula) : Except LowerError RoutineId × CodeModule :=
  let isNew := (m.find? f.proto.name).isNone
  if isDefined m f.proto.name then (.error (.redefinition f.proto.name), m)
  else
    match lowerPrototype m f.proto with
    | (.error e, m) => (.error e, m)
    | (.ok id, declared) =>
      match lowerExpr ⟨declared, f.proto.params⟩ f.body (.start f.proto.params) with
      | .error e => (.error e, if isNew then (declared.erase id).2 else declared)
      | .ok (ret, b) =>
        let (previous, defined) := declared.define id (b.finish ret)
        match defined.verify id with
        | .ok () => (.ok id, defined)
        | .error e =>
          (.error (.verification f.proto.name e),
            if isNew then (defined.erase id).2 else defined.clearBody id previous)

/-- Changes a module by a construct and yields the routine that was declared or defined (`lower`).
    -/
def lowerConstruct (m : CodeModule) : Construct → Except LowerError (Option RoutineId) × CodeModule
  | .definition f | .expression f =>
    let (result, m) := lowerFormula m f
    (result.map some, m)
  | .declaration p =>
    let (result, m) := lowerPrototype m p
    (result.map some, m)
  | .separator => (.ok none, m)
  | .endOfInput => (.ok none, m)

end Formulary
