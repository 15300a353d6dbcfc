import Formulary.Code.Listing
import Formulary.Session.Step

/-!
# Compiling whole texts

* `compile`: the module and all faults of a text.
* `emit`: the text of the module, or the first fault.
-/

namespace Formulary

/-- The fault that an event is. -/
def Event.error? : Event → Option CompileError
  | error e => some e
  | _ => none

/-- The code of a text, and its faults in order. -/
structure Artifact where
  code : CodeModule
  errors : List CompileError
deriving DecidableEq

/-- Makes code for all constructs of a text and collects the faults (`compile`). -/
def compile (config : Config) (text : String) : Artifact :=
  let (faults, final) := (Session.start config text.toList).observe config.precedence
    fun event _ => event.error?
  ⟨final.code, faults.filterMap id⟩

/-- The text of the code for a text without faults, or its first fault (`emit_llvm_ir`). -/
def emit (config : Config) (text : String) : Except CompileError String :=
  let artifact := compile config text
  match artifact.errors with
  | e :: _ => .error e
  | [] => .ok artifact.code.text

/-- The same code and faults, numbers compared as numbers. -/
def Artifact.sameValue (a b : Artifact) : Bool := a.code.sameValue b.code && a.errors = b.errors

end Formulary
