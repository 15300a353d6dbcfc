import Formulary.Code.Verify

/-!
# Faults of a program's meaning

* `LowerError`: why no code can be made for a construct.
* `LowerError.message`: how it is told.
-/

namespace Formulary

/-- The reasons for which no code can be made. -/
inductive LowerError
  | unknownVariable (name : String)
  | unknownFunction (name : String)
  | arityMismatch (callee : String) (expected found : Nat)
  | invalidOperator (op : Char)
  | redefinition (name : String)
  | signatureMismatch (name : String) (expected found : Nat)
  | verification (name : String) (reason : VerifyError)
deriving DecidableEq

/-- The text of a fault. -/
def LowerError.message : LowerError → String
  | unknownVariable name => "unknown variable name '" ++ name ++ "'"
  | unknownFunction name => "unknown function referenced '" ++ name ++ "'"
  | arityMismatch callee expected found =>
    "incorrect number of arguments passed to '" ++ callee ++ "': expected " ++
      toString expected ++ ", found " ++ toString found
  | invalidOperator op => "invalid binary operator '" ++ String.singleton op ++ "'"
  | redefinition name => "function '" ++ name ++ "' cannot be redefined"
  | signatureMismatch name expected found =>
    "function '" ++ name ++ "' was declared with " ++ toString expected ++
      " parameter(s), not " ++ toString found
  | verification name reason =>
    "generated IR for '" ++ name ++ "' failed verification: " ++ reason.message

end Formulary
