import Formulary.Lexical.Token

/-!
# Faults of a program's form

* `ParseError`: what can be wrong with the order of tokens.
* `ParseError.message`: how it is told.
* `faultAt`: the fault of a place where something else was expected.
-/

namespace Formulary

/-- The faults of a program's form. -/
inductive ParseError
  | expectedExpression
  | expectedClosingParen
  | expectedArgumentSeparator
  | expectedFunctionName
  | expectedParamListOpen
  | expectedParamListClose
  | trailingInput
  | nestingTooDeep (limit : Nat)
  | malformedNumber (text : String)
deriving DecidableEq

/-- The text of a fault. -/
def ParseError.message : ParseError → String
  | expectedExpression => "unknown token when expecting an expression"
  | expectedClosingParen => "expected ')'"
  | expectedArgumentSeparator => "expected ')' or ',' in argument list"
  | expectedFunctionName => "expected function name in prototype"
  | expectedParamListOpen => "expected '(' in prototype"
  | expectedParamListClose => "expected ')' in prototype"
  | trailingInput => "unexpected trailing input"
  | nestingTooDeep limit => "expression nested more than " ++ toString limit ++ " levels deep"
  | malformedNumber text => malformedMessage text

/-- The fault of a place that does not hold what was expected (`current`). A refused number is
    reported as such, whatever was expected in its place. -/
def faultAt (expected : ParseError) : List Token → ParseError
  | .malformed text :: _ => .malformedNumber text
  | _ => expected

end Formulary
