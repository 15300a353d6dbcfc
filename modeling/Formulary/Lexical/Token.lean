import Formulary.Numeric.Decimal

/-!
# Tokens

A token is a keyword, an identifier, a number, or a single other character. A run of digits and
points that is not one number is read as the number that its longest sound beginning writes;
strict reading refuses it and yields a `malformed` token that carries the whole run.

* `Token.ofWord`: keywords are whole words only.
* `Token.ofLiteral`: the token of a run of digits and points, in either reading.
-/

namespace Formulary

/-- The smallest units of the language. -/
inductive Token
  /-- The keyword that opens a definition. -/
  | define
  /-- The keyword that opens a declaration. -/
  | declare
  | identifier (name : String)
  | number (value : Double)
  /-- Any other character: operators and punctuation. -/
  | symbol (c : Char)
  /-- A run of digits and points that strict reading refuses. -/
  | malformed (text : String)
deriving DecidableEq

/-- The text of the fault that a malformed run of digits and points is (`MalformedNumber`). -/
def malformedMessage (text : String) : String := "malformed numeric literal '" ++ text ++ "'"

namespace Token

/-- The token is not a refused number. -/
def isSound : Token → Bool
  | malformed _ => false
  | _ => true

/-- The token of a letter followed by letters and digits. -/
def ofWord (word : List Char) : Token :=
  if word = "def".toList then define
  else if word = "extern".toList then declare
  else identifier (String.ofList word)

end Token

/-! ## Runs of digits and points -/

/-- A character that belongs to a number. -/
def isNumeric (c : Char) : Bool := c.isDigit || c = '.'

/-- The beginning of a text up to its second point, without it. -/
def upToSecondPoint (text : List Char) : List Char :=
  let whole := text.takeWhile (· ≠ '.')
  match text.dropWhile (· ≠ '.') with
  | [] => whole
  | point :: rest => whole ++ point :: rest.takeWhile (· ≠ '.')

/-- The longest beginning of a run of digits and points that writes a number
    (`longest_numeric_prefix`): it has a digit and at most one point. Without a digit nothing is
    left. -/
def soundPart (text : List Char) : List Char :=
  let part := upToSecondPoint text
  if part.any Char.isDigit then part else []

/-- The token of a run of digits and points (`number`). -/
def Token.ofLiteral (strict : Bool) (text : List Char) : Token :=
  let part := soundPart text
  if strict && part ≠ text then malformed (String.ofList text)
  else number (Decimal.ofLiteral part).toDouble

end Formulary
