import Formulary.Numeric.Shortest

/-!
# The text of a constant

A constant is written with seven significant digits and an exponent when that text reads back as
exactly the same double, and as its bit pattern in hexadecimal otherwise. Infinities and NaNs are
always written as bit patterns.

* `Double.scientificText`: seven significant digits, `d.dddddde+dd`.
* `Double.ofScientific?`: the double that such a text reads as.
* `Double.constantText`: the text of a constant.
-/

namespace Formulary

namespace Double

/-- The digits behind the point in a constant. -/
def constantPlaces : Nat := 6

/-- The positive number of units rounded to seven significant digits: a significand of exactly
    seven digits, and the exponent of its first digit. -/
def sevenDigits (units : Nat) : Nat × Int :=
  let first := leadingExponent units
  let (n, d) := overPower units (first - constantPlaces)
  let rounded := roundHalfEven n d
  if rounded = powerOfTen (constantPlaces + 1) then (powerOfTen constantPlaces, first + 1)
  else (rounded, first)

/-- A decimal exponent with its sign and at least two digits. -/
def exponentText (exponent : Int) : List Char :=
  let size := exponent.natAbs
  (if exponent < 0 then '-' else '+') ::
    (if size < 100 then fixedDigits 2 size else Nat.toDigits 10 size)

/-- Seven significant digits with one digit before the point, and an exponent. -/
def scientificText (x : Double) : List Char :=
  let (significand, exponent) := if x.units = 0 then (0, 0) else sevenDigits x.units
  let body := (significand / powerOfTen constantPlaces).digitChar :: '.' ::
    fixedDigits constantPlaces significand ++ 'e' :: exponentText exponent
  if x.isNegative then '-' :: body else body

/-- Whether a text is a non-empty run of decimal digits. -/
def isDigits (text : List Char) : Bool := !text.isEmpty && text.all Char.isDigit

/-- The exponent that a signed run of digits writes. -/
def readExponent? : List Char → Option Int
  | '+' :: digits => if isDigits digits then some (Nat.ofDigitChars 10 digits 0) else none
  | '-' :: digits => if isDigits digits then some (-(Nat.ofDigitChars 10 digits 0 : Int)) else none
  | _ => none

/-- The magnitude that a text `d.d…e±d…` reads as. -/
def readMagnitude? (text : List Char) : Option Nat := do
  let mantissa := text.takeWhile (· ≠ 'e')
  let exponent ← readExponent? ((text.dropWhile (· ≠ 'e')).drop 1)
  let whole := mantissa.takeWhile (· ≠ '.')
  let fraction := (mantissa.dropWhile (· ≠ '.')).drop 1
  if isDigits whole && isDigits fraction then
    let x := Decimal.ofLiteral mantissa
    some (Decimal.toDouble ⟨x.significand, x.exponent + exponent⟩).magnitude
  else none

/-- The double that a text with an exponent reads as. -/
def ofScientific? : List Char → Option Double
  | '-' :: text => (readMagnitude? text).map (ofMagnitude true)
  | text => (readMagnitude? text).map (ofMagnitude false)

/-- An upper-case hexadecimal digit. -/
def hexDigit (n : Nat) : Char :=
  if n < 10 then n.digitChar else Char.ofNat ('A'.toNat + (n - 10))

/-- The last `count` hexadecimal digits of `n`. -/
def hexDigits : (count : Nat) → (n : Nat) → List Char
  | 0, _ => []
  | count + 1, n => hexDigits count (n / 16) ++ [hexDigit (n % 16)]

/-- The bit pattern in hexadecimal. -/
def patternText (x : Double) : List Char := '0' :: 'x' :: hexDigits 16 x.bits.toNat

/-- The text of a constant (`format_double`): seven significant digits when they read back exactly,
    the bit pattern otherwise. -/
def constantText (x : Double) : String :=
  let text := x.scientificText
  String.ofList (if x.isFinite && ofScientific? text = some x then text else x.patternText)

end Double

end Formulary
