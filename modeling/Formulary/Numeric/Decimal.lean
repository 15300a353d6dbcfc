import Formulary.Numeric.Rounding

/-!
# Decimal numbers

A `Decimal` is `significand * 10^exponent`. It is what a written number means before rounding
and what a double becomes before it is written.

* `Decimal.toDouble`: the nearest double.
* `Decimal.ofLiteral`: the meaning of a run of digits with at most one point.
* `Decimal.toPositional`: the text without an exponent.
-/

namespace Formulary

/-- `10^n`. -/
def powerOfTen (n : Nat) : Nat := Nat.pow 10 n

/-- The last `count` decimal digits of `n`, with leading zeros. -/
def fixedDigits : (count : Nat) → (n : Nat) → List Char
  | 0, _ => []
  | count + 1, n => fixedDigits count (n / 10) ++ [(n % 10).digitChar]

/-- The number `significand * 10^exponent`. -/
structure Decimal where
  significand : Nat
  exponent : Int
deriving DecidableEq

namespace Decimal

/-- The nearest double. -/
def toDouble (x : Decimal) : Double :=
  .ofRatio (x.significand * powerOfTen x.exponent.toNat) (powerOfTen (-x.exponent).toNat)

/-- The meaning of a run of digits with at most one point: all digits as one number, scaled by
    the digits behind the point. -/
def ofLiteral (text : List Char) : Decimal :=
  let whole := text.takeWhile (· ≠ '.')
  let fraction := (text.dropWhile (· ≠ '.')).drop 1
  ⟨Nat.ofDigitChars 10 (whole ++ fraction) 0, -(fraction.length : Int)⟩

/-- The same number with no zero at the end of its significand. -/
def trim (x : Decimal) : Decimal :=
  if h : x.significand ≠ 0 ∧ x.significand % 10 = 0 then
    trim ⟨x.significand / 10, x.exponent + 1⟩
  else x
termination_by x.significand
decreasing_by omega

/-- The text of the number without an exponent: an integer part, and behind a point exactly as
    many digits as the exponent is below zero. -/
def toPositional (x : Decimal) : List Char :=
  let places := (-x.exponent).toNat
  let scaled := x.significand * powerOfTen x.exponent.toNat
  if places = 0 then Nat.toDigits 10 scaled
  else Nat.toDigits 10 (scaled / powerOfTen places) ++ '.' :: fixedDigits places scaled

end Decimal

end Formulary
