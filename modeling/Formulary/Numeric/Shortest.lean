import Formulary.Numeric.Decimal

/-!
# The shortest decimal text of a double

Among the decimals that read back as a given double, the printed one has the fewest digits, and
of those with the fewest digits it is the nearest; an exact tie goes up. For each number of
digits only the two neighbours of the value on that decimal grid can be the nearest, so only
these are tried.

* `Double.leadingExponent`: the decimal exponent of the first digit.
* `Double.shortestDecimal`: the decimal that is printed.
* `Double.toText`: the printed text, always without an exponent.
-/

namespace Formulary

namespace Double

/-- A power of ten that lifts every positive double above one. -/
def liftExponent : Nat := 400

/-- The decimal exponent of the first digit of `units` units of `2^-1074`, for a positive
    number of units. -/
def leadingExponent (units : Nat) : Int :=
  let lifted := units * powerOfTen liftExponent / unitsInOne
  ((Nat.toDigits 10 lifted).length : Int) - 1 - liftExponent

/-- The quotient of `units` units of `2^-1074` by `10^exponent`, as numerator and denominator. -/
def overPower (units : Nat) (exponent : Int) : Nat × Nat :=
  (units * powerOfTen (-exponent).toNat, unitsInOne * powerOfTen exponent.toNat)

/-- The two neighbours of `units` units of `2^-1074` among the multiples of `10^exponent`, the
    nearer one first; of two equally near ones the greater first. -/
def neighbours (units : Nat) (exponent : Int) : List Decimal :=
  let (n, d) := overPower units exponent
  let below := n / d
  if 2 * (n % d) < d then [⟨below, exponent⟩, ⟨below + 1, exponent⟩]
  else [⟨below + 1, exponent⟩, ⟨below, exponent⟩]

/-- No double needs more digits than this to be told apart from all others. -/
def mostDigits : Nat := 17

/-- The decimal with the fewest digits that reads back as the finite positive double of the given
    magnitude. The exact value stands behind the search as its last candidate. -/
def shortestDecimal (magnitude : Nat) : Decimal :=
  let units := unitsOfMagnitude magnitude
  let first := leadingExponent units
  let found := (List.range mostDigits).findSome? fun (more : Nat) =>
    (neighbours units (first - more)).find? fun x => x.toDouble.magnitude = magnitude
  (found.getD ⟨units * Nat.pow 5 1074, -1074⟩).trim

/-- The text of the absolute value of a finite double. -/
def magnitudeText (magnitude : Nat) : List Char :=
  if magnitude = 0 then ['0'] else (shortestDecimal magnitude).toPositional

/-- The text of a double: the fewest digits that read back, without an exponent, a minus sign for
    a set sign bit, and words for the numbers that have no digits. -/
def toText (x : Double) : String :=
  if x.isNaN then "NaN"
  else
    let body := if x.isFinite then magnitudeText x.magnitude else "inf".toList
    String.ofList (if x.isNegative then '-' :: body else body)

end Double

end Formulary
