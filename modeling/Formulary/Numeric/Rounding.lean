import Formulary.Numeric.Double

/-!
# Rounding a quotient to the nearest double

`Double.ofRatio n d` is the double nearest to `n / d`. The quotient is measured in units of
`2^-1074`; its size gives the number of bits that do not fit, and one rounded division by that
power of two gives the significand. Adding the significand to the shifted exponent lets a carry
run into the exponent field by itself, and everything from the infinite magnitude on is infinite.

* `roundHalfEven`: nearest integer to a quotient, a half going to the even neighbour.
* `nearestMagnitude`: nearest finite or infinite magnitude to a quotient in units.
* `Double.ofRatio`: nearest double to a quotient of naturals.
-/

namespace Formulary

/-- The integer nearest to `n / d`; a half goes to the even neighbour. -/
def roundHalfEven (n d : Nat) : Nat :=
  let q := n / d
  let r := n % d
  if 2 * r < d then q
  else if d < 2 * r then q + 1
  else q + q % 2

/-- How many low bits of `⌊n / d⌋` have no room in a significand of 53 bits. -/
def excessBits (n d : Nat) : Nat := (n / d).log2 - 52

/-- The magnitude nearest to `n / d` units of `2^-1074`. -/
def nearestMagnitude (n d : Nat) : Nat :=
  let shift := excessBits n d
  min (shift * Double.leadingBit + roundHalfEven n (d * powerOfTwo shift)) Double.infinityMagnitude

/-- The double nearest to `n / d`, for a positive `d`. -/
def Double.ofRatio (n d : Nat) : Double :=
  .ofMagnitude false (nearestMagnitude (n * Double.unitsInOne) d)

end Formulary
