/-!
# Binary64 numbers

A `Double` is the 64-bit pattern of a binary64 number, so the two zeros and all NaNs are told apart
and equality is decidable. Arithmetic does not keep NaNs apart: a sum, difference or product that is
no number is always the one NaN `0x7FF8000000000000`, where a machine may set the sign or keep the
pattern of an operand. The magnitude of a number is the pattern without the sign bit. Every finite
magnitude is a whole number of *units* of `2^-1074`, the least positive subnormal, which lets
rounding and printing work with natural numbers only.

* `Double.units`: the magnitude in units of `2^-1074`.
* `Double.lessOrUnordered`: the comparison of the language, true also when an operand is a NaN.
* `Double.sameValue`: equality as numbers, `0 = -0` and no NaN equal to anything.
-/

namespace Formulary

/-- `2^n`. -/
def powerOfTwo (n : Nat) : Nat := Nat.pow 2 n

/-- A binary64 number, kept as its bit pattern. -/
structure Double where
  bits : UInt64
deriving DecidableEq

namespace Double

/-! ## Fields of the pattern -/

/-- The pattern without its sign bit. -/
def magnitude (x : Double) : Nat := x.bits.toNat % powerOfTwo 63

/-- The sign bit. -/
def isNegative (x : Double) : Bool := powerOfTwo 63 ≤ x.bits.toNat

/-- The magnitude of the infinities; every larger magnitude is a NaN. -/
def infinityMagnitude : Nat := 0x7FF0000000000000

/-- A number that is neither infinite nor a NaN. -/
def isFinite (x : Double) : Bool := x.magnitude < infinityMagnitude

/-- Not a number. -/
def isNaN (x : Double) : Bool := infinityMagnitude < x.magnitude

/-- The number with the given sign and magnitude. -/
def ofMagnitude (negative : Bool) (magnitude : Nat) : Double :=
  ⟨UInt64.ofNat (if negative then powerOfTwo 63 + magnitude else magnitude)⟩

/-- The weight of the leading bit of a significand, which is also that of the exponent field. -/
def leadingBit : Nat := powerOfTwo 52

/-- A finite magnitude in units of `2^-1074`: a zero exponent field marks a subnormal, any other
    adds the leading bit and shifts. -/
def unitsOfMagnitude (m : Nat) : Nat :=
  let exponent := m / leadingBit
  if exponent = 0 then m else (leadingBit + m % leadingBit) * powerOfTwo (exponent - 1)

/-- The absolute value of a finite number in units of `2^-1074`. -/
def units (x : Double) : Nat := unitsOfMagnitude x.magnitude

/-- The number of units in one. -/
def unitsInOne : Nat := powerOfTwo 1074

/-! ## Constants -/

/-- Positive zero. -/
def zero : Double := ⟨0⟩

/-- One. -/
def one : Double := ⟨0x3FF0000000000000⟩

/-! ## Arithmetic and comparison -/

/-- The number as a machine float. -/
def toFloat (x : Double) : Float := Float.ofBits x.bits

/-- The pattern of a machine float. All NaNs have the one pattern `0x7FF8000000000000`. -/
def ofFloat (x : Float) : Double := ⟨x.toBits⟩

/-- The correctly rounded sum, or the one NaN of `ofFloat`. -/
def add (a b : Double) : Double := ofFloat (a.toFloat + b.toFloat)

/-- The correctly rounded difference, or the one NaN of `ofFloat`. -/
def sub (a b : Double) : Double := ofFloat (a.toFloat - b.toFloat)

/-- The correctly rounded product, or the one NaN of `ofFloat`. -/
def mul (a b : Double) : Double := ofFloat (a.toFloat * b.toFloat)

/-- The magnitude with the sign put on it. It orders all numbers that are not NaNs, and both
    zeros have rank 0. -/
def rank (x : Double) : Int := if x.isNegative then -(x.magnitude : Int) else x.magnitude

/-- The left number is less, or the two cannot be compared because one is a NaN. -/
def lessOrUnordered (a b : Double) : Bool :=
  a.isNaN || b.isNaN || decide (a.rank < b.rank)

/-- Equality as numbers: the zeros are equal, and a NaN equals nothing. -/
def sameValue (a b : Double) : Bool :=
  !a.isNaN && !b.isNaN && decide (a.rank = b.rank)

/-- The number a truth value stands for. -/
def ofBool (b : Bool) : Double := if b then one else zero

end Double

end Formulary
