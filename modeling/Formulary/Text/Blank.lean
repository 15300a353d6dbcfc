import Formulary.Text.Ranges

/-!
# Blank characters

The characters that separate words and mean nothing by themselves: those with the Unicode
property `White_Space`.

* `isBlank`: membership in the table.
-/

namespace Formulary

/-- The ranges of code points with the property `White_Space`, in ascending order. -/
def blankRanges : Ranges :=
  [(0x0009, 0x000D), (0x0020, 0x0020), (0x0085, 0x0085), (0x00A0, 0x00A0), (0x1680, 0x1680),
   (0x2000, 0x200A), (0x2028, 0x2029), (0x202F, 0x202F), (0x205F, 0x205F), (0x3000, 0x3000)]

/-- A character with the property `White_Space`. -/
def isBlank (c : Char) : Bool := blankRanges.holds c.toNat

end Formulary
