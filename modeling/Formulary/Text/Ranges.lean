/-!
# Ranges of code points

A property of characters is given by the ranges of code points that have it.

* `Ranges.holds`: some range has the code point in it.
* `Ranges.holds_iff`: what that means.
-/

namespace Formulary

/-- Ranges of code points, each with its first and its last. -/
abbrev Ranges := List (Nat × Nat)

/-- Some range has the code point in it. -/
def Ranges.holds (ranges : Ranges) (point : Nat) : Bool :=
  ranges.any fun (first, last) => first ≤ point && point ≤ last

theorem Ranges.holds_iff {ranges : Ranges} {point : Nat} :
    ranges.holds point = true ↔ ∃ range ∈ ranges, range.1 ≤ point ∧ point ≤ range.2 := by
  simp [holds]

end Formulary
