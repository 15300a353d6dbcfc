import Std.Data.HashMap
import Std.Data.HashSet

/-!
# Names that do not clash

Within a routine every parameter and result has its own name. A wanted name that is taken gets the
least number behind it that makes it free. To avoid searching from one every time, the number from
which to go on is remembered for each wanted name.

* `Names.claim`: a free name for a wanted one.
* `Names.claimAll`: free names for several wanted ones, in order.
-/

namespace Formulary

/-- The names in use, and where to go on for a wanted name that clashed. -/
structure Names where
  used : Std.HashSet String
  nextSuffix : Std.HashMap String Nat

namespace Names

/-- No names in use. -/
def empty : Names := ⟨∅, ∅⟩

/-- A wanted name with a number behind it. -/
def numbered (base : String) (suffix : Nat) : String := base ++ toString suffix

/-- The first number from `suffix` on that makes the wanted name free. Of more candidates than
    there are names in use one is free, so `tries` above the number of names never runs out. -/
def firstFree (used : Std.HashSet String) (base : String) : (tries : Nat) → (suffix : Nat) → Nat
  | 0, suffix => suffix
  | tries + 1, suffix =>
    if used.contains (numbered base suffix) then firstFree used base tries (suffix + 1)
    else suffix

/-- Takes a free name (`unique_name`): the wanted one, or else the wanted one with a number. -/
def claim (names : Names) (base : String) : String × Names :=
  if names.used.contains base then
    let suffix := firstFree names.used base (names.used.size + 1) (names.nextSuffix.getD base 1)
    let name := numbered base suffix
    (name, ⟨names.used.insert name, names.nextSuffix.insert base (suffix + 1)⟩)
  else (base, ⟨names.used.insert base, names.nextSuffix⟩)

/-- Takes free names for several wanted ones, in order. -/
def claimAll (names : Names) : List String → List String × Names
  | [] => ([], names)
  | base :: rest =>
    let (name, names) := names.claim base
    let (others, names) := names.claimAll rest
    (name :: others, names)

end Names

end Formulary
