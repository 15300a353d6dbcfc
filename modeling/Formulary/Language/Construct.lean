import Formulary.Language.Expr

/-!
# Constructs

A program is a sequence of constructs: definitions, declarations, expressions at top level, and
the separators between them.

* `Prototype`: a name with its parameters.
* `Formula`: a prototype with a body; without a name it is just its body.
* `Construct`: what a program is made of.
-/

namespace Formulary

/-- The name and the parameters of a function. -/
structure Prototype where
  name : String
  params : List String
deriving DecidableEq

namespace Prototype

/-- The nameless prototype without parameters (`anonymous`). -/
def anonymous : Prototype := ⟨"", []⟩

/-- The prototype has no name (`is_anonymous`). -/
def isAnonymous (p : Prototype) : Bool := p.name.isEmpty

/-- The text of a prototype: parameters are parted by blanks. -/
def display (p : Prototype) : String := p.name ++ "(" ++ String.intercalate " " p.params ++ ")"

end Prototype

/-- A function with a body in the language. -/
structure Formula where
  proto : Prototype
  body : Expr

namespace Formula

/-- The function without name and parameters that an expression at top level stands for. -/
def ofExpr (body : Expr) : Formula := ⟨.anonymous, body⟩

/-- The text of a formula: its definition, or only its body when it has no name. -/
def display (f : Formula) : String :=
  if f.proto.isAnonymous then f.body.display
  else "def " ++ f.proto.display ++ " " ++ f.body.display

end Formula

/-- A unit of a program. -/
inductive Construct
  | definition (formula : Formula)
  | declaration (proto : Prototype)
  /-- An expression at top level, as the function without a name that it stands for. -/
  | expression (formula : Formula)
  /-- A semicolon between constructs. -/
  | separator
  | endOfInput

end Formulary
