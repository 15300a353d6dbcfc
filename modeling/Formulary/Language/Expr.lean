import Formulary.Numeric.Shortest

/-!
# Expressions

An expression is a number, a variable, a binary operation or a call. Operators are single
characters; which of them have a meaning is decided when code is made.

* `Expr.display`: the text with every grouping written out.
* `Expr.sameValue`: equality that compares numbers as numbers.
-/

namespace Formulary

/-- An expression of the language. -/
inductive Expr
  | number (value : Double)
  | var (name : String)
  | binary (op : Char) (lhs rhs : Expr)
  | call (callee : String) (args : List Expr)

namespace Expr

/-- The expression is a call of the named function (`is_call`). -/
def isCall (name : String) : Expr → Bool
  | call callee _ => callee = name
  | _ => false

mutual

/-- The text of an expression: a binary operation in parentheses, arguments parted by commas. -/
def display : Expr → String
  | number x => x.toText
  | var name => name
  | binary op lhs rhs =>
    "(" ++ lhs.display ++ " " ++ String.singleton op ++ " " ++ rhs.display ++ ")"
  | call callee args => callee ++ "(" ++ String.intercalate ", " (displayAll args) ++ ")"

/-- The texts of several expressions. -/
def displayAll : List Expr → List String
  | [] => []
  | e :: rest => e.display :: displayAll rest

end

mutual

/-- The same tree with the same numbers: zeros are equal, and a NaN equals nothing. -/
def sameValue : Expr → Expr → Bool
  | number x, number y => x.sameValue y
  | var a, var b => a = b
  | binary op l r, binary op' l' r' => op = op' && l.sameValue l' && r.sameValue r'
  | call f args, call g args' => f = g && sameValues args args'
  | _, _ => false

/-- Equally many expressions, the same in pairs. -/
def sameValues : List Expr → List Expr → Bool
  | [], [] => true
  | e :: rest, e' :: rest' => e.sameValue e' && sameValues rest rest'
  | _, _ => false

end

end Expr

end Formulary
