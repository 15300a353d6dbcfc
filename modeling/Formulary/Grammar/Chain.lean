import Formulary.Language.Expr

/-!
# Grouping a chain of operators

A chain is an operand followed by links, each an operator with its precedence and an operand.
Grouping turns it into one expression: operators of higher precedence take their operands first,
and equal ones group to the left.

* `climb`: groups the links that bind at least as tightly as a given precedence; its steps are
  `climb_nil`, `climb_cons_of_lt` and `climb_cons_of_not_lt`.
* `groupChain`: groups a whole chain.
-/

namespace Formulary

/-- An operator of a chain with the operand behind it. -/
structure Link where
  op : Char
  precedence : Int32
  operand : Expr

/-- The next link binds tighter than the given precedence. -/
def tighterAhead (precedence : Int32) : List Link → Bool
  | [] => false
  | link :: _ => precedence < link.precedence

/-- Groups links onto `lhs` up to the first one that binds less tightly than `least`
    (`parse_binop_rhs`). When the link behind an operator binds tighter, it takes that operator's
    right operand as its left one. The links that are left are not more than there were. -/
def climb (least : Int32) (lhs : Expr) :
    (links : List Link) → { r : Expr × List Link // r.2.length ≤ links.length }
  | [] => ⟨(lhs, []), Nat.le_refl _⟩
  | link :: rest =>
    if link.precedence < least then ⟨(lhs, link :: rest), Nat.le_refl _⟩
    else
      let right : { r : Expr × List Link // r.2.length ≤ rest.length } :=
        if tighterAhead link.precedence rest then
          climb (link.precedence + 1) link.operand rest
        else ⟨(link.operand, rest), Nat.le_refl _⟩
      let grouped := climb least (.binary link.op lhs right.1.1) right.1.2
      ⟨grouped.1, Nat.le_trans grouped.2 (Nat.le_succ_of_le right.2)⟩
termination_by links => links.length
decreasing_by
  · exact Nat.lt_succ_self _
  · exact Nat.lt_succ_of_le right.2

@[simp] theorem climb_nil (least : Int32) (lhs : Expr) : (climb least lhs []).1 = (lhs, []) := by
  rw [climb]

/-- A link that binds less tightly stays, with all behind it. -/
theorem climb_cons_of_lt {least : Int32} {link : Link} (lhs : Expr) (rest : List Link)
    (h : link.precedence < least) : (climb least lhs (link :: rest)).1 = (lhs, link :: rest) := by
  rw [climb, if_pos h]

/-- A link that binds tightly enough takes its right operand, and grouping goes on. -/
theorem climb_cons_of_not_lt {least : Int32} {link : Link} (lhs : Expr) (rest : List Link)
    (h : ¬ link.precedence < least) :
    (climb least lhs (link :: rest)).1 =
      let right := if tighterAhead link.precedence rest
        then (climb (link.precedence + 1) link.operand rest).1 else (link.operand, rest)
      (climb least (.binary link.op lhs right.1) right.2).1 := by
  rw [climb, if_neg h]
  refine congrArg (fun r : Expr × List Link => (climb least (.binary link.op lhs r.1) r.2).1) ?_
  split <;> rfl

/-- The expression that a chain stands for. -/
def groupChain (first : Expr) (links : List Link) : Expr := (climb 0 first links).1.1

end Formulary
