import Formulary.Proofs.Emission

/-!
# The loop over left operands is plain recursion

Making code for an operation walks down the left operands first. The operators on the way wait on a
stack with their right operands, and are made from the lowest one up once the value at the lower end
is there. This gives the same value, the same builder and the same fault as recursion on the
expression that knows nothing of the stack.

Results:
* `Expr.descend`, `unwind`: the way down the left operands, and back up the stack.
* `Expr.foldl_descend`: nothing is lost on the way down.
* `lowerExpr_descend`: the loop, for any stack that it starts with.
* `lowerPlainly`: code for an expression by recursion on it.
* `spine_loop_eq_recursion`: both ways make the same code.
-/

namespace Formulary

/-! ## The loop -/

namespace Expr

/-- Walks down the left operands of an expression. Yields the expression at the lower end, and the
    operators on the way with their right operands, the lowest on top of those that wait already. -/
def descend : Expr → List (Char × Expr) → Expr × List (Char × Expr)
  | binary op lhs rhs, waiting => lhs.descend ((op, rhs) :: waiting)
  | e, waiting => (e, waiting)

/-- The expression is an operator with two operands. -/
def isOperation : Expr → Bool
  | binary _ _ _ => true
  | _ => false

theorem isOperation_descend (e : Expr) (waiting : List (Char × Expr)) :
    (e.descend waiting).1.isOperation = false := by
  fun_induction descend e waiting with
  | case1 op lhs rhs waiting ih => exact ih
  | case2 e waiting hleaf =>
    cases e with
    | binary op lhs rhs => exact absurd rfl (hleaf op lhs rhs)
    | number _ => rfl
    | var _ => rfl
    | call _ _ => rfl

/-- Nothing is lost on the way down: the operators on the stack, put back from the lowest one up,
    give what they would have been put on at the start. -/
theorem foldl_descend (e : Expr) (waiting : List (Char × Expr)) :
    (e.descend waiting).2.foldl (fun lhs (op, rhs) => binary op lhs rhs) (e.descend waiting).1 =
      waiting.foldl (fun lhs (op, rhs) => binary op lhs rhs) e := by
  fun_induction descend e waiting with
  | case1 op lhs rhs waiting ih => exact ih
  | case2 e waiting hleaf => rfl

end Expr

/-- Makes the operators that wait for a value, from the top of the stack on: the right operand of
    each, and then the operator. -/
def unwind (s : Scope) : List (Char × Expr) → Value → Builder → Except LowerError (Value × Builder)
  | [], v, b => .ok (v, b)
  | (op, rhs) :: waiting, v, b => do
    let (r, b) ← lowerExpr s rhs b
    let (v, b) ← emitOperator op v r b
    unwind s waiting v b

/-- Walking down from an expression and unwinding the stack is making code for the expression and
    then for what waited before. -/
theorem lowerExpr_descend (s : Scope) (e : Expr) (waiting : List (Char × Expr)) (b : Builder) :
    (lowerExpr s (e.descend waiting).1 b >>= fun (v, b) => unwind s (e.descend waiting).2 v b) =
      lowerExpr s e b >>= fun (v, b) => unwind s waiting v b := by
  fun_induction Expr.descend e waiting with
  | case1 op lhs rhs waiting ih =>
    -- the stack has one operator more, which is the last step of the whole operation
    rw [ih, lowerExpr_binary, bind_assoc]
    congr 1
    funext (l, b)
    rw [bind_assoc]
    rfl
  | case2 e waiting hleaf => rfl

/-! ## Recursion -/

mutual

/-- Code for an expression by recursion: first the left operand, then the right one, then the
    operator. -/
def lowerPlainly (s : Scope) : Expr → Builder → Except LowerError (Value × Builder)
  | .number x, b => .ok (.constant x, b)
  | .var name, b => do
    let v ← s.lookupVar name
    .ok (v, b)
  | .binary op lhs rhs, b => do
    let (l, b) ← lowerPlainly s lhs b
    let (r, b) ← lowerPlainly s rhs b
    emitOperator op l r b
  | .call callee args, b => do
    let target ← s.lookupCallee callee args.length
    let (values, b) ← lowerAllPlainly s args b
    .ok (b.call target values "calltmp")

/-- Code for arguments, from left to right. -/
def lowerAllPlainly (s : Scope) : List Expr → Builder → Except LowerError (List Value × Builder)
  | [], b => .ok ([], b)
  | arg :: rest, b => do
    let (v, b) ← lowerPlainly s arg b
    let (values, b) ← lowerAllPlainly s rest b
    .ok (v :: values, b)

end

mutual

theorem lowerExpr_eq_lowerPlainly (s : Scope) : ∀ e : Expr, lowerExpr s e = lowerPlainly s e
  | .number x => by
    funext b
    rw [lowerExpr_number, lowerPlainly]
  | .var name => by
    funext b
    rw [lowerExpr_var, lowerPlainly]
  | .binary op lhs rhs => by
    funext b
    rw [lowerExpr_binary, lowerExpr_eq_lowerPlainly s lhs, lowerExpr_eq_lowerPlainly s rhs,
      lowerPlainly]
  | .call callee args => by
    funext b
    rw [lowerExpr_call, lowerArgs_eq_lowerAllPlainly s args, lowerPlainly]

theorem lowerArgs_eq_lowerAllPlainly (s : Scope) :
    ∀ args : List Expr, lowerArgs s args = lowerAllPlainly s args
  | [] => by
    funext b
    rw [lowerArgs, lowerAllPlainly]
  | arg :: rest => by
    funext b
    rw [lowerArgs_cons, lowerExpr_eq_lowerPlainly s arg, lowerArgs_eq_lowerAllPlainly s rest,
      lowerAllPlainly]

end

/-- Code for an expression is made by a loop: down the left operands to an expression that has none,
    with all operators on the way on a stack, and back up the stack. Whatever the names refer to and
    whatever has been emitted before, plain recursion on the expression fails with the same fault,
    or yields the same value and leaves the same instructions and names. -/
theorem spine_loop_eq_recursion (s : Scope) (e : Expr) (b : Builder) :
    (e.descend []).1.isOperation = false ∧
      (e.descend []).2.foldl (fun lhs (op, rhs) => .binary op lhs rhs) (e.descend []).1 = e ∧
      lowerExpr s e b =
        (lowerExpr s (e.descend []).1 b >>= fun (v, b) => unwind s (e.descend []).2 v b) ∧
      lowerExpr s e b = lowerPlainly s e b := by
  refine ⟨e.isOperation_descend [], e.foldl_descend [], ?_, ?_⟩
  · rw [lowerExpr_descend]
    exact (bind_pure (lowerExpr s e b)).symm
  · rw [lowerExpr_eq_lowerPlainly]

end Formulary
