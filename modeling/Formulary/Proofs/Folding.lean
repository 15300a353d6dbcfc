import Formulary.Proofs.Definitions

/-!
# What is computed at once, and what is left to instructions

A builder decides for each operation by itself whether to emit it: it looks at two operands and
knows nothing of the expression they come from. Nevertheless exactly those expressions become
constants that contain neither a variable nor a call, and every other operation has its
instruction. The instructions stand in the order in which the parts of the expression are finished.

* `Expr.postorder`: the parts of an expression in that order.
* `Expr.kinds`: which instructions a part itself has.
* `Appends`: a builder is continued by instructions of given kinds.
* `emitOperator_folds`: an operator emits code unless both operands are known.
* `lowerExpr_folds`: which instructions an expression has, and whether it becomes a constant.
-/

namespace Formulary

/-! ## The instructions of an expression -/

namespace Expr

mutual

/-- The parts of an expression, itself included, each behind its own parts: the left operand, the
    right one, then the operation; the arguments from left to right, then the call. -/
def postorder : Expr → List Expr
  | number x => [number x]
  | var name => [var name]
  | binary op lhs rhs => lhs.postorder ++ (rhs.postorder ++ [binary op lhs rhs])
  | call callee args => postorderAll args ++ [call callee args]

/-- The parts of several expressions, from left to right. -/
def postorderAll : List Expr → List Expr
  | [] => []
  | e :: rest => e.postorder ++ postorderAll rest

end

/-- The expression is itself a variable or a call. -/
def isReference : Expr → Bool
  | number _ => false
  | var _ => true
  | binary _ _ _ => false
  | call _ _ => true

/-- The expression contains a variable or a call. -/
def isOpen (e : Expr) : Bool := e.postorder.any isReference

@[simp] theorem isOpen_number (x : Double) : (number x).isOpen = false := by
  simp [isOpen, postorder, isReference]

@[simp] theorem isOpen_var (name : String) : (var name).isOpen = true := by
  simp [isOpen, postorder, isReference]

@[simp] theorem isOpen_binary (op : Char) (lhs rhs : Expr) :
    (binary op lhs rhs).isOpen = (lhs.isOpen || rhs.isOpen) := by
  simp [isOpen, postorder, isReference]

@[simp] theorem isOpen_call (callee : String) (args : List Expr) :
    (call callee args).isOpen = true := by
  simp [isOpen, postorder, isReference]

end Expr

/-- What an instruction does, apart from its operands. -/
inductive Kind
  | binary (op : BinaryOp)
  | ofTruth
  | call (callee : RoutineId) (count : Nat)
deriving DecidableEq

/-- What an operation does, apart from its operands. -/
def Operation.kind : Operation → Kind
  | binary op _ _ => .binary op
  | ofTruth _ => .ofTruth
  | call callee args => .call callee args.length

/-- The instructions of an operator. The result of a comparison is turned into a number. -/
def operatorKinds : Char → List Kind
  | '+' => [.binary .add]
  | '-' => [.binary .sub]
  | '*' => [.binary .mul]
  | '<' => [.binary .less, .ofTruth]
  | _ => []

/-- The instructions that an expression has for itself, those of its parts left out. A call has
    one, and an operation has those of its operator if it contains a variable or a call. -/
def Expr.kinds (s : Scope) : Expr → List Kind
  | number _ => []
  | var _ => []
  | binary op lhs rhs => if (binary op lhs rhs).isOpen then operatorKinds op else []
  | call callee args => (s.code.find? callee).toList.map (.call · args.length)

/-! ## Builders that are continued -/

/-- In code that begins at the position `start`, every truth value that is turned into a number is
    the result of a comparison directly before. -/
def ConvertsLast (start : Nat) (code : List Instruction) : Prop :=
  ∀ k i value, code[k]? = some i → i.operation = .ofTruth value →
    ∃ before j, k = before + 1 ∧ code[before]? = some j ∧ j.operation.kind = .binary .less ∧
      value = .result (start + before)

/-- The second builder has the instructions of the first one, and behind them code of the given
    kinds. -/
def Appends (b b' : Builder) (kinds : List Kind) : Prop :=
  ∃ code, b'.instructions.toList = b.instructions.toList ++ code ∧
    code.map (·.operation.kind) = kinds ∧ ConvertsLast b.instructions.size code

section Appending

variable {b b₁ b₂ : Builder} {kinds kinds' : List Kind}

theorem ConvertsLast.append {start : Nat} {code code' : List Instruction}
    (h : ConvertsLast start code) (h' : ConvertsLast (start + code.length) code') :
    ConvertsLast start (code ++ code') := by
  intro k i value hi hop
  by_cases hk : k < code.length
  · rw [List.getElem?_append_left hk] at hi
    obtain ⟨before, j, hbefore, hj, hless, hvalue⟩ := h k i value hi hop
    refine ⟨before, j, hbefore, ?_, hless, hvalue⟩
    rwa [List.getElem?_append_left (by omega)]
  · rw [List.getElem?_append_right (by omega)] at hi
    obtain ⟨before, j, hbefore, hj, hless, hvalue⟩ := h' _ i value hi hop
    refine ⟨code.length + before, j, by omega, ?_, hless, ?_⟩
    · rwa [List.getElem?_append_right (by omega), Nat.add_sub_cancel_left]
    · rw [hvalue, Nat.add_assoc]

theorem Appends.refl (b : Builder) : Appends b b [] :=
  ⟨[], by simp, rfl, by simp [ConvertsLast]⟩

theorem Appends.trans (h : Appends b b₁ kinds) (h' : Appends b₁ b₂ kinds') :
    Appends b b₂ (kinds ++ kinds') := by
  obtain ⟨code, hcode, rfl, hconverts⟩ := h
  obtain ⟨code', hcode', rfl, hconverts'⟩ := h'
  have hsize : b₁.instructions.size = b.instructions.size + code.length := by
    have := congrArg List.length hcode
    simpa using this
  refine ⟨code ++ code', ?_, by rw [List.map_append], hconverts.append (hsize ▸ hconverts')⟩
  rw [hcode', hcode, List.append_assoc]

/-- An instruction that turns no truth value into a number can be emitted anywhere. -/
theorem Appends.push (b : Builder) (name : String) {operation : Operation}
    (hop : operation.kind ≠ .ofTruth) : Appends b (b.push name operation).2 [operation.kind] := by
  refine ⟨[⟨(b.names.claim name).1, operation⟩], by simp [Builder.push], rfl, ?_⟩
  intro k i value hi htruth
  obtain rfl : i = ⟨(b.names.claim name).1, operation⟩ := by
    simpa using List.mem_of_getElem? hi
  subst htruth
  exact absurd rfl hop

/-- The result of a comparison is turned into a number by the next instruction. -/
theorem Appends.comparison (b : Builder) (l r : Value) (name name' : String) :
    let compared := b.push name (.binary .less l r)
    Appends b (compared.2.push name' (.ofTruth compared.1)).2 [.binary .less, .ofTruth] := by
  intro compared
  refine ⟨[⟨(b.names.claim name).1, .binary .less l r⟩,
    ⟨(compared.2.names.claim name').1, .ofTruth compared.1⟩],
    by simp [compared, Builder.push], rfl, ?_⟩
  intro k i value hi htruth
  match k with
  | 0 =>
    obtain rfl := Option.some.inj hi
    simp at htruth
  | 1 =>
    obtain rfl := Option.some.inj hi
    obtain rfl := Operation.ofTruth.inj htruth
    exact ⟨0, _, rfl, rfl, rfl, rfl⟩
  | k + 2 => simp at hi

end Appending

/-! ## Operators -/

/-- The operand is a known number. -/
def Value.isConstant (v : Value) : Bool := v.asConstant?.isSome

theorem Value.isConstant_iff {v : Value} : v.isConstant = true ↔ ∃ x, v = .constant x := by
  cases v <;> simp [isConstant, asConstant?]

theorem Builder.binary_of_unknown (b : Builder) (op : BinaryOp) {l r : Value} (name : String)
    (h : (l.isConstant && r.isConstant) = false) :
    b.binary op l r name = b.push name (.binary op l r) := by
  rcases b.binary_cases op l r name with ⟨x, y, rfl, rfl, -⟩ | hpush
  · simp [Value.isConstant, Value.asConstant?] at h
  · exact hpush

theorem Arithmetic.operatorKinds_eq {op : Char} {operation : BinaryOp}
    (h : Arithmetic op operation) : operatorKinds op = [.binary operation] := by
  cases h <;> rfl

theorem Arithmetic.fold_eq {op : Char} {operation : BinaryOp} (h : Arithmetic op operation)
    (x y : Double) : ∃ z, operation.fold x y = .constant z := by
  cases h <;> exact ⟨_, rfl⟩

/-- An operator yields a known number if both operands are known, and else emits its
    instructions. -/
theorem emitOperator_folds {op : Char} {l r v : Value} {b b' : Builder}
    (h : emitOperator op l r b = .ok (v, b')) :
    v.isConstant = (l.isConstant && r.isConstant) ∧ (∀ flag, v ≠ .truth flag) ∧
      Appends b b' (if l.isConstant && r.isConstant then [] else operatorKinds op) := by
  cases hknown : l.isConstant && r.isConstant with
  | true =>
    obtain ⟨hl, hr⟩ := Bool.and_eq_true_iff.mp hknown
    obtain ⟨x, rfl⟩ := Value.isConstant_iff.mp hl
    obtain ⟨y, rfl⟩ := Value.isConstant_iff.mp hr
    have hconstant : ∃ z, v = .constant z ∧ b' = b := by
      rcases emitOperator_eq_ok h with ⟨operation, name, harith, hbinary⟩ |
        ⟨-, flag, b₁, hbinary, htruth⟩
      · obtain ⟨rfl, rfl⟩ := Prod.mk.inj hbinary
        obtain ⟨z, hz⟩ := harith.fold_eq x y
        exact ⟨z, hz, rfl⟩
      · obtain ⟨rfl, rfl⟩ := Prod.mk.inj hbinary
        obtain ⟨rfl, rfl⟩ := Prod.mk.inj htruth
        exact ⟨_, rfl, rfl⟩
    obtain ⟨z, rfl, rfl⟩ := hconstant
    exact ⟨rfl, by simp, .refl _⟩
  | false =>
    rcases emitOperator_eq_ok h with ⟨operation, name, harith, hbinary⟩ |
      ⟨rfl, flag, b₁, hbinary, htruth⟩
    · rw [b.binary_of_unknown operation name hknown] at hbinary
      obtain ⟨rfl, rfl⟩ := Prod.mk.inj hbinary
      rw [harith.operatorKinds_eq]
      exact ⟨rfl, by simp, .push b name (by simp [Operation.kind])⟩
    · -- the result of the comparison is no known truth value, so that it is converted by code too
      rw [b.binary_of_unknown .less "cmptmp" hknown] at hbinary
      obtain ⟨rfl, rfl⟩ := Prod.mk.inj hbinary
      obtain ⟨rfl, rfl⟩ := Prod.mk.inj htruth
      exact ⟨rfl, by simp, .comparison b l r "cmptmp" "booltmp"⟩

/-! ## Expressions -/

/-- The code of an expression has the instructions of its parts in order, and its value is a known
    number exactly if it contains no variable and no call. -/
structure Folds (s : Scope) (e : Expr) (b : Builder) (v : Value) (b' : Builder) : Prop where
  constant : v.isConstant = !e.isOpen
  noTruth : ∀ flag, v ≠ .truth flag
  code : Appends b b' (e.postorder.flatMap (·.kinds s))

mutual

theorem Emits.folds {s : Scope} {e : Expr} {b b' : Builder} {v : Value} :
    Emits s e b v b' → Folds s e b v b'
  | .number x b => ⟨by simp [Value.isConstant, Value.asConstant?], by simp, .refl b⟩
  | .var b hi => ⟨by simp [Value.isConstant, Value.asConstant?], by simp, .refl b⟩
  | @Emits.binary _ op lhs rhs _ _ _ _ _ _ _ hl hr hop => by
    obtain ⟨hlconst, -, hlcode⟩ := hl.folds
    obtain ⟨hrconst, -, hrcode⟩ := hr.folds
    obtain ⟨hconst, hno, hcode⟩ := emitOperator_folds hop
    have hopen : (!(Expr.binary op lhs rhs).isOpen) = (!lhs.isOpen && !rhs.isOpen) := by simp
    rw [hlconst, hrconst, ← hopen] at hconst hcode
    refine ⟨hconst, hno, ?_⟩
    have hkinds : (if !(Expr.binary op lhs rhs).isOpen then [] else operatorKinds op) =
        (Expr.binary op lhs rhs).kinds s := by
      rw [Expr.kinds]
      cases (Expr.binary op lhs rhs).isOpen <;> rfl
    rw [hkinds] at hcode
    simpa [Expr.postorder] using hlcode.trans (hrcode.trans hcode)
  | @Emits.call _ callee args target values _ b₁ htarget hargs => by
    obtain ⟨hcode, hlength⟩ := hargs.appends
    have hcall : Appends b₁ (b₁.call target values "calltmp").2
        ((Expr.call callee args).kinds s) := by
      rw [Expr.kinds, (Scope.lookupCallee_eq_ok_iff.mp htarget).1, ← hlength]
      exact .push b₁ "calltmp" (by simp [Operation.kind])
    refine ⟨by simp [Builder.call, Builder.push, Value.isConstant, Value.asConstant?],
      by simp [Builder.call, Builder.push], ?_⟩
    simpa [Expr.postorder] using hcode.trans hcall

theorem EmitsAll.appends {s : Scope} {es : List Expr} {b b' : Builder} {values : List Value} :
    EmitsAll s es b values b' →
      Appends b b' ((Expr.postorderAll es).flatMap (·.kinds s)) ∧ values.length = es.length
  | .nil b => ⟨.refl b, rfl⟩
  | .cons he hrest => by
    obtain ⟨hcode, hlength⟩ := hrest.appends
    refine ⟨?_, by rw [List.length_cons, List.length_cons, hlength]⟩
    simpa [Expr.postorderAll] using he.folds.code.trans hcode

end

/-- An expression becomes a constant exactly if it contains no variable and no call, and never a
    truth value. Its code stands behind what was there and has, for the parts of the expression in
    the order in which they are finished, one instruction for each call, and the instructions of
    the operator for each operation that contains a variable or a call. The result of a comparison
    is what the instruction directly behind it turns into a number. -/
theorem lowerExpr_folds {s : Scope} {e : Expr} {b b' : Builder} {v : Value}
    (h : lowerExpr s e b = .ok (v, b')) :
    ((∃ x, v = .constant x) ↔ e.isOpen = false) ∧ (∀ flag, v ≠ .truth flag) ∧
      ∃ code : List Instruction, b'.instructions.toList = b.instructions.toList ++ code ∧
        code.map (·.operation.kind) = e.postorder.flatMap (·.kinds s) ∧
        ∀ k i value, code[k]? = some i → i.operation = .ofTruth value →
          ∃ before j, k = before + 1 ∧ code[before]? = some j ∧
            j.operation.kind = .binary .less ∧ value = .result (b.instructions.size + before) := by
  obtain ⟨hconstant, hno, hcode⟩ := (lowerExpr_eq_ok_iff.mp h).folds
  refine ⟨?_, hno, hcode⟩
  rw [← Value.isConstant_iff, hconstant, Bool.not_eq_true']

/-- The expression `1 + 1 < x * f(x, 1 - 1)`. -/
def partlyKnown : Expr :=
  .binary '<' (.binary '+' (.number .one) (.number .one))
    (.binary '*' (.var "x")
      (.call "f" [.var "x", .binary '-' (.number .one) (.number .one)]))

/-- Of the operations in `partlyKnown` the sum and the difference are computed at once. The call,
    the product and the comparison are left. -/
theorem lowerExpr_folds_partlyKnown :
    let s : Scope := ⟨((CodeModule.empty "m").declare "f" ["a", "b"]).2, ["x"]⟩
    ∃ v b', lowerExpr s partlyKnown (.start ["x"]) = .ok (v, b') ∧ (¬ ∃ x, v = .constant x) ∧
      b'.instructions.toList.map (·.operation.kind) =
        [.call ⟨0⟩ 2, .binary .mul, .binary .less, .ofTruth] := by
  intro s
  have hok : (lowerExpr s partlyKnown (.start ["x"])).isOk = true := by decide +kernel
  obtain ⟨⟨v, b'⟩, h⟩ : ∃ r, lowerExpr s partlyKnown (.start ["x"]) = .ok r := by
    cases hresult : lowerExpr s partlyKnown (.start ["x"]) with
    | error e =>
      rw [hresult] at hok
      exact Bool.noConfusion hok
    | ok r => exact ⟨r, rfl⟩
  have hopen : partlyKnown.isOpen = true := by decide +kernel
  have hkinds : partlyKnown.postorder.flatMap (·.kinds s) =
      [.call ⟨0⟩ 2, .binary .mul, .binary .less, .ofTruth] := by decide +kernel
  obtain ⟨hconstant, -, code, hcode, hmap, -⟩ := lowerExpr_folds h
  refine ⟨v, b', h, ?_, ?_⟩
  · rw [hconstant, hopen]
    simp
  · rw [hcode, ← hkinds, ← hmap]
    rfl

end Formulary
