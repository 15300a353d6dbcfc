import Formulary.Lowering.Expression

/-!
# What making code for an expression does

`lowerOnto` walks down the left operands and keeps what waits for their values in a list. The code
it makes is that of plain recursion on the expression: first the left operand, then the right one,
then the operator. `Emits` says this as a relation between an expression, the builder before, the
value, and the builder behind.

* `lowerOnto_eq_bind`: what waits for a value is done once the value is there.
* `lowerExpr_binary`, `lowerExpr_call`: the equations of plain recursion.
* `Emits`, `EmitsAll`: successful making of code.
* `lowerExpr_eq_ok_iff`: code is made exactly where `Emits` holds.
* `emitOperator_eq_ok`: what an operator can do to a builder.
-/

namespace Formulary

/-! ## Plain recursion -/

theorem Except.bind_eq_ok_iff {ε α β : Type} {x : Except ε α} {next : α → Except ε β} {b : β} :
    x >>= next = .ok b ↔ ∃ a, x = .ok a ∧ next a = .ok b := by
  cases x with
  | error e => simp [bind, Except.bind]
  | ok a => simp [bind, Except.bind]

theorem Except.bind_eq_error_iff {ε α β : Type} {x : Except ε α} {next : α → Except ε β} {e : ε} :
    x >>= next = .error e ↔ x = .error e ∨ ∃ a, x = .ok a ∧ next a = .error e := by
  cases x with
  | error e => simp [bind, Except.bind]
  | ok a => simp [bind, Except.bind]

/-- What waits for the value of an expression is done once the value is there. -/
theorem lowerOnto_eq_bind (s : Scope) : ∀ (e : Expr) (pending : List Pending) (b : Builder),
    lowerOnto s e pending b = lowerExpr s e b >>= fun (v, b) => resume pending v b
  | .number x, pending, b => rfl
  | .var name, pending, b => by
    unfold lowerExpr
    rw [lowerOnto, lowerOnto]
    cases s.lookupVar name <;> rfl
  | .binary op lhs rhs, pending, b => by
    -- both sides put the operator in front of what waits, so they agree from the left operand on
    unfold lowerExpr
    rw [lowerOnto, lowerOnto, lowerOnto_eq_bind s lhs, lowerOnto_eq_bind s lhs [_]]
    cases lowerExpr s lhs b with
    | error e => rfl
    | ok vb =>
      simp only [bind, Except.bind, resume]
      cases lowerOnto s rhs [] vb.2 with
      | error e => rfl
      | ok wb =>
        simp only
        cases emitOperator op vb.1 wb.1 wb.2 <;> rfl
  | .call callee args, pending, b => by
    unfold lowerExpr
    rw [lowerOnto, lowerOnto]
    cases s.lookupCallee callee args.length with
    | error e => rfl
    | ok target =>
      simp only [bind, Except.bind]
      cases lowerArgs s args b <;> rfl

@[simp] theorem lowerExpr_number (s : Scope) (x : Double) (b : Builder) :
    lowerExpr s (.number x) b = .ok (.constant x, b) := rfl

theorem lowerExpr_var (s : Scope) (name : String) (b : Builder) :
    lowerExpr s (.var name) b = s.lookupVar name >>= fun v => .ok (v, b) := by
  unfold lowerExpr
  rw [lowerOnto]
  rfl

/-- The left operand comes before the right one, and the operator behind both. -/
theorem lowerExpr_binary (s : Scope) (op : Char) (lhs rhs : Expr) (b : Builder) :
    lowerExpr s (.binary op lhs rhs) b =
      lowerExpr s lhs b >>= fun (l, b) => lowerExpr s rhs b >>= fun (r, b) =>
        emitOperator op l r b := by
  conv => lhs; rw [lowerExpr, lowerOnto, lowerOnto_eq_bind]
  cases lowerExpr s lhs b with
  | error e => rfl
  | ok vb =>
    simp only [bind, Except.bind, resume, lowerExpr]
    cases lowerOnto s rhs [] vb.2 with
    | error e => rfl
    | ok wb =>
      simp only
      cases emitOperator op vb.1 wb.1 wb.2 <;> rfl

/-- The called routine is found before the arguments are visited. -/
theorem lowerExpr_call (s : Scope) (callee : String) (args : List Expr) (b : Builder) :
    lowerExpr s (.call callee args) b =
      s.lookupCallee callee args.length >>= fun target => lowerArgs s args b >>= fun (values, b) =>
        .ok (b.call target values "calltmp") := by
  unfold lowerExpr
  rw [lowerOnto]
  rfl

theorem lowerArgs_cons (s : Scope) (arg : Expr) (rest : List Expr) (b : Builder) :
    lowerArgs s (arg :: rest) b =
      lowerExpr s arg b >>= fun (v, b) => lowerArgs s rest b >>= fun (values, b) =>
        .ok (v :: values, b) := by
  unfold lowerExpr
  rw [lowerArgs]

/-! ## Successful making of code -/

mutual

/-- `Emits s e b v b'`: code for the expression `e` takes the builder `b` to `b'`, and its value
    there is `v`. -/
inductive Emits (s : Scope) : Expr → Builder → Value → Builder → Prop
  | number (x : Double) (b : Builder) : Emits s (.number x) b (.constant x) b
  | var {name : String} {i : Nat} (b : Builder) (hi : lastIndex? name s.params = some i) :
      Emits s (.var name) b (.param i) b
  | binary {op : Char} {lhs rhs : Expr} {l r v : Value} {b b₁ b₂ b₃ : Builder}
      (hl : Emits s lhs b l b₁) (hr : Emits s rhs b₁ r b₂)
      (hop : emitOperator op l r b₂ = .ok (v, b₃)) : Emits s (.binary op lhs rhs) b v b₃
  | call {callee : String} {args : List Expr} {target : RoutineId} {values : List Value}
      {b b₁ : Builder} (htarget : s.lookupCallee callee args.length = .ok target)
      (hargs : EmitsAll s args b values b₁) :
      Emits s (.call callee args) b (b₁.call target values "calltmp").1
        (b₁.call target values "calltmp").2

/-- Code for several expressions, from left to right. -/
inductive EmitsAll (s : Scope) : List Expr → Builder → List Value → Builder → Prop
  | nil (b : Builder) : EmitsAll s [] b [] b
  | cons {e : Expr} {rest : List Expr} {v : Value} {values : List Value} {b b₁ b₂ : Builder}
      (he : Emits s e b v b₁) (hrest : EmitsAll s rest b₁ values b₂) :
      EmitsAll s (e :: rest) b (v :: values) b₂

end

theorem lastIndex?_lt {name : String} {params : List String} {i : Nat}
    (h : lastIndex? name params = some i) : i < params.length := by
  induction params generalizing i with
  | nil => simp [lastIndex?] at h
  | cons param params ih =>
    rw [lastIndex?] at h
    split at h
    · next j hj =>
      have := ih hj
      obtain rfl := Option.some.inj h
      rw [List.length_cons]
      omega
    · split at h
      · obtain rfl := Option.some.inj h
        simp
      · simp at h

mutual

theorem emits_of_lowerExpr {s : Scope} : ∀ (e : Expr) {b b' : Builder} {v : Value},
    lowerExpr s e b = .ok (v, b') → Emits s e b v b'
  | .number x, b, b', v, h => by
    obtain ⟨rfl, rfl⟩ := Prod.mk.inj (Except.ok.inj h)
    exact .number x b
  | .var name, b, b', v, h => by
    rw [lowerExpr_var] at h
    obtain ⟨w, hw, h⟩ := Except.bind_eq_ok_iff.mp h
    obtain ⟨rfl, rfl⟩ := Prod.mk.inj (Except.ok.inj h)
    unfold Scope.lookupVar at hw
    split at hw
    · next i hi =>
      obtain rfl := Except.ok.inj hw
      exact .var b hi
    · simp at hw
  | .binary op lhs rhs, b, b', v, h => by
    rw [lowerExpr_binary] at h
    obtain ⟨⟨l, b₁⟩, hl, h⟩ := Except.bind_eq_ok_iff.mp h
    obtain ⟨⟨r, b₂⟩, hr, h⟩ := Except.bind_eq_ok_iff.mp h
    exact .binary (emits_of_lowerExpr lhs hl) (emits_of_lowerExpr rhs hr) h
  | .call callee args, b, b', v, h => by
    rw [lowerExpr_call] at h
    obtain ⟨target, htarget, h⟩ := Except.bind_eq_ok_iff.mp h
    obtain ⟨⟨values, b₁⟩, hargs, h⟩ := Except.bind_eq_ok_iff.mp h
    obtain ⟨rfl, rfl⟩ := Prod.mk.inj (Except.ok.inj h)
    exact .call htarget (emitsAll_of_lowerArgs args hargs)

theorem emitsAll_of_lowerArgs {s : Scope} : ∀ (es : List Expr) {b b' : Builder}
    {values : List Value}, lowerArgs s es b = .ok (values, b') → EmitsAll s es b values b'
  | [], b, b', values, h => by
    obtain ⟨rfl, rfl⟩ := Prod.mk.inj (Except.ok.inj h)
    exact .nil b
  | e :: rest, b, b', values, h => by
    rw [lowerArgs_cons] at h
    obtain ⟨⟨v, b₁⟩, he, h⟩ := Except.bind_eq_ok_iff.mp h
    obtain ⟨⟨more, b₂⟩, hrest, h⟩ := Except.bind_eq_ok_iff.mp h
    obtain ⟨rfl, rfl⟩ := Prod.mk.inj (Except.ok.inj h)
    exact .cons (emits_of_lowerExpr e he) (emitsAll_of_lowerArgs rest hrest)

end

mutual

theorem Emits.lowerExpr {s : Scope} {e : Expr} {b b' : Builder} {v : Value} :
    Emits s e b v b' → lowerExpr s e b = .ok (v, b')
  | .number x b => rfl
  | .var b hi => by
    rw [lowerExpr_var, Scope.lookupVar, hi]
    rfl
  | .binary hl hr hop => by
    rw [lowerExpr_binary, hl.lowerExpr]
    show Formulary.lowerExpr s _ _ >>= _ = _
    rw [hr.lowerExpr]
    exact hop
  | .call htarget hargs => by
    rw [lowerExpr_call, htarget]
    show lowerArgs s _ _ >>= _ = _
    rw [hargs.lowerArgs]
    rfl

theorem EmitsAll.lowerArgs {s : Scope} {es : List Expr} {b b' : Builder} {values : List Value} :
    EmitsAll s es b values b' → lowerArgs s es b = .ok (values, b')
  | .nil b => rfl
  | .cons he hrest => by
    rw [lowerArgs_cons, he.lowerExpr]
    show Formulary.lowerArgs s _ _ >>= _ = _
    rw [hrest.lowerArgs]
    rfl

end

/-- Code is made exactly where the relation holds. -/
theorem lowerExpr_eq_ok_iff {s : Scope} {e : Expr} {b b' : Builder} {v : Value} :
    lowerExpr s e b = .ok (v, b') ↔ Emits s e b v b' :=
  ⟨emits_of_lowerExpr e, Emits.lowerExpr⟩

/-! ## Faults -/

/-- The fault is not one of the check that code has to pass. -/
def LowerError.IsOfSource (e : LowerError) : Prop := ∀ name reason, e ≠ .verification name reason

theorem emitOperator_error {op : Char} {l r : Value} {b : Builder} {e : LowerError}
    (h : emitOperator op l r b = .error e) : e.IsOfSource := by
  unfold emitOperator at h
  split at h <;> simp only [reduceCtorEq, Except.error.injEq] at h
  subst h
  simp [LowerError.IsOfSource]

theorem Scope.lookupCallee_error {s : Scope} {name : String} {found : Nat} {e : LowerError}
    (h : s.lookupCallee name found = .error e) : e.IsOfSource := by
  unfold lookupCallee at h
  split at h
  · obtain rfl := Except.error.inj h
    simp [LowerError.IsOfSource]
  · simp only at h
    split at h
    · simp at h
    · obtain rfl := Except.error.inj h
      simp [LowerError.IsOfSource]

theorem Scope.lookupVar_error {s : Scope} {name : String} {e : LowerError}
    (h : s.lookupVar name = .error e) : e.IsOfSource := by
  unfold lookupVar at h
  split at h
  · simp at h
  · obtain rfl := Except.error.inj h
    simp [LowerError.IsOfSource]

mutual

theorem lowerExpr_error {s : Scope} : ∀ (e : Expr) {b : Builder} {fault : LowerError},
    lowerExpr s e b = .error fault → fault.IsOfSource
  | .number x, b, fault, h => by simp at h
  | .var name, b, fault, h => by
    rw [lowerExpr_var] at h
    rcases Except.bind_eq_error_iff.mp h with h | ⟨v, -, h⟩
    · exact Scope.lookupVar_error h
    · simp at h
  | .binary op lhs rhs, b, fault, h => by
    rw [lowerExpr_binary] at h
    rcases Except.bind_eq_error_iff.mp h with h | ⟨_, -, h⟩
    · exact lowerExpr_error lhs h
    · rcases Except.bind_eq_error_iff.mp h with h | ⟨_, -, h⟩
      · exact lowerExpr_error rhs h
      · exact emitOperator_error h
  | .call callee args, b, fault, h => by
    rw [lowerExpr_call] at h
    rcases Except.bind_eq_error_iff.mp h with h | ⟨_, -, h⟩
    · exact Scope.lookupCallee_error h
    · rcases Except.bind_eq_error_iff.mp h with h | ⟨_, -, h⟩
      · exact lowerArgs_error args h
      · simp at h

theorem lowerArgs_error {s : Scope} : ∀ (es : List Expr) {b : Builder} {fault : LowerError},
    lowerArgs s es b = .error fault → fault.IsOfSource
  | [], b, fault, h => by
    rw [lowerArgs] at h
    simp at h
  | e :: rest, b, fault, h => by
    rw [lowerArgs_cons] at h
    rcases Except.bind_eq_error_iff.mp h with h | ⟨_, -, h⟩
    · exact lowerExpr_error e h
    · rcases Except.bind_eq_error_iff.mp h with h | ⟨_, -, h⟩
      · exact lowerArgs_error rest h
      · simp at h

end

/-! ## Operators -/

/-- The operators that stand for one operation on numbers. -/
inductive Arithmetic : Char → BinaryOp → Prop
  | add : Arithmetic '+' .add
  | sub : Arithmetic '-' .sub
  | mul : Arithmetic '*' .mul

/-- An operator is one operation on numbers, or a comparison whose result becomes a number. -/
theorem emitOperator_eq_ok {op : Char} {l r v : Value} {b b' : Builder}
    (h : emitOperator op l r b = .ok (v, b')) :
    (∃ operation name, Arithmetic op operation ∧ b.binary operation l r name = (v, b')) ∨
      op = '<' ∧ ∃ flag b₁, b.binary .less l r "cmptmp" = (flag, b₁) ∧
        b₁.ofTruth flag "booltmp" = (v, b') := by
  unfold emitOperator at h
  split at h
  · exact .inl ⟨.add, "addtmp", .add, Except.ok.inj h⟩
  · exact .inl ⟨.sub, "subtmp", .sub, Except.ok.inj h⟩
  · exact .inl ⟨.mul, "multmp", .mul, Except.ok.inj h⟩
  · exact .inr ⟨rfl, _, _, rfl, Except.ok.inj h⟩
  · simp at h

/-- An operation on two numbers is computed at once, or emitted. -/
theorem Builder.binary_cases (b : Builder) (op : BinaryOp) (l r : Value) (name : String) :
    (∃ x y, l = .constant x ∧ r = .constant y ∧ b.binary op l r name = (op.fold x y, b)) ∨
      b.binary op l r name = b.push name (.binary op l r) := by
  unfold binary
  split
  · exact .inl ⟨_, _, rfl, rfl, rfl⟩
  · exact .inr rfl

/-- A truth value becomes a number at once, or by an instruction. -/
theorem Builder.ofTruth_cases (b : Builder) (v : Value) (name : String) :
    (∃ flag, v = .truth flag ∧ b.ofTruth v name = (.constant (.ofBool flag), b)) ∨
      b.ofTruth v name = b.push name (.ofTruth v) := by
  unfold ofTruth
  split
  · exact .inl ⟨_, rfl, rfl⟩
  · exact .inr rfl

end Formulary
