import Formulary.Proofs.Definitions
import Formulary.Proofs.Execution

/-!
# Code means what its source means

An expression can be evaluated without making code: the left operand before the right one,
arguments from left to right, calls answered from outside. The code that is made for a definition
yields the same number and makes the same calls in the same order.

* `Expr.evaluate`: the number of an expression and the calls made on the way.
* `Emits.meaning`: the code of an expression computes its number.
* `lowerFormula_meaning`: the body of a definition means what the definition means.
-/

namespace Formulary

/-! ## Evaluation of expressions -/

/-- What names stand for while an expression is evaluated. -/
structure Environment where
  routine? : String → Option RoutineId
  number? : String → Option Double

/-- The number that an operator makes of two numbers. Comparison yields one when the left number
    is less or the two cannot be compared, and zero otherwise. -/
def operate? (op : Char) (x y : Double) : Option Double :=
  match op with
  | '+' => some (x.add y)
  | '-' => some (x.sub y)
  | '*' => some (x.mul y)
  | '<' => some (if x.lessOrUnordered y then .one else .zero)
  | _ => none

mutual

/-- Evaluates an expression behind calls that have been made: its number, and all calls then
    made. -/
def Expr.evaluate (answers : Answers) (env : Environment) :
    Expr → List Call → Option (Double × List Call)
  | .number x, calls => some (x, calls)
  | .var name, calls => (env.number? name).map (·, calls)
  | .binary op lhs rhs, calls => do
    let (x, calls) ← lhs.evaluate answers env calls
    let (y, calls) ← rhs.evaluate answers env calls
    let z ← operate? op x y
    some (z, calls)
  | .call callee args, calls => do
    let id ← env.routine? callee
    let (xs, calls) ← evaluateAll answers env args calls
    some (answers calls ⟨id, xs⟩, calls ++ [⟨id, xs⟩])

/-- Evaluates expressions from left to right. -/
def evaluateAll (answers : Answers) (env : Environment) :
    List Expr → List Call → Option (List Double × List Call)
  | [], calls => some ([], calls)
  | e :: rest, calls => do
    let (x, calls) ← e.evaluate answers env calls
    let (xs, calls) ← evaluateAll answers env rest calls
    some (x :: xs, calls)

end

/-- The argument of the last parameter with a name. -/
def lastArgument? (params : List String) (args : List Double) (name : String) : Option Double :=
  ((params.zip args).reverse.find? fun pair => pair.1 = name).map (·.2)

/-- Names in the body of a routine: the routines of a module, and the arguments. -/
def Environment.ofArguments (m : CodeModule) (params : List String) (args : List Double) :
    Environment :=
  ⟨m.find?, lastArgument? params args⟩

/-! ## Variables -/

theorem lastArgument?_cons (param : String) (params : List String) (arg : Double)
    (args : List Double) (name : String) :
    lastArgument? (param :: params) (arg :: args) name =
      (lastArgument? params args name).or (if param = name then some arg else none) := by
  unfold lastArgument?
  rw [List.zip_cons_cons, List.reverse_cons, List.find?_append, Option.map_or]
  congr 1
  by_cases h : param = name
  · simp [h]
  · simp [h]

theorem lastArgument?_eq {params : List String} {args : List Double}
    (hlen : args.length = params.length) (name : String) :
    lastArgument? params args name = (lastIndex? name params).bind (args[·]?) := by
  induction params generalizing args with
  | nil =>
    obtain rfl := List.length_eq_zero_iff.mp hlen
    rfl
  | cons param params ih =>
    cases args with
    | nil => simp at hlen
    | cons arg args =>
      rw [lastArgument?_cons, ih (by simpa using hlen), lastIndex?]
      cases hi : lastIndex? name params with
      | none =>
        by_cases h : param = name
        · simp [h]
        · simp [h]
      | some i =>
        have hlt : i < args.length := by
          have := lastIndex?_lt hi
          rw [List.length_cons, List.length_cons] at hlen
          omega
        simp [List.getElem?_eq_getElem hlt]

/-! ## Code computes what its source says -/

section Meaning

variable {answers : Answers} {env : Environment} {s : Scope} {args : List Double}

/-- The names of the environment stand for what the code refers to by them. -/
structure Environment.Matches (env : Environment) (s : Scope) (args : List Double) : Prop where
  routine? : ∀ name, env.routine? name = s.code.find? name
  number? : ∀ name i, lastIndex? name s.params = some i →
    ∃ x, args[i]? = some x ∧ env.number? name = some x

theorem Arithmetic.operate? {op : Char} {operation : BinaryOp} (h : Arithmetic op operation)
    (x y : Double) : ∃ z, operate? op x y = some z ∧ operation.compute x y = .number z := by
  cases h
  · exact ⟨x.add y, rfl, rfl⟩
  · exact ⟨x.sub y, rfl, rfl⟩
  · exact ⟨x.mul y, rfl, rfl⟩

/-- The code of an operator computes its number and makes no calls. -/
theorem emitOperator_meaning {op : Char} {l r v : Value} {b b' : Builder} {t : Trace}
    {x y : Double} (h : emitOperator op l r b = .ok (v, b')) (ht : Reaches answers args b t)
    (hl : l.number? args t.results = some x) (hr : r.number? args t.results = some y) :
    ∃ z, operate? op x y = some z ∧ Continues answers args b' t t.calls v (.number z) := by
  rcases emitOperator_eq_ok h with ⟨operation, name, harith, hbinary⟩ |
    ⟨rfl, flag, b₁, hbinary, htruth⟩
  · obtain ⟨z, hz, hcompute⟩ := harith.operate? x y
    have hcont := ht.binary hl hr operation name
    rw [hbinary, hcompute] at hcont
    exact ⟨z, hz, hcont⟩
  · -- the comparison yields a truth value, which the second step turns into a number
    have hcont := ht.binary hl hr .less "cmptmp"
    rw [hbinary] at hcont
    obtain ⟨t₁, ht₁, hp₁, hcalls₁, hflag⟩ := hcont
    have hnumber := ht₁.ofTruth hflag "booltmp"
    rw [htruth] at hnumber
    obtain ⟨t₂, ht₂, hp₂, hcalls₂, hv⟩ := hnumber
    exact ⟨_, rfl, t₂, ht₂, hp₁.trans hp₂, hcalls₂.trans hcalls₁, hv⟩

-- The induction is on the code that was made. The invariant is the trace that the builder reaches:
-- it only grows, so the value of a left operand is still there when the operator is computed.
mutual

/-- The code of an expression computes its number and makes its calls. -/
theorem Emits.meaning (henv : env.Matches s args) {e : Expr} {b b' : Builder} {v : Value} :
    Emits s e b v b' → ∀ t, Reaches answers args b t →
      ∃ x calls, e.evaluate answers env t.calls = some (x, calls) ∧
        Continues answers args b' t calls v (.number x)
  | .number x b => fun t ht => ⟨x, t.calls, rfl, t, ht, List.prefix_rfl, rfl, rfl⟩
  | .var (i := i) b hi => by
    intro t ht
    obtain ⟨x, harg, hx⟩ := henv.number? _ i hi
    refine ⟨x, t.calls, ?_, t, ht, List.prefix_rfl, rfl, ?_⟩
    · rw [Expr.evaluate, hx]
      rfl
    · rw [Value.datum?, harg]
      rfl
  | .binary hl hr hop => by
    intro t ht
    obtain ⟨x, calls₁, hx, t₁, ht₁, hp₁, rfl, hlx⟩ := hl.meaning henv t ht
    obtain ⟨y, calls₂, hy, t₂, ht₂, hp₂, rfl, hry⟩ := hr.meaning henv t₁ ht₁
    have hlx := Value.number?_eq_some_iff.mpr (Value.datum?_of_prefix hlx hp₂)
    obtain ⟨z, hz, t₃, ht₃, hp₃, hcalls, hv⟩ :=
      emitOperator_meaning hop ht₂ hlx (Value.number?_eq_some_iff.mpr hry)
    refine ⟨z, t₂.calls, ?_, t₃, ht₃, (hp₁.trans hp₂).trans hp₃, hcalls, hv⟩
    simp [Expr.evaluate, hx, hy, hz]
  | @Emits.call _ callee _ target _ _ _ htarget hargs => by
    intro t ht
    obtain ⟨xs, calls, hxs, t₁, ht₁, hp₁, rfl, hvalues⟩ := hargs.meaning henv t ht
    obtain ⟨t₂, ht₂, hp₂, hcalls, hv⟩ := ht₁.call hvalues target "calltmp"
    have hfind : env.routine? callee = some target := by
      rw [henv.routine?, (Scope.lookupCallee_eq_ok_iff.mp htarget).1]
    refine ⟨_, _, ?_, t₂, ht₂, hp₁.trans hp₂, hcalls, hv⟩
    simp [Expr.evaluate, hfind, hxs]

theorem EmitsAll.meaning (henv : env.Matches s args) {es : List Expr} {b b' : Builder}
    {values : List Value} :
    EmitsAll s es b values b' → ∀ t, Reaches answers args b t →
      ∃ xs calls, evaluateAll answers env es t.calls = some (xs, calls) ∧
        ∃ t', Reaches answers args b' t' ∧ t.results <+: t'.results ∧ t'.calls = calls ∧
          Value.numbers? args t'.results values = some xs
  | .nil b => fun t ht => ⟨[], t.calls, rfl, t, ht, List.prefix_rfl, rfl, rfl⟩
  | .cons he hrest => by
    intro t ht
    obtain ⟨x, calls₁, hx, t₁, ht₁, hp₁, rfl, hv⟩ := he.meaning henv t ht
    obtain ⟨xs, calls₂, hxs, t₂, ht₂, hp₂, rfl, hvalues⟩ := hrest.meaning henv t₁ ht₁
    have hv := Value.number?_eq_some_iff.mpr (Value.datum?_of_prefix hv hp₂)
    refine ⟨x :: xs, t₂.calls, ?_, t₂, ht₂, hp₁.trans hp₂, rfl, ?_⟩
    · simp [evaluateAll, hx, hxs]
    · simp [Value.numbers?, hv, hvalues]

end

end Meaning

/-- Names in a body stand for the arguments and for the routines of the module it is installed
    in. -/
theorem Environment.matches_ofArguments {m declared : CodeModule} {params : List String}
    {args : List Double} (hlen : args.length = params.length)
    (hfind : ∀ name, m.find? name = declared.find? name) :
    (Environment.ofArguments m params args).Matches ⟨declared, params⟩ args := by
  refine ⟨hfind, ?_⟩
  intro name i hi
  have hlt : i < args.length := by
    have := lastIndex?_lt hi
    simp only at this
    omega
  refine ⟨args[i], List.getElem?_eq_getElem hlt, ?_⟩
  show lastArgument? params args name = _
  rw [lastArgument?_eq hlen, hi]
  exact List.getElem?_eq_getElem hlt

/-- The body that a definition installs yields, for all arguments and all answers of the called
    routines, the number that its source evaluates to, and makes the same calls in the same
    order. -/
theorem lowerFormula_meaning {m m' : CodeModule} {f : Formula} {id : RoutineId}
    (h : lowerFormula m f = (.ok id, m')) (answers : Answers) (args : List Double)
    (hlen : args.length = f.proto.params.length) :
    ∃ r body x calls, m'.get? id = some r ∧ r.body = some body ∧
      body.execute answers args = some (x, calls) ∧
      f.body.evaluate answers (.ofArguments m' f.proto.params args) [] = some (x, calls) := by
  obtain ⟨declared, ret, b, hp, hexpr, rfl, -⟩ := lowerFormula_eq_ok_iff.mp h
  obtain ⟨r, hget, -⟩ := hp.get?
  have henv := Environment.matches_ofArguments hlen (CodeModule.find?_define hget (b.finish ret))
  have hstart : Reaches answers args (.start f.proto.params) ⟨[], []⟩ := .start _
  obtain ⟨x, calls, hx, t, ht, -, rfl, hret⟩ :=
    (lowerExpr_eq_ok_iff.mp hexpr).meaning henv _ hstart
  refine ⟨_, _, x, t.calls, (CodeModule.get?_define hget _ id).trans (if_pos rfl), rfl, ?_, hx⟩
  simp only [Body.execute, Builder.finish, Option.bind_eq_bind]
  rw [show executeAll answers args b.instructions.toList ⟨[], []⟩ = some t from ht]
  simp [Value.number?_eq_some_iff.mpr hret]

/-- The definition `def f(x x) x < f(x, 1)`. -/
def selfCall : Formula :=
  ⟨⟨"f", ["x", "x"]⟩, .binary '<' (.var "x") (.call "f" [.var "x", .number .one])⟩

/-- With the arguments 1 and 0, and calls that yield 1, the body of `selfCall` calls `f(0, 1)` and
    yields 1. -/
theorem lowerFormula_selfCall :
    ∃ m' r body, lowerFormula (.empty "m") selfCall = (.ok ⟨0⟩, m') ∧ m'.get? ⟨0⟩ = some r ∧
      r.body = some body ∧
      body.execute (fun _ _ => .one) [.one, .zero] = some (.one, [⟨⟨0⟩, [.zero, .one]⟩]) := by
  have hok : (lowerFormula (.empty "m") selfCall).1 = .ok ⟨0⟩ := by decide +kernel
  have hfind : (lowerFormula (.empty "m") selfCall).2.find? "f" = some ⟨0⟩ := by decide +kernel
  have heval : ∀ m' : CodeModule, m'.find? "f" = some ⟨0⟩ →
      selfCall.body.evaluate (fun _ _ => .one)
        (.ofArguments m' ["x", "x"] [.one, .zero]) [] = some (.one, [⟨⟨0⟩, [.zero, .one]⟩]) := by
    intro m' hm'
    have hless : Double.lessOrUnordered .zero .one = true := by decide
    simp [selfCall, Expr.evaluate, evaluateAll, Environment.ofArguments, lastArgument?, operate?,
      hm', hless]
  have h : lowerFormula (.empty "m") selfCall = (.ok ⟨0⟩, (lowerFormula (.empty "m") selfCall).2) :=
    Prod.ext hok rfl
  obtain ⟨r, body, x, calls, hget, hbody, hexecute, hevaluate⟩ :=
    lowerFormula_meaning h (fun _ _ => .one) [.one, .zero] rfl
  exact ⟨_, r, body, h, hget, hbody, hexecute.trans (hevaluate.symm.trans (heval _ hfind))⟩

end Formulary
