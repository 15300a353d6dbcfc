import Formulary.Proofs.Growth

/-!
# Which definitions are refused, and for what

A definition is refused for its name, for the number of its parameters, or for a part of its body:
a variable that is no parameter, an operator without a meaning, a call of a function that is not
there or takes another number of arguments. The parts of a body are looked at in one order, an
operation behind its operands and a call before its arguments, and the first one at fault is
reported.

* `Expr.visits`: the parts of an expression in that order.
* `Formula.WellFormed`: the definitions that are accepted.
* `Formula.FirstFault`: the fault that is reported of all others.
* `lowerExpr_outcome`: making code for an expression goes well as far as its parts do.
* `Scope.accept_eq_ok_iff`, `Scope.accept_eq_error_iff`: what makes a part go well.
* `lowerFormula_reports_first_fault`: exactly the well-formed definitions are accepted, and of the
  others the first fault is reported.
-/

namespace Formulary

open CodeModule

/-! ## The parts of an expression -/

namespace Expr

mutual

/-- The parts of an expression, itself included, in the order in which they are looked at: the left
    operand, the right one, then the operation; a call, then its arguments from left to right. -/
def visits : Expr → List Expr
  | number x => [number x]
  | var name => [var name]
  | binary op lhs rhs => lhs.visits ++ (rhs.visits ++ [binary op lhs rhs])
  | call callee args => call callee args :: visitsAll args

/-- The parts of several expressions, from left to right. -/
def visitsAll : List Expr → List Expr
  | [] => []
  | e :: rest => e.visits ++ visitsAll rest

end

end Expr

/-- The operators that have a meaning. -/
def operators : List Char := ['+', '-', '*', '<']

/-- A function with the name and the number of parameters can be called in the body of a definition
    with the prototype `p`: it is live and has a name, or it is the one being defined. -/
def Callable (m : CodeModule) (p : Prototype) (callee : String) (arity : Nat) : Prop :=
  callee ≠ "" ∧
    ((∃ id r, (id, r) ∈ m.live ∧ r.name = callee ∧ r.arity = arity) ∨
      p.name = callee ∧ p.params.length = arity)

/-- No live routine of the prototype's name, if it has one, has a body. -/
def Undefined (m : CodeModule) (p : Prototype) : Prop :=
  ∀ id r, (id, r) ∈ m.live → r.name = p.name → p.name ≠ "" → r.body = none

/-- The live routines of the prototype's name, if it has one, have as many parameters. -/
def Matching (m : CodeModule) (p : Prototype) : Prop :=
  ∀ id r, (id, r) ∈ m.live → r.name = p.name → p.name ≠ "" → r.arity = p.params.length

/-- What is required of a part of a body by itself. -/
def PartFits (m : CodeModule) (p : Prototype) : Expr → Prop
  | .number _ => True
  | .var name => name ∈ p.params
  | .binary op _ _ => op ∈ operators
  | .call callee args => Callable m p callee args.length

/-- `PartFault m p x e`: the part `x` of a body is at fault by itself, and `e` tells how. -/
inductive PartFault (m : CodeModule) (p : Prototype) : Expr → LowerError → Prop
  | unknownVariable {name : String} (hname : name ∉ p.params) :
      PartFault m p (.var name) (.unknownVariable name)
  | invalidOperator {op : Char} {lhs rhs : Expr} (hop : op ∉ operators) :
      PartFault m p (.binary op lhs rhs) (.invalidOperator op)
  | unknownFunction {callee : String} {args : List Expr} (hcallee : ∀ n, ¬ Callable m p callee n) :
      PartFault m p (.call callee args) (.unknownFunction callee)
  | arityMismatch {callee : String} {args : List Expr} {n : Nat} (hcallee : Callable m p callee n)
      (hn : n ≠ args.length) :
      PartFault m p (.call callee args) (.arityMismatch callee n args.length)

namespace Formula

/-- The definition is accepted: its function has no body yet, a declaration of it has as many
    parameters, and in its body every variable is a parameter, every call is one of a live function
    or of the function itself with as many arguments as it takes, and every operator has a
    meaning. -/
structure WellFormed (m : CodeModule) (f : Formula) : Prop where
  undefined : Undefined m f.proto
  matching : Matching m f.proto
  vars : ∀ name, .var name ∈ f.body.visits → name ∈ f.proto.params
  calls : ∀ callee args, .call callee args ∈ f.body.visits →
    Callable m f.proto callee args.length
  ops : ∀ op lhs rhs, .binary op lhs rhs ∈ f.body.visits → op ∈ operators

/-- `f.FirstFault m e`: of the faults of the definition, `e` is the first. -/
inductive FirstFault (m : CodeModule) (f : Formula) : LowerError → Prop
  | redefinition {id : RoutineId} {r : Routine} (hlive : (id, r) ∈ m.live)
      (hname : r.name = f.proto.name) (hne : f.proto.name ≠ "") (hbody : r.body ≠ none) :
      FirstFault m f (.redefinition f.proto.name)
  | signatureMismatch {id : RoutineId} {r : Routine} (hundefined : Undefined m f.proto)
      (hlive : (id, r) ∈ m.live) (hname : r.name = f.proto.name) (hne : f.proto.name ≠ "")
      (harity : r.arity ≠ f.proto.params.length) :
      FirstFault m f (.signatureMismatch f.proto.name r.arity f.proto.params.length)
  | body {before after : List Expr} {x : Expr} {e : LowerError}
      (hundefined : Undefined m f.proto) (hmatching : Matching m f.proto)
      (hvisits : f.body.visits = before ++ x :: after)
      (hbefore : ∀ y ∈ before, PartFits m f.proto y) (hx : PartFault m f.proto x e) :
      FirstFault m f e

end Formula

/-! ## Making code goes well as far as the parts do -/

/-- Looks at a part of an expression by itself. -/
def Scope.accept (s : Scope) : Expr → Except LowerError Unit
  | .number _ => .ok ()
  | .var name => (s.lookupVar name).map fun _ => ()
  | .binary op _ _ => if op ∈ operators then .ok () else .error (.invalidOperator op)
  | .call callee args => (s.lookupCallee callee args.length).map fun _ => ()

theorem emitOperator_outcome (op : Char) (l r : Value) (b : Builder) :
    (emitOperator op l r b).map (fun _ => ()) =
      if op ∈ operators then .ok () else .error (.invalidOperator op) := by
  unfold emitOperator
  split
  · rfl
  · rfl
  · rfl
  · rfl
  · next hadd hsub hmul hless =>
    have hop : op ∉ operators := by
      simp only [operators, List.mem_cons, List.not_mem_nil, or_false, not_or]
      exact ⟨hadd, hsub, hmul, hless⟩
    rw [if_neg hop]
    rfl

mutual

/-- Making code for an expression goes well as far as looking at its parts in order does. -/
theorem lowerExpr_outcome (s : Scope) : ∀ (e : Expr) (b : Builder),
    (lowerExpr s e b).map (fun _ => ()) = forM e.visits s.accept
  | .number x, b => rfl
  | .var name, b => by
    rw [lowerExpr_var, Expr.visits]
    show _ = s.accept (.var name) >>= fun _ => .ok ()
    rw [Scope.accept]
    cases s.lookupVar name <;> rfl
  | .binary op lhs rhs, b => by
    rw [lowerExpr_binary, Expr.visits, List.forM_append, List.forM_append,
      ← lowerExpr_outcome s lhs b]
    cases lowerExpr s lhs b with
    | error e => rfl
    | ok l =>
      show (lowerExpr s rhs l.2 >>= _).map _ = forM rhs.visits s.accept >>= _
      rw [← lowerExpr_outcome s rhs l.2]
      cases lowerExpr s rhs l.2 with
      | error e => rfl
      | ok r =>
        show (emitOperator op l.1 r.1 r.2).map _ = s.accept (.binary op lhs rhs) >>= fun _ => .ok ()
        rw [emitOperator_outcome, Scope.accept]
        split <;> rfl
  | .call callee args, b => by
    rw [lowerExpr_call, Expr.visits]
    show _ = s.accept (.call callee args) >>= fun _ => forM (Expr.visitsAll args) s.accept
    rw [Scope.accept]
    cases s.lookupCallee callee args.length with
    | error e => rfl
    | ok target =>
      show (lowerArgs s args b >>= _).map _ = forM (Expr.visitsAll args) s.accept
      rw [← lowerArgs_outcome s args b]
      cases lowerArgs s args b <;> rfl

theorem lowerArgs_outcome (s : Scope) : ∀ (es : List Expr) (b : Builder),
    (lowerArgs s es b).map (fun _ => ()) = forM (Expr.visitsAll es) s.accept
  | [], b => rfl
  | e :: rest, b => by
    rw [lowerArgs_cons, Expr.visitsAll, List.forM_append, ← lowerExpr_outcome s e b]
    cases lowerExpr s e b with
    | error e => rfl
    | ok v =>
      show (lowerArgs s rest v.2 >>= _).map _ = forM (Expr.visitsAll rest) s.accept
      rw [← lowerArgs_outcome s rest v.2]
      cases lowerArgs s rest v.2 <;> rfl

end

theorem forM_eq_ok_iff {ε α : Type} {f : α → Except ε Unit} {l : List α} :
    forM l f = .ok () ↔ ∀ x ∈ l, f x = .ok () := by
  induction l with
  | nil => simp [pure, Except.pure]
  | cons x l ih =>
    rw [List.forM_cons, Except.bind_eq_ok_iff, List.forall_mem_cons, ih]
    exact ⟨fun ⟨_, hx, hl⟩ => ⟨hx, hl⟩, fun h => ⟨(), h⟩⟩

/-- Looking at parts in order fails at the first one that does not go well. -/
theorem forM_eq_error_iff {ε α : Type} {f : α → Except ε Unit} {l : List α} {e : ε} :
    forM l f = .error e ↔ ∃ before x after, l = before ++ x :: after ∧
      (∀ y ∈ before, f y = .ok ()) ∧ f x = .error e := by
  constructor
  · intro h
    induction l with
    | nil => simp [pure, Except.pure] at h
    | cons x l ih =>
      rw [List.forM_cons] at h
      rcases Except.bind_eq_error_iff.mp h with hx | ⟨_, hx, hl⟩
      · exact ⟨[], x, l, rfl, by simp, hx⟩
      · obtain ⟨before, y, after, rfl, hbefore, hy⟩ := ih hl
        exact ⟨x :: before, y, after, rfl, List.forall_mem_cons.mpr ⟨hx, hbefore⟩, hy⟩
  · rintro ⟨before, x, after, rfl, hbefore, hx⟩
    rw [List.forM_append, List.forM_cons, forM_eq_ok_iff.mpr hbefore, hx]
    rfl

/-! ## What makes a part go well -/

theorem lastIndex?_eq_none_iff {name : String} {params : List String} :
    lastIndex? name params = none ↔ name ∉ params := by
  induction params with
  | nil => simp [lastIndex?]
  | cons param params ih =>
    rw [lastIndex?, List.mem_cons, not_or, ← ih]
    cases lastIndex? name params with
    | some i => simp
    | none => simp [eq_comm]

theorem Scope.lookupVar_outcome (s : Scope) (name : String) :
    (s.lookupVar name).map (fun _ => ()) =
      if name ∈ s.params then .ok () else .error (.unknownVariable name) := by
  unfold lookupVar
  split_ifs with hname
  · have hsome : lastIndex? name s.params ≠ none :=
      fun hnone => lastIndex?_eq_none_iff.mp hnone hname
    obtain ⟨i, hi⟩ := Option.ne_none_iff_exists'.mp hsome
    rw [hi]
    rfl
  · rw [lastIndex?_eq_none_iff.mpr hname]
    rfl

/-- A call is refused if no function of its name is found, or if the one that is found takes another
    number of arguments. -/
theorem Scope.lookupCallee_eq_error_iff {s : Scope} {name : String} {found : Nat} {e : LowerError} :
    s.lookupCallee name found = .error e ↔
      s.code.find? name = none ∧ e = .unknownFunction name ∨
        ∃ id n, s.code.find? name = some id ∧ s.code.arity? id = some n ∧ n ≠ found ∧
          e = .arityMismatch name n found := by
  unfold lookupCallee arity?
  cases hfind : s.code.find? name with
  | none => simp [eq_comm]
  | some id =>
    obtain ⟨r, hget, -⟩ := get?_of_find? hfind
    simp only [hget, Option.map_some, Option.getD_some]
    split_ifs with harity
    · simp [hget, harity]
    · constructor
      · intro h
        obtain rfl := Except.error.inj h
        exact .inr ⟨id, r.arity, rfl, by rw [hget, Option.map_some], harity, rfl⟩
      · rintro (⟨hnone, -⟩ | ⟨other, n, hother, hn, -, rfl⟩)
        · simp at hnone
        · obtain rfl := Option.some.inj hother
          rw [hget, Option.map_some, Option.some.injEq] at hn
          rw [hn]

section Parts

variable {m declared : CodeModule} {p : Prototype} {id : RoutineId}

/-- In the body of a prepared routine a function can be called exactly if it is found by its name
    and takes that number of arguments. -/
theorem callable_iff (hm : m.Sound) (hp : Prepared m p id declared) {callee : String} {n : Nat} :
    Callable m p callee n ↔ ∃ target, declared.find? callee = some target ∧
      declared.arity? target = some n := by
  have hdeclared := hm.prepared hp
  obtain ⟨own, hown, hownName, -, hownArity⟩ := hp.get?
  constructor
  · rintro ⟨hne, ⟨target, r, hlive, rfl, rfl⟩ | ⟨rfl, rfl⟩⟩
    · have hget := hp.get?_of_some (mem_live_iff _ _ _ |>.mp hlive)
      exact ⟨target, hdeclared.find?_eq hget hne, by rw [arity?, hget, Option.map_some]⟩
    · rw [← hownName] at hne ⊢
      exact ⟨id, hdeclared.find?_eq hown hne, by rw [arity?, hown, Option.map_some, hownArity]⟩
  · rintro ⟨target, hfind, harity⟩
    obtain ⟨hne, ⟨r, hget, rfl⟩, -⟩ := find?_eq_some_iff.mp hfind
    rw [arity?, hget, Option.map_some, Option.some.injEq] at harity
    refine ⟨hne, ?_⟩
    by_cases htarget : target = id
    · rw [htarget, hown, Option.some.injEq] at hget
      subst hget
      exact .inr ⟨hownName.symm, hownArity.symm.trans harity⟩
    · rw [hp.get?_of_ne htarget] at hget
      exact .inl ⟨target, r, (mem_live_iff _ _ _).mpr hget, rfl, harity⟩

/-- A part goes well in the body of a prepared routine if it is as it should be. -/
theorem Scope.accept_eq_ok_iff (hm : m.Sound) (hp : Prepared m p id declared) (x : Expr) :
    Scope.accept ⟨declared, p.params⟩ x = .ok () ↔ PartFits m p x := by
  cases x with
  | number x => simp [Scope.accept, PartFits]
  | var name =>
    rw [Scope.accept, Scope.lookupVar_outcome, PartFits]
    split_ifs with hname <;> simp [hname]
  | binary op lhs rhs =>
    rw [Scope.accept, PartFits]
    split_ifs with hop <;> simp [hop]
  | call callee args =>
    rw [Scope.accept, PartFits, callable_iff hm hp, Except.map_eq_ok_iff]
    simp only [Scope.lookupCallee_eq_ok_iff, and_true]

/-- A part is refused in the body of a prepared routine for what is wrong with it. -/
theorem Scope.accept_eq_error_iff (hm : m.Sound) (hp : Prepared m p id declared) (x : Expr)
    (e : LowerError) :
    Scope.accept ⟨declared, p.params⟩ x = .error e ↔ PartFault m p x e := by
  cases x with
  | number x =>
    rw [Scope.accept]
    exact ⟨by simp, nofun⟩
  | var name =>
    rw [Scope.accept, Scope.lookupVar_outcome]
    split_ifs with hname
    · exact ⟨by simp, by rintro ⟨hnot⟩; exact absurd hname hnot⟩
    · exact ⟨by rintro ⟨⟩; exact .unknownVariable hname, by rintro ⟨⟩; rfl⟩
  | binary op lhs rhs =>
    rw [Scope.accept]
    split_ifs with hop
    · exact ⟨by simp, by rintro (_ | ⟨hnot⟩); exact absurd hop hnot⟩
    · exact ⟨by rintro ⟨⟩; exact .invalidOperator hop, by rintro ⟨⟩; rfl⟩
  | call callee args =>
    rw [Scope.accept, Except.map_eq_error_iff, Scope.lookupCallee_eq_error_iff]
    constructor
    · rintro (⟨hnone, rfl⟩ | ⟨target, n, hfind, hn, hne, rfl⟩)
      · refine .unknownFunction fun n hcallable => ?_
        obtain ⟨target, hfind, -⟩ := (callable_iff hm hp).mp hcallable
        rw [show declared.find? callee = none from hnone] at hfind
        simp at hfind
      · exact .arityMismatch ((callable_iff hm hp).mpr ⟨target, hfind, hn⟩) hne
    · intro h
      cases h with
      | unknownFunction hcallee =>
        refine .inl ⟨?_, rfl⟩
        cases hfind : declared.find? callee with
        | none => rfl
        | some target =>
          obtain ⟨r, hget, -⟩ := get?_of_find? hfind
          refine absurd ((callable_iff hm hp).mpr ⟨target, hfind, ?_⟩) (hcallee r.arity)
          rw [arity?, hget, Option.map_some]
      | arityMismatch hcallee hn =>
        obtain ⟨target, hfind, harity⟩ := (callable_iff hm hp).mp hcallee
        exact .inr ⟨target, _, hfind, harity, hn, rfl⟩

end Parts

/-! ## Definitions -/

section Definitions

variable {m declared : CodeModule} {f : Formula} {id : RoutineId}

theorem find?_of_live (hm : m.Sound) {p : Prototype} {r : Routine} (hlive : (id, r) ∈ m.live)
    (hname : r.name = p.name) (hne : p.name ≠ "") :
    m.find? p.name = some id ∧ m.get? id = some r := by
  have hget := (mem_live_iff _ _ _).mp hlive
  rw [← hname] at hne ⊢
  exact ⟨hm.find?_eq hget hne, hget⟩

/-- A routine can be prepared exactly if the name of the prototype has no body and no other number
    of parameters. -/
theorem exists_prepared_iff (hm : m.Sound) {p : Prototype} :
    (∃ id declared, Prepared m p id declared) ↔ Undefined m p ∧ Matching m p := by
  constructor
  · rintro ⟨id, declared, hp⟩
    suffices h : ∀ other r, (other, r) ∈ m.live → r.name = p.name → p.name ≠ "" →
        r.body = none ∧ r.arity = p.params.length from
      ⟨fun other r hlive hname hne => (h other r hlive hname hne).1,
        fun other r hlive hname hne => (h other r hlive hname hne).2⟩
    intro other r hlive hname hne
    obtain ⟨hfind, hget⟩ := find?_of_live hm hlive hname hne
    cases hp with
    | fresh hnone => simp [hnone] at hfind
    | declared hfind' hget' hbody harity =>
      obtain rfl := Option.some.inj (hfind'.symm.trans hfind)
      obtain rfl := Option.some.inj (hget'.symm.trans hget)
      exact ⟨hbody, harity⟩
  · rintro ⟨hundefined, hmatching⟩
    cases hfind : m.find? p.name with
    | none => exact ⟨_, _, .fresh hfind⟩
    | some id =>
      obtain ⟨hne, ⟨r, hget, hname⟩, -⟩ := find?_eq_some_iff.mp hfind
      have hlive := (mem_live_iff _ _ _).mpr hget
      exact ⟨id, m, .declared hfind hget (hundefined id r hlive hname hne)
        (hmatching id r hlive hname hne)⟩

/-- A definition whose routine is prepared goes as far as the parts of its body do. -/
theorem lowerFormula_outcome (hp : Prepared m f.proto id declared) :
    (lowerFormula m f).1.map (fun _ => ()) =
      forM f.body.visits (Scope.accept ⟨declared, f.proto.params⟩) := by
  rw [← lowerExpr_outcome _ _ (.start f.proto.params), lowerFormula_of_prepared hp]
  cases hexpr : lowerExpr ⟨declared, f.proto.params⟩ f.body (.start f.proto.params) with
  | error e => rfl
  | ok result =>
    obtain ⟨ret, b⟩ := result
    simp only [hp.verify_define hexpr]
    rfl

theorem lowerFormula_of_body (hm : m.Sound) {r : Routine} (hlive : (id, r) ∈ m.live)
    (hname : r.name = f.proto.name) (hne : f.proto.name ≠ "") (hbody : r.body ≠ none) :
    (lowerFormula m f).1 = .error (.redefinition f.proto.name) := by
  obtain ⟨hfind, hget⟩ := find?_of_live hm hlive hname hne
  obtain ⟨body, hsome⟩ := Option.ne_none_iff_exists'.mp hbody
  have hdefined : isDefined m f.proto.name = true := by
    simp [isDefined, hfind, hget, Routine.isDeclaration, hsome]
  simp [lowerFormula, hdefined]

theorem lowerFormula_of_arity (hm : m.Sound) {r : Routine} (hlive : (id, r) ∈ m.live)
    (hname : r.name = f.proto.name) (hne : f.proto.name ≠ "") (hbody : r.body = none)
    (harity : r.arity ≠ f.proto.params.length) :
    (lowerFormula m f).1 =
      .error (.signatureMismatch f.proto.name r.arity f.proto.params.length) := by
  obtain ⟨hfind, hget⟩ := find?_of_live hm hlive hname hne
  have hdefined : isDefined m f.proto.name = false := by
    simp [isDefined, hfind, hget, Routine.isDeclaration, hbody]
  simp [lowerFormula, hdefined, lowerPrototype_of_some hfind hget, harity]

/-- A definition is well-formed if a routine can be prepared for it and all parts of its body are as
    they should be. -/
theorem Formula.wellFormed_iff : f.WellFormed m ↔
    (Undefined m f.proto ∧ Matching m f.proto) ∧ ∀ x ∈ f.body.visits, PartFits m f.proto x := by
  constructor
  · intro h
    refine ⟨⟨h.undefined, h.matching⟩, fun x hx => ?_⟩
    cases x with
    | number x => trivial
    | var name => exact h.vars name hx
    | binary op lhs rhs => exact h.ops op lhs rhs hx
    | call callee args => exact h.calls callee args hx
  · rintro ⟨⟨hundefined, hmatching⟩, hparts⟩
    exact ⟨hundefined, hmatching, fun name hx => hparts _ hx, fun callee args hx => hparts _ hx,
      fun op lhs rhs hx => hparts _ hx⟩

/-- The function of a definition has a body, or was declared with another number of parameters, or
    a routine can be prepared for it. -/
theorem refused_or_prepared (hm : m.Sound) (f : Formula) :
    (∃ id r, (id, r) ∈ m.live ∧ r.name = f.proto.name ∧ f.proto.name ≠ "" ∧ r.body ≠ none) ∨
      (Undefined m f.proto ∧ ∃ id r, (id, r) ∈ m.live ∧ r.name = f.proto.name ∧
        f.proto.name ≠ "" ∧ r.arity ≠ f.proto.params.length) ∨
      ∃ id declared, Prepared m f.proto id declared := by
  rw [exists_prepared_iff hm]
  by_cases hundefined : Undefined m f.proto
  · refine .inr ?_
    by_cases hmatching : Matching m f.proto
    · exact .inr ⟨hundefined, hmatching⟩
    · unfold Matching at hmatching
      push Not at hmatching
      exact .inl ⟨hundefined, hmatching⟩
  · unfold Undefined at hundefined
    push Not at hundefined
    exact .inl hundefined

theorem lowerFormula_eq_error_iff (hm : m.Sound) (e : LowerError) :
    (lowerFormula m f).1 = .error e ↔ f.FirstFault m e := by
  constructor
  · intro h
    rcases refused_or_prepared hm f with ⟨id, r, hlive, hname, hne, hbody⟩ |
      ⟨hundefined, id, r, hlive, hname, hne, harity⟩ | ⟨id, declared, hp⟩
    · rw [lowerFormula_of_body hm hlive hname hne hbody] at h
      exact Except.error.inj h ▸ .redefinition hlive hname hne hbody
    · rw [lowerFormula_of_arity hm hlive hname hne (hundefined id r hlive hname hne) harity] at h
      exact Except.error.inj h ▸ .signatureMismatch hundefined hlive hname hne harity
    · obtain ⟨hundefined, hmatching⟩ := (exists_prepared_iff hm).mp ⟨id, declared, hp⟩
      have houtcome := lowerFormula_outcome hp
      rw [h] at houtcome
      obtain ⟨before, x, after, hvisits, hbefore, hx⟩ := forM_eq_error_iff.mp houtcome.symm
      exact .body hundefined hmatching hvisits
        (fun y hy => (Scope.accept_eq_ok_iff hm hp y).mp (hbefore y hy))
        ((Scope.accept_eq_error_iff hm hp x e).mp hx)
  · intro h
    cases h with
    | redefinition hlive hname hne hbody => exact lowerFormula_of_body hm hlive hname hne hbody
    | signatureMismatch hundefined hlive hname hne harity =>
      exact lowerFormula_of_arity hm hlive hname hne (hundefined _ _ hlive hname hne) harity
    | body hundefined hmatching hvisits hbefore hx =>
      obtain ⟨id, declared, hp⟩ := (exists_prepared_iff hm).mpr ⟨hundefined, hmatching⟩
      refine Except.map_eq_error_iff.mp ((lowerFormula_outcome hp).trans ?_)
      exact forM_eq_error_iff.mpr ⟨_, _, _, hvisits,
        fun y hy => (Scope.accept_eq_ok_iff hm hp y).mpr (hbefore y hy),
        (Scope.accept_eq_error_iff hm hp _ e).mpr hx⟩

theorem exists_lowerFormula_eq_ok_iff (hm : m.Sound) :
    (∃ id, (lowerFormula m f).1 = .ok id) ↔ f.WellFormed m := by
  rw [Formula.wellFormed_iff, ← exists_prepared_iff hm]
  constructor
  · rintro ⟨id, h⟩
    obtain ⟨declared, ret, b, hp, -⟩ := lowerFormula_eq_ok_iff.mp (Prod.ext h rfl)
    have houtcome := lowerFormula_outcome hp
    rw [h] at houtcome
    refine ⟨⟨id, declared, hp⟩, fun x hx => ?_⟩
    exact (Scope.accept_eq_ok_iff hm hp x).mp (forM_eq_ok_iff.mp houtcome.symm x hx)
  · rintro ⟨⟨id, declared, hp⟩, hparts⟩
    have haccepted := forM_eq_ok_iff.mpr fun x hx =>
      (Scope.accept_eq_ok_iff hm hp x).mpr (hparts x hx)
    obtain ⟨id', h, -⟩ := Except.map_eq_ok_iff.mp ((lowerFormula_outcome hp).trans haccepted)
    exact ⟨id', h⟩

end Definitions

/-- Whatever requests a module has seen: a definition is accepted exactly if it is well-formed, and
    it is refused exactly with the first of its faults. First come those of its name and of the
    number of its parameters, then those of the parts of its body in the order of their visits. -/
theorem lowerFormula_reports_first_fault (name : String) (requests : List Request) (f : Formula) :
    let m := performAll (.empty name) requests
    ((∃ id, (lowerFormula m f).1 = .ok id) ↔ f.WellFormed m) ∧
      ∀ e, (lowerFormula m f).1 = .error e ↔ f.FirstFault m e := by
  intro m
  have hm : m.Sound := performAll_preserves_sound (.empty name) requests
  exact ⟨exists_lowerFormula_eq_ok_iff hm, lowerFormula_eq_error_iff hm⟩

end Formulary
