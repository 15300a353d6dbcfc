import Formulary.Proofs.Emission
import Mathlib.Data.List.Basic

/-!
# Executing code

A body is executed instruction by instruction. An instruction reads its operands among the
arguments and the results of earlier instructions, and adds one result. What a called routine
yields is given from outside and may depend on all calls made before. Execution stops without an
outcome at an operand that is not defined or of the wrong type.

* `Operation.execute`, `Body.execute`: the outcome of an instruction and of a body.
* `Reaches`: the trace of the instructions that a builder has collected.
* `Reaches.binary`, `Reaches.ofTruth`, `Reaches.call`: what the steps of a builder compute, whether
  they emit an instruction or compute at once.
-/

namespace Formulary

/-! ## Outcomes -/

/-- A value at run time. -/
inductive Datum
  | number (x : Double)
  | truth (flag : Bool)
deriving DecidableEq

/-- The number that a value at run time is. -/
def Datum.number? : Datum → Option Double
  | number x => some x
  | truth _ => none

/-- The truth value that a value at run time is. -/
def Datum.truth? : Datum → Option Bool
  | number _ => none
  | truth flag => some flag

/-- A call of a routine with the numbers that are passed to it. -/
structure Call where
  callee : RoutineId
  args : List Double
deriving DecidableEq

/-- What called routines yield, given the calls made before, the first one first. -/
abbrev Answers := (earlier : List Call) → Call → Double

/-- The results of the instructions so far, and the calls made so far. -/
structure Trace where
  results : List Datum
  calls : List Call
deriving DecidableEq

/-- What an operand is at run time. -/
def Value.datum? (args : List Double) (results : List Datum) : Value → Option Datum
  | constant x => some (.number x)
  | truth flag => some (.truth flag)
  | param index => args[index]?.map .number
  | result position => results[position]?

/-- The number that an operand is at run time. -/
def Value.number? (args : List Double) (results : List Datum) (v : Value) : Option Double :=
  (v.datum? args results).bind Datum.number?

/-- The truth value that an operand is at run time. -/
def Value.truth? (args : List Double) (results : List Datum) (v : Value) : Option Bool :=
  (v.datum? args results).bind Datum.truth?

/-- The numbers that several operands are at run time. -/
def Value.numbers? (args : List Double) (results : List Datum) : List Value → Option (List Double)
  | [] => some []
  | v :: rest => do
    let x ← v.number? args results
    let xs ← numbers? args results rest
    some (x :: xs)

/-- The result of an operation on two numbers. -/
def BinaryOp.compute : BinaryOp → Double → Double → Datum
  | add, x, y => .number (x.add y)
  | sub, x, y => .number (x.sub y)
  | mul, x, y => .number (x.mul y)
  | less, x, y => .truth (x.lessOrUnordered y)

/-- Executes an operation: adds its result, and the call if it is one. -/
def Operation.execute (answers : Answers) (args : List Double) (t : Trace) :
    Operation → Option Trace
  | binary op lhs rhs => do
    let x ← lhs.number? args t.results
    let y ← rhs.number? args t.results
    some ⟨t.results ++ [op.compute x y], t.calls⟩
  | ofTruth v => do
    let flag ← v.truth? args t.results
    some ⟨t.results ++ [.number (.ofBool flag)], t.calls⟩
  | call callee values => do
    let xs ← Value.numbers? args t.results values
    some ⟨t.results ++ [.number (answers t.calls ⟨callee, xs⟩)], t.calls ++ [⟨callee, xs⟩]⟩

/-- Executes instructions in order. -/
def executeAll (answers : Answers) (args : List Double) : List Instruction → Trace → Option Trace
  | [], t => some t
  | i :: rest, t => (i.operation.execute answers args t).bind (executeAll answers args rest)

/-- Executes a body: its instructions, then the return. Yields the returned number and the calls
    made. -/
def Body.execute (answers : Answers) (args : List Double) (body : Body) :
    Option (Double × List Call) := do
  let t ← executeAll answers args body.instructions.toList ⟨[], []⟩
  let v ← body.ret
  let x ← v.number? args t.results
  some (x, t.calls)

/-! ## Traces grow -/

section Traces

variable {answers : Answers} {args : List Double}

theorem executeAll_append (a b : List Instruction) (t : Trace) :
    executeAll answers args (a ++ b) t =
      (executeAll answers args a t).bind (executeAll answers args b) := by
  induction a generalizing t with
  | nil => rfl
  | cons i a ih =>
    simp only [List.cons_append, executeAll, Option.bind_assoc]
    congr 1
    funext t'
    exact ih t'

theorem Operation.results_of_execute {operation : Operation} {t t' : Trace}
    (h : operation.execute answers args t = some t') : ∃ d, t'.results = t.results ++ [d] := by
  cases operation with
  | binary op lhs rhs =>
    simp only [execute, Option.bind_eq_bind, Option.bind_eq_some_iff, Option.some.injEq] at h
    obtain ⟨x, -, y, -, rfl⟩ := h
    exact ⟨_, rfl⟩
  | ofTruth v =>
    simp only [execute, Option.bind_eq_bind, Option.bind_eq_some_iff, Option.some.injEq] at h
    obtain ⟨flag, -, rfl⟩ := h
    exact ⟨_, rfl⟩
  | call callee values =>
    simp only [execute, Option.bind_eq_bind, Option.bind_eq_some_iff, Option.some.injEq] at h
    obtain ⟨xs, -, rfl⟩ := h
    exact ⟨_, rfl⟩

theorem length_results_of_executeAll {instructions : List Instruction} {t t' : Trace}
    (h : executeAll answers args instructions t = some t') :
    t'.results.length = t.results.length + instructions.length := by
  induction instructions generalizing t with
  | nil =>
    obtain rfl := Option.some.inj h
    rfl
  | cons i rest ih =>
    obtain ⟨t₁, hi, hrest⟩ := Option.bind_eq_some_iff.mp h
    obtain ⟨d, hd⟩ := Operation.results_of_execute hi
    rw [ih hrest, hd, List.length_append, List.length_singleton, List.length_cons]
    omega

/-- What an operand is does not change when results are added. -/
theorem Value.datum?_of_prefix {v : Value} {results results' : List Datum} {d : Datum}
    (h : v.datum? args results = some d) (hp : results <+: results') :
    v.datum? args results' = some d := by
  cases v with
  | result position =>
    obtain ⟨more, rfl⟩ := hp
    obtain ⟨hlt, -⟩ := List.getElem?_eq_some_iff.mp h
    exact (List.getElem?_append_left hlt).trans h
  | constant x => exact h
  | truth flag => exact h
  | param index => exact h

theorem Value.number?_eq_some_iff {v : Value} {results : List Datum} {x : Double} :
    v.number? args results = some x ↔ v.datum? args results = some (.number x) := by
  unfold Value.number?
  rw [Option.bind_eq_some_iff]
  constructor
  · rintro ⟨d, hd, hx⟩
    cases d with
    | number y => rw [hd, Option.some.inj hx]
    | truth flag => simp [Datum.number?] at hx
  · intro h
    exact ⟨_, h, rfl⟩

theorem Value.truth?_of_datum? {v : Value} {results : List Datum} {flag : Bool}
    (h : v.datum? args results = some (.truth flag)) : v.truth? args results = some flag := by
  unfold Value.truth?
  rw [h]
  rfl

/-! ## What a builder has collected -/

/-- Executing the instructions of the builder from the start leads to the trace. -/
def Reaches (answers : Answers) (args : List Double) (b : Builder) (t : Trace) : Prop :=
  executeAll answers args b.instructions.toList ⟨[], []⟩ = some t

theorem Reaches.start (params : List String) : Reaches answers args (.start params) ⟨[], []⟩ := rfl

theorem Reaches.length_results {b : Builder} {t : Trace} (h : Reaches answers args b t) :
    t.results.length = b.instructions.size := by
  have := length_results_of_executeAll h
  simpa using this

/-- An instruction that is emitted is executed behind those from before. -/
theorem Reaches.push {b : Builder} {t t' : Trace} {operation : Operation}
    (h : Reaches answers args b t) (hop : operation.execute answers args t = some t')
    (name : String) : Reaches answers args (b.push name operation).2 t' := by
  unfold Reaches at h ⊢
  show executeAll answers args (b.instructions.push _).toList _ = _
  rw [Array.toList_push, executeAll_append, h]
  show (operation.execute answers args t).bind some = some t'
  rw [hop]
  rfl

theorem Reaches.datum?_push {b : Builder} {t : Trace} (h : Reaches answers args b t)
    (operation : Operation) (name : String) (d : Datum) :
    (b.push name operation).1.datum? args (t.results ++ [d]) = some d := by
  show (t.results ++ [d])[b.instructions.size]? = some d
  rw [← h.length_results, List.getElem?_append_right (Nat.le_refl _), Nat.sub_self]
  rfl

/-- `Continues answers args b t calls v d`: the builder reaches a trace that continues `t`, has
    made the given calls, and gives the operand `v` the value `d`. -/
def Continues (answers : Answers) (args : List Double) (b : Builder) (t : Trace)
    (calls : List Call) (v : Value) (d : Datum) : Prop :=
  ∃ t', Reaches answers args b t' ∧ t.results <+: t'.results ∧ t'.calls = calls ∧
    v.datum? args t'.results = some d

/-- An operation on two numbers has the same value, whether it is emitted or computed at once. -/
theorem Reaches.binary {b : Builder} {t : Trace} {l r : Value} {x y : Double}
    (h : Reaches answers args b t) (hl : l.number? args t.results = some x)
    (hr : r.number? args t.results = some y) (op : BinaryOp) (name : String) :
    Continues answers args (b.binary op l r name).2 t t.calls (b.binary op l r name).1
      (op.compute x y) := by
  rcases b.binary_cases op l r name with ⟨x', y', rfl, rfl, hfold⟩ | hpush
  · obtain rfl : x' = x := Option.some.inj hl
    obtain rfl : y' = y := Option.some.inj hr
    rw [hfold]
    refine ⟨t, h, List.prefix_rfl, rfl, ?_⟩
    cases op <;> rfl
  · rw [hpush]
    have hop : (Operation.binary op l r).execute answers args t =
        some ⟨t.results ++ [op.compute x y], t.calls⟩ := by
      simp [Operation.execute, hl, hr]
    exact ⟨_, h.push hop name, List.prefix_append _ _, rfl, h.datum?_push _ _ _⟩

/-- A truth value becomes the same number, whether by an instruction or at once. -/
theorem Reaches.ofTruth {b : Builder} {t : Trace} {v : Value} {flag : Bool}
    (h : Reaches answers args b t) (hv : v.datum? args t.results = some (.truth flag))
    (name : String) :
    Continues answers args (b.ofTruth v name).2 t t.calls (b.ofTruth v name).1
      (.number (.ofBool flag)) := by
  rcases b.ofTruth_cases v name with ⟨flag', rfl, hfold⟩ | hpush
  · obtain rfl : flag' = flag := Datum.truth.inj (Option.some.inj hv)
    rw [hfold]
    exact ⟨t, h, List.prefix_rfl, rfl, rfl⟩
  · rw [hpush]
    have hop : (Operation.ofTruth v).execute answers args t =
        some ⟨t.results ++ [.number (.ofBool flag)], t.calls⟩ := by
      simp [Operation.execute, Value.truth?_of_datum? hv]
    exact ⟨_, h.push hop name, List.prefix_append _ _, rfl, h.datum?_push _ _ _⟩

/-- A call is made with the values of its arguments, behind all calls made before. -/
theorem Reaches.call {b : Builder} {t : Trace} {values : List Value} {xs : List Double}
    (h : Reaches answers args b t) (hvalues : Value.numbers? args t.results values = some xs)
    (target : RoutineId) (name : String) :
    Continues answers args (b.call target values name).2 t (t.calls ++ [⟨target, xs⟩])
      (b.call target values name).1 (.number (answers t.calls ⟨target, xs⟩)) := by
  have hop : (Operation.call target values).execute answers args t =
      some ⟨t.results ++ [.number (answers t.calls ⟨target, xs⟩)],
        t.calls ++ [⟨target, xs⟩]⟩ := by
    simp [Operation.execute, hvalues]
  exact ⟨_, h.push hop name, List.prefix_append _ _, rfl, h.datum?_push _ _ _⟩

end Traces

end Formulary
