import Formulary.Proofs.Execution
import Formulary.Proofs.Faults
import Formulary.Proofs.Slots

/-!
# Checked code is safe to execute, and the first fault is reported

A body that has passed the check never stops at an operand: by the time an instruction is executed
the results it reads are there and have the types that the check has found for them. A body that
does not pass has a first fault in the order of the program, and that one is reported.

* `Trace.Typed`: the results so far have the types of their instructions.
* `Fits.execute`, `FitsAll.executeAll`: what one instruction and all of them keep.
* `Body.Sound.execute`: a sound body returns a number.
* `Check`, `Body.checks`: what is looked at in a body, in order.
* `CodeModule.FirstFault`: the first fault of a routine.
* `CodeModule.verify_applyAll_ne`: the fault that operations of a module never lead to.
* `verify_exact`: what the check accepts, what it reports, and what it is good for.
-/

namespace Formulary

open CodeModule

/-! ## Checked code is safe -/

/-- The type of a value at run time. -/
def Datum.type : Datum → ValueType
  | number _ => .double
  | truth _ => .truth

/-- The results of the trace have the types of the instructions of `code` at their positions, and
    the calls are ones of routines of `m` with as many numbers as they take. -/
structure Trace.Typed (m : CodeModule) (code : Array Instruction) (t : Trace) : Prop where
  results : ∀ (k : Nat) (d : Datum), t.results[k]? = some d →
    ∃ i : Instruction, code[k]? = some i ∧ d.type = i.operation.resultType
  calls : ∀ c ∈ t.calls, m.arity? c.callee = some c.args.length

section Safety

variable {m : CodeModule} {code : Array Instruction} {arity : Nat} {args : List Double} {t : Trace}

theorem Trace.Typed.start (m : CodeModule) (code : Array Instruction) :
    Trace.Typed m code ⟨[], []⟩ :=
  ⟨by simp, by simp⟩

/-- An operand that can be used at the end of a trace has a value of its type there. -/
theorem Usable.datum? {type : ValueType} {v : Value}
    (h : Usable code arity t.results.length type v) (ht : t.Typed m code)
    (hargs : args.length = arity) : ∃ d, v.datum? args t.results = some d ∧ d.type = type := by
  cases h with
  | constant x => exact ⟨.number x, rfl, rfl⟩
  | truth flag => exact ⟨.truth flag, rfl, rfl⟩
  | @param index hindex =>
    have hlt : index < args.length := by omega
    exact ⟨.number args[index], by simp [Value.datum?, hlt], rfl⟩
  | @result earlier i hearlier hi =>
    have hd := List.getElem?_eq_getElem hearlier
    obtain ⟨j, hj, htype⟩ := ht.results earlier _ hd
    obtain rfl := Option.some.inj (hi.symm.trans hj)
    exact ⟨_, hd, htype⟩

theorem Usable.number? {v : Value} (h : Usable code arity t.results.length .double v)
    (ht : t.Typed m code) (hargs : args.length = arity) :
    ∃ x, v.number? args t.results = some x := by
  obtain ⟨d, hd, htype⟩ := h.datum? ht hargs
  cases d with
  | number x => exact ⟨x, Value.number?_eq_some_iff.mpr hd⟩
  | truth flag => simp [Datum.type] at htype

theorem Usable.truth? {v : Value} (h : Usable code arity t.results.length .truth v)
    (ht : t.Typed m code) (hargs : args.length = arity) :
    ∃ flag, v.truth? args t.results = some flag := by
  obtain ⟨d, hd, htype⟩ := h.datum? ht hargs
  cases d with
  | number x => simp [Datum.type] at htype
  | truth flag => exact ⟨flag, Value.truth?_of_datum? hd⟩

theorem Usable.numbers? {values : List Value}
    (h : ∀ v ∈ values, Usable code arity t.results.length .double v) (ht : t.Typed m code)
    (hargs : args.length = arity) :
    ∃ xs, Value.numbers? args t.results values = some xs ∧ xs.length = values.length := by
  induction values with
  | nil => exact ⟨[], rfl, rfl⟩
  | cons v values ih =>
    obtain ⟨hv, hvalues⟩ := List.forall_mem_cons.mp h
    obtain ⟨x, hx⟩ := hv.number? ht hargs
    obtain ⟨xs, hxs, hlength⟩ := ih hvalues
    exact ⟨x :: xs, by simp [Value.numbers?, hx, hxs], by simp [hlength]⟩

/-- A result of the type of the next instruction can be added, and calls that fit. -/
theorem Trace.Typed.append (ht : t.Typed m code) {i : Instruction} {d : Datum} {calls : List Call}
    (hi : code[t.results.length]? = some i) (hd : d.type = i.operation.resultType)
    (hcalls : ∀ c ∈ calls, m.arity? c.callee = some c.args.length) :
    Trace.Typed m code ⟨t.results ++ [d], t.calls ++ calls⟩ := by
  refine ⟨?_, ?_⟩
  · intro k d' hd'
    rw [List.getElem?_append] at hd'
    split_ifs at hd' with hk
    · exact ht.results k d' hd'
    · obtain ⟨hzero, rfl⟩ : k - t.results.length = 0 ∧ d = d' := by
        simpa [List.getElem?_singleton] using hd'
      obtain rfl : k = t.results.length := by omega
      exact ⟨i, hi, hd⟩
  · intro c hc
    rcases List.mem_append.mp hc with hold | hnew
    · exact ht.calls c hold
    · exact hcalls c hnew

/-- An instruction that fits behind a trace is executed there and yields a result of its type. -/
theorem Fits.execute {i : Instruction} (h : Fits m code arity t.results.length i.operation)
    (ht : t.Typed m code) (hi : code[t.results.length]? = some i) (answers : Answers)
    (hargs : args.length = arity) :
    ∃ t', i.operation.execute answers args t = some t' ∧ t'.Typed m code := by
  cases hop : i.operation with
  | binary op lhs rhs =>
    rw [hop] at h
    obtain ⟨_, hl, hr⟩ | _ | _ := h
    obtain ⟨x, hx⟩ := hl.number? ht hargs
    obtain ⟨y, hy⟩ := hr.number? ht hargs
    have hd : (op.compute x y).type = i.operation.resultType := by
      rw [hop]
      cases op <;> rfl
    refine ⟨⟨t.results ++ [op.compute x y], t.calls ++ []⟩, ?_, ht.append hi hd (by simp)⟩
    simp [Operation.execute, hx, hy]
  | ofTruth v =>
    rw [hop] at h
    obtain _ | hv | _ := h
    obtain ⟨flag, hflag⟩ := hv.truth? ht hargs
    have hd : (Datum.number (.ofBool flag)).type = i.operation.resultType := by
      rw [hop]
      rfl
    refine ⟨⟨t.results ++ [.number (.ofBool flag)], t.calls ++ []⟩, ?_,
      ht.append hi hd (by simp)⟩
    simp [Operation.execute, hflag]
  | call callee values =>
    rw [hop] at h
    obtain _ | _ | ⟨hcallee, hvalues⟩ := h
    obtain ⟨xs, hxs, hlength⟩ := Usable.numbers? hvalues ht hargs
    have hd : (Datum.number (answers t.calls ⟨callee, xs⟩)).type = i.operation.resultType := by
      rw [hop]
      rfl
    refine ⟨⟨t.results ++ [.number (answers t.calls ⟨callee, xs⟩)], t.calls ++ [⟨callee, xs⟩]⟩,
      ?_, ht.append hi hd (by simpa [hlength] using hcallee)⟩
    simp [Operation.execute, hxs]

/-- The instructions of `code` behind a trace are all executed. -/
theorem FitsAll.executeAll (h : FitsAll m arity code) {done rest : List Instruction}
    (hcode : code.toList = done ++ rest) (ht : t.Typed m code)
    (hlength : t.results.length = done.length) (answers : Answers) (hargs : args.length = arity) :
    ∃ t', executeAll answers args rest t = some t' ∧ t'.Typed m code := by
  induction rest generalizing done t with
  | nil => exact ⟨t, rfl, ht⟩
  | cons i rest ih =>
    have hi : code[t.results.length]? = some i := by
      rw [← Array.getElem?_toList, hcode, hlength, List.getElem?_append_right (Nat.le_refl _),
        Nat.sub_self]
      rfl
    obtain ⟨t₁, hexecute, ht₁⟩ := (h _ i hi).execute ht hi answers hargs
    obtain ⟨d, hd⟩ := Operation.results_of_execute hexecute
    have hlength₁ : t₁.results.length = (done ++ [i]).length := by
      rw [hd, List.length_append, List.length_append, hlength]
      rfl
    rw [List.append_cons] at hcode
    obtain ⟨t', hrest, ht'⟩ := ih hcode ht₁ hlength₁
    refine ⟨t', ?_, ht'⟩
    rw [Formulary.executeAll, hexecute]
    exact hrest

/-- A sound body returns a number, and calls routines of the module with as many numbers as they
    take. -/
theorem Body.Sound.execute {body : Body} (h : body.Sound m arity) (answers : Answers)
    (hargs : args.length = arity) :
    ∃ x calls, body.execute answers args = some (x, calls) ∧
      ∀ c ∈ calls, m.arity? c.callee = some c.args.length := by
  have hcode : body.instructions.toList = [] ++ body.instructions.toList := rfl
  obtain ⟨t, hexecute, ht⟩ := h.fits.executeAll hcode (.start m _) rfl answers hargs
  have hlength : t.results.length = body.instructions.size := by
    simpa using length_results_of_executeAll hexecute
  obtain ⟨v, hret, hv⟩ := h.ret
  rw [← hlength] at hv
  obtain ⟨x, hx⟩ := hv.number? ht hargs
  exact ⟨x, t.calls, by simp [Body.execute, hexecute, hret, hx], ht.calls⟩

end Safety

/-! ## The first fault -/

/-- What is looked at: the routine that an instruction calls, an operand, or whether there is a
    returned value. -/
inductive Check
  | callee (inst : String) (id : RoutineId) (count : Nat)
  | operand (inst : String) (position : Nat) (expected : ValueType) (v : Value)
  | terminator (ret : Option Value)

/-- What is looked at in the instruction at a position: the called routine before the arguments,
    operands from left to right. -/
def Instruction.checks (position : Nat) (i : Instruction) : List Check :=
  match i.operation with
  | .binary _ lhs rhs =>
    [.operand i.name position .double lhs, .operand i.name position .double rhs]
  | .ofTruth v => [.operand i.name position .truth v]
  | .call callee args =>
    .callee i.name callee args.length :: args.map (.operand i.name position .double)

/-- What is looked at in a body: its instructions in order, then whether a value is returned, and
    that value. -/
def Body.checks (body : Body) : List Check :=
  body.instructions.toList.zipIdx.flatMap (fun (i, position) => i.checks position) ++
    .terminator body.ret :: body.ret.toList.map (.operand "ret" body.instructions.size .double)

/-- `c.Passes m code arity`: nothing is wrong with what is looked at. -/
inductive Check.Passes (m : CodeModule) (code : Array Instruction) (arity : Nat) : Check → Prop
  | callee {inst : String} {id : RoutineId} {count : Nat} (hid : m.arity? id = some count) :
      Passes m code arity (.callee inst id count)
  | operand {inst : String} {position : Nat} {expected : ValueType} {v : Value}
      (hv : Usable code arity position expected v) :
      Passes m code arity (.operand inst position expected v)
  | terminator (v : Value) : Passes m code arity (.terminator (some v))

/-- `c.Fails m code arity e`: something is wrong with what is looked at, and `e` tells what. -/
inductive Check.Fails (m : CodeModule) (code : Array Instruction) (arity : Nat) :
    Check → VerifyError → Prop
  | unknownCallee {inst : String} {id : RoutineId} {count : Nat}
      (hid : ∀ target, (id, target) ∉ m.live) :
      Fails m code arity (.callee inst id count) (.unknownCallee inst)
  | callArity {inst : String} {id : RoutineId} {count : Nat} {target : Routine}
      (hid : (id, target) ∈ m.live) (hcount : target.arity ≠ count) :
      Fails m code arity (.callee inst id count) (.callArity inst target.arity count)
  | undefinedValue {inst : String} {position : Nat} {expected : ValueType} {v : Value}
      (hv : ∀ type, ¬ Usable code arity position type v) :
      Fails m code arity (.operand inst position expected v) (.undefinedValue inst)
  | operandType {inst : String} {position : Nat} {expected found : ValueType} {v : Value}
      (hv : Usable code arity position found v) (hfound : found ≠ expected) :
      Fails m code arity (.operand inst position expected v) (.operandType inst expected found)
  | missingTerminator : Fails m code arity (.terminator none) .missingTerminator

/-- `m.FirstFault id e`: in the order of the program, `e` is the first fault of the routine at a
    place. -/
inductive CodeModule.FirstFault (m : CodeModule) (id : RoutineId) : VerifyError → Prop
  | noSuchFunction (hlive : ∀ r, (id, r) ∉ m.live) : FirstFault m id .noSuchFunction
  | missingBody {r : Routine} (hlive : (id, r) ∈ m.live) (hbody : r.body = none) :
      FirstFault m id .missingBody
  | body {r : Routine} {body : Body} {before after : List Check} {c : Check} {e : VerifyError}
      (hlive : (id, r) ∈ m.live) (hbody : r.body = some body)
      (hchecks : body.checks = before ++ c :: after)
      (hbefore : ∀ y ∈ before, y.Passes m body.instructions r.arity)
      (hc : c.Fails m body.instructions r.arity e) : FirstFault m id e

section Checks

variable {m : CodeModule} {body : Body} {arity : Nat}

/-- Looks at one thing. -/
def Check.perform (m : CodeModule) (body : Body) (arity : Nat) : Check → Except VerifyError Unit
  | callee inst id count =>
    match m.get? id with
    | none => .error (.unknownCallee inst)
    | some target =>
      if target.arity = count then .ok () else .error (.callArity inst target.arity count)
  | operand inst position expected v => body.checkOperand arity inst position expected v
  | terminator ret => if ret.isSome then .ok () else .error .missingTerminator

theorem Body.checkOperands_eq_forM (inst : String) (position : Nat) (expected : ValueType)
    (values : List Value) :
    body.checkOperands arity inst position expected values =
      forM (values.map (Check.operand inst position expected)) (Check.perform m body arity) := by
  induction values with
  | nil => rfl
  | cons v values ih =>
    rw [checkOperands, ih, List.map_cons, List.forM_cons]
    rfl

theorem Body.checkInstruction_eq_forM (position : Nat) (i : Instruction) :
    body.checkInstruction m arity position i =
      forM (i.checks position) (Check.perform m body arity) := by
  rw [checkInstruction, Instruction.checks]
  cases i.operation with
  | binary op lhs rhs => exact checkOperands_eq_forM i.name position .double [lhs, rhs]
  | ofTruth v =>
    simp only [List.forM_cons, List.forM_nil, Check.perform]
    cases body.checkOperand arity i.name position .truth v <;> rfl
  | call callee args =>
    simp only [List.forM_cons, ← checkOperands_eq_forM, Check.perform]
    cases m.get? callee with
    | none => rfl
    | some target =>
      simp only
      split_ifs <;> rfl

theorem Body.checkInstructions_eq_forM (position : Nat) (instructions : List Instruction) :
    body.checkInstructions m arity position instructions =
      forM ((instructions.zipIdx position).flatMap fun (i, position) => i.checks position)
        (Check.perform m body arity) := by
  induction instructions generalizing position with
  | nil => rfl
  | cons i rest ih =>
    rw [checkInstructions, ih, List.zipIdx_cons, List.flatMap_cons, List.forM_append,
      checkInstruction_eq_forM]

theorem Body.checkReturn_eq_forM :
    body.checkReturn arity =
      forM (.terminator body.ret ::
          body.ret.toList.map (.operand "ret" body.instructions.size .double))
        (Check.perform m body arity) := by
  rw [checkReturn]
  cases body.ret with
  | none => rfl
  | some v =>
    simp only [Option.toList_some, List.map_cons, List.map_nil, List.forM_cons, List.forM_nil,
      Check.perform, Option.isSome_some, ↓reduceIte]
    cases body.checkOperand arity "ret" body.instructions.size .double v <;> rfl

/-- Checking a body is looking at everything in it in order. -/
theorem CodeModule.verify_eq_forM {id : RoutineId} {r : Routine} (hr : m.get? id = some r)
    (hbody : r.body = some body) :
    m.verify id = forM body.checks (Check.perform m body r.arity) := by
  rw [Body.checks, List.forM_append, ← Body.checkInstructions_eq_forM, verify]
  simp only [hr, hbody]
  rw [Body.checkReturn_eq_forM]

theorem Body.usable_iff {position : Nat} {type : ValueType} {v : Value} :
    Usable body.instructions arity position type v ↔
      v.isDefinedAt arity position = true ∧ body.typeOf? v = some type := by
  constructor
  · intro h
    cases h with
    | constant x => exact ⟨rfl, rfl⟩
    | truth flag => exact ⟨rfl, rfl⟩
    | param hindex => exact ⟨by simpa [Value.isDefinedAt] using hindex, rfl⟩
    | result hearlier hi =>
      exact ⟨by simpa [Value.isDefinedAt] using hearlier, by simp [typeOf?, hi]⟩
  · rintro ⟨hdefined, htype⟩
    have hok : body.checkOperand arity "" position type v = .ok () := by
      simp [checkOperand, hdefined, htype]
    exact checkOperand_eq_ok_iff.mp hok

theorem Check.perform_eq_ok_iff {c : Check} :
    c.perform m body arity = .ok () ↔ c.Passes m body.instructions arity := by
  cases c with
  | callee inst id count =>
    have hpasses : (Check.callee inst id count).Passes m body.instructions arity ↔
        m.arity? id = some count := ⟨by rintro ⟨h⟩; exact h, .callee⟩
    rw [hpasses, perform, arity?]
    cases m.get? id with
    | none => simp
    | some target => simp
  | operand inst position expected v =>
    rw [perform, Body.checkOperand_eq_ok_iff]
    exact ⟨.operand, by rintro (_ | h); exact h⟩
  | terminator ret =>
    cases ret with
    | none => exact iff_of_false (by simp [perform]) (by rintro ⟨⟩)
    | some v => exact iff_of_true rfl (.terminator v)

theorem Body.checkOperand_eq_error_iff {inst : String} {position : Nat} {expected : ValueType}
    {v : Value} {e : VerifyError} :
    body.checkOperand arity inst position expected v = .error e ↔
      (∀ type, ¬ Usable body.instructions arity position type v) ∧ e = .undefinedValue inst ∨
        ∃ found, Usable body.instructions arity position found v ∧ found ≠ expected ∧
          e = .operandType inst expected found := by
  simp only [checkOperand, usable_iff]
  by_cases hdefined : v.isDefinedAt arity position = true
  · cases htype : body.typeOf? v with
    | none => simp [hdefined, @eq_comm _ e]
    | some found =>
      by_cases hfound : found = expected
      · simp [hdefined, hfound]
      · simp [hdefined, hfound, @eq_comm _ e]
  · simp [hdefined, @eq_comm _ e]

theorem Check.perform_eq_error_iff {c : Check} {e : VerifyError} :
    c.perform m body arity = .error e ↔ c.Fails m body.instructions arity e := by
  cases c with
  | callee inst id count =>
    have hfails : (Check.callee inst id count).Fails m body.instructions arity e ↔
        (∀ target, m.get? id ≠ some target) ∧ e = .unknownCallee inst ∨
          ∃ target, m.get? id = some target ∧ target.arity ≠ count ∧
            e = .callArity inst target.arity count := by
      simp only [ne_eq, ← mem_live_iff]
      constructor
      · rintro (hid | ⟨hid, hcount⟩)
        · exact .inl ⟨hid, rfl⟩
        · exact .inr ⟨_, hid, hcount, rfl⟩
      · rintro (⟨hid, rfl⟩ | ⟨target, hid, hcount, rfl⟩)
        · exact .unknownCallee hid
        · exact .callArity hid hcount
    rw [hfails, perform]
    cases m.get? id with
    | none => simp [@eq_comm _ e]
    | some target =>
      by_cases hcount : target.arity = count
      · simp [hcount]
      · simp [hcount, @eq_comm _ e]
  | operand inst position expected v =>
    rw [perform, Body.checkOperand_eq_error_iff]
    constructor
    · rintro (⟨hv, rfl⟩ | ⟨found, hv, hfound, rfl⟩)
      · exact .undefinedValue hv
      · exact .operandType hv hfound
    · rintro (_ | _ | hv | ⟨hv, hfound⟩)
      · exact .inl ⟨hv, rfl⟩
      · exact .inr ⟨_, hv, hfound, rfl⟩
  | terminator ret =>
    cases ret with
    | none => exact ⟨by rintro ⟨⟩; exact .missingTerminator, by rintro ⟨⟩; rfl⟩
    | some v => exact iff_of_false (by simp [perform]) (by rintro ⟨⟩)

end Checks

/-- The fault that is reported is the first one. -/
theorem CodeModule.verify_eq_error_iff {m : CodeModule} {id : RoutineId} {e : VerifyError} :
    m.verify id = .error e ↔ m.FirstFault id e := by
  cases hget : m.get? id with
  | none =>
    have hdead : ∀ r, (id, r) ∉ m.live := fun r hlive => by simp [mem_live_iff, hget] at hlive
    simp only [verify, hget]
    constructor
    · rintro ⟨⟩
      exact .noSuchFunction hdead
    · rintro (_ | ⟨hlive, -⟩ | ⟨hlive, -, -, -, -⟩)
      · rfl
      · exact absurd hlive (hdead _)
      · exact absurd hlive (hdead _)
  | some r =>
    have hlive : (id, r) ∈ m.live := (mem_live_iff _ _ _).mpr hget
    have huniq : ∀ r', (id, r') ∈ m.live → r' = r := fun r' hr' =>
      Option.some.inj (((mem_live_iff _ _ _).mp hr').symm.trans hget)
    cases hbody : r.body with
    | none =>
      simp only [verify, hget, hbody]
      constructor
      · rintro ⟨⟩
        exact .missingBody hlive hbody
      · rintro (hdead | _ | ⟨hlive', hbody', -, -, -⟩)
        · exact absurd hlive (hdead r)
        · rfl
        · rw [huniq _ hlive', hbody] at hbody'
          simp at hbody'
    | some body =>
      rw [verify_eq_forM hget hbody, forM_eq_error_iff]
      constructor
      · rintro ⟨before, c, after, hchecks, hbefore, hc⟩
        exact .body hlive hbody hchecks (fun y hy => Check.perform_eq_ok_iff.mp (hbefore y hy))
          (Check.perform_eq_error_iff.mp hc)
      · rintro (hdead | ⟨hlive', hbody'⟩ | ⟨hlive', hbody', hchecks, hbefore, hc⟩)
        · exact absurd hlive (hdead r)
        · rw [huniq _ hlive', hbody] at hbody'
          simp at hbody'
        · obtain rfl := huniq _ hlive'
          obtain rfl := Option.some.inj (hbody.symm.trans hbody')
          exact ⟨_, _, _, hchecks, fun y hy => Check.perform_eq_ok_iff.mpr (hbefore y hy),
            Check.perform_eq_error_iff.mpr hc⟩

/-- The check for a returned value stands behind those of the instructions. -/
theorem Body.ret_of_terminator_mem {body : Body} {ret : Option Value}
    (h : Check.terminator ret ∈ body.checks) : body.ret = ret := by
  rcases List.mem_append.mp h with h | h
  · obtain ⟨⟨i, position⟩, -, hi⟩ := List.mem_flatMap.mp h
    simp only [Instruction.checks] at hi
    cases hop : i.operation <;> simp [hop] at hi
  · simpa [eq_comm] using h

/-- In a module that operations have made, no body is refused for want of a returned value. -/
theorem CodeModule.verify_applyAll_ne (name : String) (edits : List Edit) (id : RoutineId) :
    (applyAll (.empty name) edits).verify id ≠ .error .missingTerminator := by
  intro h
  obtain _ | _ | ⟨hlive, hbody, hchecks, -, hc⟩ := verify_eq_error_iff.mp h
  obtain ⟨⟩ := hc
  have hret := Body.ret_of_terminator_mem (hchecks ▸ List.mem_append_right _ List.mem_cons_self)
  have hends := (Ended.empty name).applyAll edits id _ _ ((mem_live_iff _ _ _).mp hlive) hbody
  rw [hret] at hends
  simp at hends

theorem Operation.resultType_eq_truth_iff {operation : Operation} :
    operation.resultType = .truth ↔ ∃ lhs rhs, operation = .binary .less lhs rhs := by
  cases operation with
  | binary op lhs rhs => cases op <;> simp [resultType, BinaryOp.resultType]
  | ofTruth v => simp [resultType]
  | call callee args => simp [resultType]

/-- The check of any routine of any module accepts exactly the live routines with a sound body: one
    in which every operand is defined before it is used and has the type that its place asks for,
    every call is one of a live routine with as many arguments as it takes, and a number is
    returned. Of operations only comparisons yield truth values. An accepted body can be executed
    with any arguments, whatever the called routines yield, and returns a number. A routine that is
    not accepted is refused for its first fault. -/
theorem verify_exact (m : CodeModule) (id : RoutineId) :
    (m.verify id = .ok () ↔
        ∃ r body, (id, r) ∈ m.live ∧ r.body = some body ∧ body.Sound m r.arity) ∧
      (∀ operation : Operation, operation.resultType = .truth ↔
        ∃ lhs rhs, operation = .binary .less lhs rhs) ∧
      (m.verify id = .ok () → ∀ r body, (id, r) ∈ m.live → r.body = some body →
        ∀ answers args, args.length = r.arity →
          ∃ x calls, body.execute answers args = some (x, calls) ∧
            ∀ c ∈ calls, ∃ target, (c.callee, target) ∈ m.live ∧ target.arity = c.args.length) ∧
      ∀ e, m.verify id = .error e ↔ m.FirstFault id e := by
  refine ⟨?_, fun _ => Operation.resultType_eq_truth_iff, ?_, fun _ => verify_eq_error_iff⟩
  · simp only [mem_live_iff]
    exact verify_eq_ok_iff
  · intro hverify r body hlive hbody answers args hargs
    obtain ⟨r', body', hget, hbody', hsound⟩ := verify_eq_ok_iff.mp hverify
    obtain rfl := Option.some.inj (((mem_live_iff _ _ _).mp hlive).symm.trans hget)
    obtain rfl := Option.some.inj (hbody.symm.trans hbody')
    obtain ⟨x, calls, hexecute, hcalls⟩ := hsound.execute answers hargs
    refine ⟨x, calls, hexecute, ?_⟩
    intro c hc
    obtain ⟨target, htarget, harity⟩ := Option.map_eq_some_iff.mp (hcalls c hc)
    exact ⟨target, (mem_live_iff _ _ _).mpr htarget, harity⟩

end Formulary
