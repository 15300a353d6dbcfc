import Formulary.Code.Verify
import Formulary.Proofs.Emission
import Formulary.Proofs.Routines

/-!
# What the check accepts

The check walks through a body and reports the first fault. It accepts exactly the bodies in which
every operand is defined before it is used and has the type that its place asks for, and in which
every call passes as many arguments as the called routine takes.

* `Usable`: an operand can be used at a position.
* `Fits`, `FitsAll`: an operation, and all operations of a body, use their operands rightly.
* `Body.Sound`: a body that can be executed.
* `CodeModule.verify_eq_ok_iff`: the check accepts exactly the sound bodies.
* `Body.Sound.mono`: a body stays sound while the routines it calls stay.
-/

namespace Formulary

/-! ## Sound bodies -/

/-- `Usable code arity position t v`: in a routine with `arity` parameters and the instructions
    `code`, the operand `v` is defined before `position` and has the type `t`. -/
inductive Usable (code : Array Instruction) (arity position : Nat) : ValueType → Value → Prop
  | constant (x : Double) : Usable code arity position .double (.constant x)
  | truth (flag : Bool) : Usable code arity position .truth (.truth flag)
  | param {index : Nat} (hindex : index < arity) :
      Usable code arity position .double (.param index)
  | result {earlier : Nat} {i : Instruction} (hearlier : earlier < position)
      (hi : code[earlier]? = some i) :
      Usable code arity position i.operation.resultType (.result earlier)

/-- `Fits m code arity position operation`: the operation can stand at the position. The routine it
    calls, if any, is one of the module `m`. -/
inductive Fits (m : CodeModule) (code : Array Instruction) (arity position : Nat) :
    Operation → Prop
  | binary (op : BinaryOp) {lhs rhs : Value} (hl : Usable code arity position .double lhs)
      (hr : Usable code arity position .double rhs) :
      Fits m code arity position (.binary op lhs rhs)
  | ofTruth {v : Value} (hv : Usable code arity position .truth v) :
      Fits m code arity position (.ofTruth v)
  | call {callee : RoutineId} {args : List Value} (hcallee : m.arity? callee = some args.length)
      (hargs : ∀ v ∈ args, Usable code arity position .double v) :
      Fits m code arity position (.call callee args)

/-- Each of the instructions can stand where it stands. -/
def FitsAll (m : CodeModule) (arity : Nat) (code : Array Instruction) : Prop :=
  ∀ position i, code[position]? = some i → Fits m code arity position i.operation

/-- All instructions of the body can stand where they stand, and a number is returned. -/
structure Body.Sound (m : CodeModule) (arity : Nat) (body : Body) : Prop where
  fits : FitsAll m arity body.instructions
  ret : ∃ v, body.ret = some v ∧
    Usable body.instructions arity body.instructions.size .double v

/-! ## The check -/

section Check

variable {body : Body} {m : CodeModule} {arity position : Nat} {inst : String}

theorem Except.then_eq_ok_iff {ε : Type} {x y : Except ε Unit} :
    (x >>= fun _ => y) = .ok () ↔ x = .ok () ∧ y = .ok () := by
  rw [Except.bind_eq_ok_iff]
  constructor
  · rintro ⟨done, hx, hy⟩
    exact ⟨hx, hy⟩
  · rintro ⟨hx, hy⟩
    exact ⟨(), hx, hy⟩

theorem Body.checkOperand_eq_ok_iff {t : ValueType} {v : Value} :
    body.checkOperand arity inst position t v = .ok () ↔
      Usable body.instructions arity position t v := by
  constructor
  · intro h
    unfold checkOperand at h
    split at h
    · next hdefined =>
      split at h
      · next found hfound =>
        split at h
        · next htype =>
          subst htype
          cases v with
          | constant x =>
            obtain rfl := Option.some.inj hfound
            exact .constant x
          | truth flag =>
            obtain rfl := Option.some.inj hfound
            exact .truth flag
          | param index =>
            obtain rfl := Option.some.inj hfound
            exact .param (by simpa [Value.isDefinedAt] using hdefined)
          | result earlier =>
            obtain ⟨i, hi, rfl⟩ := Option.map_eq_some_iff.mp hfound
            exact .result (by simpa [Value.isDefinedAt] using hdefined) hi
        · simp at h
      · simp at h
    · simp at h
  · intro h
    cases h with
    | constant x => simp [checkOperand, Value.isDefinedAt, typeOf?]
    | truth flag => simp [checkOperand, Value.isDefinedAt, typeOf?]
    | param hindex => simp [checkOperand, Value.isDefinedAt, typeOf?, hindex]
    | result hearlier hi => simp [checkOperand, Value.isDefinedAt, typeOf?, hearlier, hi]

theorem Body.checkOperands_eq_ok_iff {t : ValueType} {values : List Value} :
    body.checkOperands arity inst position t values = .ok () ↔
      ∀ v ∈ values, Usable body.instructions arity position t v := by
  induction values with
  | nil => simp [checkOperands]
  | cons v rest ih =>
    rw [checkOperands, Except.then_eq_ok_iff, checkOperand_eq_ok_iff, ih, List.forall_mem_cons]

theorem Body.checkInstruction_eq_ok_iff {i : Instruction} :
    body.checkInstruction m arity position i = .ok () ↔
      Fits m body.instructions arity position i.operation := by
  unfold checkInstruction
  cases hi : i.operation with
  | binary op lhs rhs =>
    simp only [checkOperands_eq_ok_iff, List.forall_mem_cons, List.not_mem_nil, false_implies,
      implies_true, and_true]
    constructor
    · rintro ⟨hl, hr⟩
      exact .binary op hl hr
    · rintro (⟨op, hl, hr⟩ | _ | _)
      exact ⟨hl, hr⟩
  | ofTruth v =>
    simp only [checkOperand_eq_ok_iff]
    constructor
    · exact .ofTruth
    · rintro (_ | hv | _)
      exact hv
  | call callee args =>
    constructor
    · intro h
      simp only at h
      split at h
      · simp at h
      · next target htarget =>
        split at h
        · next harity =>
          refine .call ?_ (checkOperands_eq_ok_iff.mp h)
          rw [CodeModule.arity?, htarget, Option.map_some, harity]
        · simp at h
    · rintro (_ | _ | ⟨hcallee, hargs⟩)
      obtain ⟨target, htarget, harity⟩ := Option.map_eq_some_iff.mp hcallee
      simp only [htarget, harity, ↓reduceIte]
      exact checkOperands_eq_ok_iff.mpr hargs

theorem Body.checkInstructions_eq_ok_iff {instructions : List Instruction} :
    body.checkInstructions m arity position instructions = .ok () ↔
      ∀ k i, instructions[k]? = some i →
        Fits m body.instructions arity (position + k) i.operation := by
  induction instructions generalizing position with
  | nil => simp [checkInstructions]
  | cons i rest ih =>
    rw [checkInstructions, Except.then_eq_ok_iff, checkInstruction_eq_ok_iff, ih]
    constructor
    · rintro ⟨hi, hrest⟩ k j hj
      cases k with
      | zero =>
        obtain rfl := Option.some.inj hj
        exact hi
      | succ k =>
        have := hrest k j hj
        rwa [Nat.add_assoc, Nat.add_comm 1 k] at this
    · intro h
      refine ⟨h 0 i rfl, ?_⟩
      intro k j hj
      have := h (k + 1) j hj
      rwa [Nat.add_comm k 1, ← Nat.add_assoc] at this

theorem Body.checkReturn_eq_ok_iff :
    body.checkReturn arity = .ok () ↔
      ∃ v, body.ret = some v ∧ Usable body.instructions arity body.instructions.size .double v := by
  unfold checkReturn
  cases body.ret with
  | none => simp
  | some v => simp [checkOperand_eq_ok_iff]

end Check

/-- The check accepts exactly the routines that have a sound body. -/
theorem CodeModule.verify_eq_ok_iff {m : CodeModule} {id : RoutineId} :
    m.verify id = .ok () ↔
      ∃ r body, m.get? id = some r ∧ r.body = some body ∧ body.Sound m r.arity := by
  unfold verify
  cases hget : m.get? id with
  | none => simp
  | some r =>
    cases hbody : r.body with
    | none => simp [hbody]
    | some body =>
      simp only [hbody]
      rw [Except.then_eq_ok_iff, Body.checkInstructions_eq_ok_iff, Body.checkReturn_eq_ok_iff]
      simp only [Nat.zero_add, Array.getElem?_toList]
      constructor
      · rintro ⟨hfits, hret⟩
        exact ⟨r, body, rfl, hbody, hfits, hret⟩
      · rintro ⟨r', body', hr, hbody', hfits, hret⟩
        obtain rfl := Option.some.inj hr
        obtain rfl := Option.some.inj (hbody.symm.trans hbody')
        exact ⟨hfits, hret⟩

/-! ## Sound code stays sound -/

section Growth

variable {m m' : CodeModule} {code code' : Array Instruction} {arity position position' : Nat}

theorem getElem?_mono (h : code.toList <+: code'.toList) {k : Nat} {i : Instruction}
    (hi : code[k]? = some i) : code'[k]? = some i := by
  obtain ⟨more, hmore⟩ := h
  rw [← Array.getElem?_toList] at hi ⊢
  obtain ⟨hk, -⟩ := List.getElem?_eq_some_iff.mp hi
  rw [← hmore, List.getElem?_append_left hk, hi]

/-- An operand can still be used later, and behind more instructions. -/
theorem Usable.mono {t : ValueType} {v : Value} (h : Usable code arity position t v)
    (hcode : code.toList <+: code'.toList) (hle : position ≤ position') :
    Usable code' arity position' t v := by
  cases h with
  | constant x => exact .constant x
  | truth flag => exact .truth flag
  | param hindex => exact .param hindex
  | result hearlier hi => exact .result (by omega) (getElem?_mono hcode hi)

/-- An operation still fits when instructions are added behind, and when routines are added to the
    module. -/
theorem Fits.mono {operation : Operation} (h : Fits m code arity position operation)
    (hcode : code.toList <+: code'.toList)
    (hm : ∀ id n, m.arity? id = some n → m'.arity? id = some n) :
    Fits m' code' arity position operation := by
  cases h with
  | binary op hl hr => exact .binary op (hl.mono hcode le_rfl) (hr.mono hcode le_rfl)
  | ofTruth hv => exact .ofTruth (hv.mono hcode le_rfl)
  | call hcallee hargs =>
    exact .call (hm _ _ hcallee) fun v hv => (hargs v hv).mono hcode le_rfl

theorem Fits.get?_callee {callee : RoutineId} {args : List Value}
    (h : Fits m code arity position (.call callee args)) :
    ∃ target, m.get? callee = some target := by
  cases h with
  | call hcallee hargs =>
    obtain ⟨target, htarget, -⟩ := Option.map_eq_some_iff.mp hcallee
    exact ⟨target, htarget⟩

theorem FitsAll.push (h : FitsAll m arity code) {operation : Operation}
    (hop : Fits m code arity code.size operation) (name : String) :
    FitsAll m arity (code.push ⟨name, operation⟩) := by
  have hprefix : code.toList <+: (code.push ⟨name, operation⟩).toList := by
    rw [Array.toList_push]
    exact List.prefix_append _ _
  intro k i hi
  rw [Array.getElem?_push] at hi
  split at hi
  · next hk =>
    obtain rfl := Option.some.inj hi
    rw [hk]
    exact hop.mono hprefix fun _ _ => id
  · exact (h k i hi).mono hprefix fun _ _ => id

/-- A body stays sound while the routines it calls keep their numbers of parameters. -/
theorem Body.Sound.mono {body : Body} (h : body.Sound m arity)
    (hm : ∀ id n, m.arity? id = some n → m'.arity? id = some n) : body.Sound m' arity :=
  ⟨fun k i hi => (h.fits k i hi).mono List.prefix_rfl hm, h.ret⟩

end Growth

end Formulary
