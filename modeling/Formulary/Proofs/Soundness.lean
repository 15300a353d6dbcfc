import Formulary.Proofs.Definitions
import Formulary.Proofs.Verification

/-!
# Code is sound by construction

Each instruction that a builder collects uses operands that are defined before it, and calls
routines with as many arguments as they take. So the code of an expression is sound wherever code
can be made at all, and the check of a new body never fails.

* `Emits.sound`: the code of an expression is sound.
* `Prepared.verify_define`: a new body passes the check.
* `lowerFormula_cases`: a definition installs its code, or fails by a fault of its source and
  changes no routine.
-/

namespace Formulary

open CodeModule

/-! ## Code under construction -/

section Construction

variable {m : CodeModule} {arity : Nat} {b b₁ b₂ : Builder}

/-- The operand can be used by the next instruction. -/
def Builder.Offers (b : Builder) (arity : Nat) (t : ValueType) (v : Value) : Prop :=
  Usable b.instructions arity b.instructions.size t v

/-- The second builder has the instructions of the first one and more behind them, all of which
    fit. -/
structure Extends (m : CodeModule) (arity : Nat) (b b' : Builder) : Prop where
  params : b'.params = b.params
  code : b.instructions.toList <+: b'.instructions.toList
  fits : FitsAll m arity b'.instructions

theorem Extends.refl (h : FitsAll m arity b.instructions) : Extends m arity b b :=
  ⟨rfl, List.prefix_rfl, h⟩

theorem Extends.trans (h : Extends m arity b b₁) (h' : Extends m arity b₁ b₂) :
    Extends m arity b b₂ :=
  ⟨h'.params.trans h.params, h.code.trans h'.code, h'.fits⟩

theorem Extends.offers (h : Extends m arity b b₁) {t : ValueType} {v : Value}
    (hv : b.Offers arity t v) : b₁.Offers arity t v := by
  have hle := h.code.length_le
  rw [Array.length_toList, Array.length_toList] at hle
  exact hv.mono h.code hle

/-- An instruction that fits can be emitted, and its result can then be used. -/
theorem Builder.extends_push (hb : FitsAll m arity b.instructions) {operation : Operation}
    (hop : Fits m b.instructions arity b.instructions.size operation) (name : String) :
    Extends m arity b (b.push name operation).2 ∧
      (b.push name operation).2.Offers arity operation.resultType (b.push name operation).1 := by
  have hcode : b.instructions.toList <+: (b.push name operation).2.instructions.toList := by
    show _ <+: (b.instructions.push _).toList
    rw [Array.toList_push]
    exact List.prefix_append _ _
  refine ⟨⟨rfl, hcode, hb.push hop _⟩, ?_⟩
  have hlast : (b.push name operation).2.instructions[b.instructions.size]? =
      some ⟨(b.names.claim name).1, operation⟩ := Array.getElem?_push_size
  have hsize : (b.push name operation).2.instructions.size = b.instructions.size + 1 :=
    Array.size_push _
  exact .result (by omega) hlast

theorem Builder.extends_binary (hb : FitsAll m arity b.instructions) {l r : Value}
    (hl : b.Offers arity .double l) (hr : b.Offers arity .double r) (op : BinaryOp)
    (name : String) :
    Extends m arity b (b.binary op l r name).2 ∧
      (b.binary op l r name).2.Offers arity op.resultType (b.binary op l r name).1 := by
  rcases b.binary_cases op l r name with ⟨x, y, -, -, hfold⟩ | hpush
  · rw [hfold]
    refine ⟨.refl hb, ?_⟩
    cases op with
    | less => exact .truth _
    | add => exact .constant _
    | sub => exact .constant _
    | mul => exact .constant _
  · rw [hpush]
    exact b.extends_push hb (.binary op hl hr) name

theorem Builder.extends_ofTruth (hb : FitsAll m arity b.instructions) {v : Value}
    (hv : b.Offers arity .truth v) (name : String) :
    Extends m arity b (b.ofTruth v name).2 ∧
      (b.ofTruth v name).2.Offers arity .double (b.ofTruth v name).1 := by
  rcases b.ofTruth_cases v name with ⟨flag, -, hfold⟩ | hpush
  · rw [hfold]
    exact ⟨.refl hb, .constant _⟩
  · rw [hpush]
    exact b.extends_push hb (.ofTruth hv) name

/-- The code of an operator fits, and its value is a number. -/
theorem extends_of_emitOperator {op : Char} {l r v : Value}
    (h : emitOperator op l r b = .ok (v, b₁)) (hb : FitsAll m arity b.instructions)
    (hl : b.Offers arity .double l) (hr : b.Offers arity .double r) :
    Extends m arity b b₁ ∧ b₁.Offers arity .double v := by
  rcases emitOperator_eq_ok h with ⟨operation, name, harith, hbinary⟩ |
    ⟨-, flag, b', hbinary, htruth⟩
  · have hstep := b.extends_binary hb hl hr operation name
    rw [hbinary] at hstep
    cases harith <;> exact hstep
  · have hstep := b.extends_binary hb hl hr .less "cmptmp"
    rw [hbinary] at hstep
    obtain ⟨hext, hflag⟩ := hstep
    have hstep' := b'.extends_ofTruth hext.fits hflag "booltmp"
    rw [htruth] at hstep'
    exact ⟨hext.trans hstep'.1, hstep'.2⟩

end Construction

theorem EmitsAll.length_eq {s : Scope} {es : List Expr} {b b' : Builder} {values : List Value}
    (h : EmitsAll s es b values b') : values.length = es.length := by
  induction es generalizing b values with
  | nil =>
    cases h with
    | nil => rfl
  | cons e rest ih =>
    cases h with
    | cons he hrest => rw [List.length_cons, List.length_cons, ih hrest]

-- The induction is on the code that was made; an operand that a builder offers is still offered by
-- the builders behind it, which is why the left operand is at hand when the operator is emitted.
mutual

/-- The code of an expression fits, and its value is a number. -/
theorem Emits.sound {s : Scope} {e : Expr} {b b' : Builder} {v : Value} :
    Emits s e b v b' → FitsAll s.code s.params.length b.instructions →
      Extends s.code s.params.length b b' ∧ b'.Offers s.params.length .double v
  | .number x b => fun hb => ⟨.refl hb, .constant x⟩
  | .var b hi => fun hb => ⟨.refl hb, .param (lastIndex?_lt hi)⟩
  | .binary hl hr hop => by
    intro hb
    obtain ⟨hext₁, hlv⟩ := hl.sound hb
    obtain ⟨hext₂, hrv⟩ := hr.sound hext₁.fits
    obtain ⟨hext₃, hv⟩ := extends_of_emitOperator hop hext₂.fits (hext₂.offers hlv) hrv
    exact ⟨(hext₁.trans hext₂).trans hext₃, hv⟩
  | .call htarget hargs => by
    intro hb
    obtain ⟨hext, hvalues⟩ := hargs.sound hb
    have hcallee := (Scope.lookupCallee_eq_ok_iff.mp htarget).2
    rw [← hargs.length_eq] at hcallee
    obtain ⟨hext', hv⟩ := Builder.extends_push hext.fits (.call hcallee hvalues) "calltmp"
    exact ⟨hext.trans hext', hv⟩

theorem EmitsAll.sound {s : Scope} {es : List Expr} {b b' : Builder} {values : List Value} :
    EmitsAll s es b values b' → FitsAll s.code s.params.length b.instructions →
      Extends s.code s.params.length b b' ∧ ∀ v ∈ values, b'.Offers s.params.length .double v
  | .nil b => fun hb => ⟨.refl hb, by simp⟩
  | .cons he hrest => by
    intro hb
    obtain ⟨hext₁, hv⟩ := he.sound hb
    obtain ⟨hext₂, hvalues⟩ := hrest.sound hext₁.fits
    refine ⟨hext₁.trans hext₂, ?_⟩
    rw [List.forall_mem_cons]
    exact ⟨hext₂.offers hv, hvalues⟩

end

theorem Names.length_claimAll (names : Names) (wanted : List String) :
    (names.claimAll wanted).1.length = wanted.length := by
  induction wanted generalizing names with
  | nil => rfl
  | cons base rest ih =>
    rw [claimAll, List.length_cons, List.length_cons, ih]

/-- The code of a body is sound, and each parameter has a name in it. -/
theorem sound_of_lowerExpr {m : CodeModule} {params : List String} {e : Expr} {ret : Value}
    {b : Builder} (h : lowerExpr ⟨m, params⟩ e (.start params) = .ok (ret, b)) :
    b.params.length = params.length ∧ (b.finish ret).body.Sound m params.length := by
  have hstart : FitsAll m params.length (Builder.start params).instructions := by
    intro k i hi
    simp [Builder.start] at hi
  obtain ⟨hext, hret⟩ := (lowerExpr_eq_ok_iff.mp h).sound hstart
  refine ⟨?_, hext.fits, ret, rfl, hret⟩
  rw [hext.params]
  exact Names.length_claimAll _ _

/-! ## The check of a new body -/

theorem CodeModule.arity?_define {m : CodeModule} {id : RoutineId} {r : Routine}
    (h : m.get? id = some r) {finished : Finished} (hlen : finished.params.length = r.arity)
    (other : RoutineId) : (m.define id finished).2.arity? other = m.arity? other := by
  unfold arity?
  rw [get?_define h]
  split_ifs with hother
  · rw [hother, h, Option.map_some, Option.map_some, ← hlen]
    rfl
  · rfl

section Definition

variable {m declared : CodeModule} {p : Prototype} {id : RoutineId} {e : Expr} {ret : Value}
  {b : Builder}

/-- A new body passes the check. -/
theorem Prepared.verify_define (hp : Prepared m p id declared)
    (h : lowerExpr ⟨declared, p.params⟩ e (.start p.params) = .ok (ret, b)) :
    (declared.define id (b.finish ret)).2.verify id = .ok () := by
  obtain ⟨r, hget, -, -, harity⟩ := hp.get?
  obtain ⟨hlen, hsound⟩ := sound_of_lowerExpr h
  have hparams : (b.finish ret).params.length = r.arity := hlen.trans harity.symm
  refine verify_eq_ok_iff.mpr ⟨_, _, (get?_define hget _ id).trans (if_pos rfl), rfl, ?_⟩
  show (b.finish ret).body.Sound _ b.params.length
  rw [hlen]
  apply hsound.mono
  intro other n hn
  rw [arity?_define hget hparams, hn]

/-- A definition installs the code of its body, or fails by a fault of its source and changes no
    routine. -/
theorem lowerFormula_cases (m : CodeModule) (f : Formula) :
    (∃ id declared ret b, Prepared m f.proto id declared ∧
        lowerExpr ⟨declared, f.proto.params⟩ f.body (.start f.proto.params) = .ok (ret, b) ∧
        lowerFormula m f = (.ok id, (declared.define id (b.finish ret)).2)) ∨
      ∃ e m', lowerFormula m f = (.error e, m') ∧ e.IsOfSource ∧ SameRoutines m m' := by
  rcases h : lowerFormula m f with ⟨result, m'⟩
  cases result with
  | ok id =>
    obtain ⟨declared, ret, b, hp, hexpr, rfl, -⟩ := lowerFormula_eq_ok_iff.mp h
    exact .inl ⟨id, declared, ret, b, hp, hexpr, rfl⟩
  | error e =>
    obtain ⟨hsame, hverify⟩ := lowerFormula_eq_error h
    refine .inr ⟨e, m', rfl, ?_, hsame⟩
    intro name reason hreason
    obtain ⟨id, declared, ret, b, hp, hexpr, hfail⟩ := hverify name reason hreason
    rw [hp.verify_define hexpr] at hfail
    simp at hfail

end Definition

end Formulary
