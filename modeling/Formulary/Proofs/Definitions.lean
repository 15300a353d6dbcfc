import Formulary.Lowering.Construct
import Formulary.Proofs.Emission
import Formulary.Proofs.Routines

/-!
# What a declaration and a definition do to a module

A definition first prepares a routine: it declares a new one, or takes one that was declared
before without a body and with as many parameters. Then it makes code for the body, installs it and
checks it. Every way in which it can fail leaves the routines of the module as they were.

* `lowerPrototype_cases`: what a declaration does.
* `Prepared`: the routine that gets the body.
* `prepared_or_refused`: a definition prepares a routine or is refused at once.
* `lowerFormula_eq_ok_iff`: a definition that succeeds installs the code of its body.
* `lowerFormula_eq_error`: a definition that fails changes no routine.
-/

namespace Formulary

open CodeModule

/-- Both modules have the same name and the same routines at the same places. They can differ in
    slots that are empty. -/
structure SameRoutines (m m' : CodeModule) : Prop where
  name : m'.name = m.name
  get? : ∀ id, m'.get? id = m.get? id

theorem SameRoutines.refl (m : CodeModule) : SameRoutines m m := ⟨rfl, fun _ => rfl⟩

/-! ## Declarations -/

theorem lowerPrototype_of_none {m : CodeModule} {p : Prototype} (h : m.find? p.name = none) :
    lowerPrototype m p = (.ok ⟨m.slots.size⟩, (m.declare p.name p.params).2) := by
  unfold lowerPrototype
  rw [h]
  rfl

theorem lowerPrototype_of_some {m : CodeModule} {p : Prototype} {id : RoutineId} {r : Routine}
    (hfind : m.find? p.name = some id) (hget : m.get? id = some r) :
    lowerPrototype m p = if r.arity = p.params.length then (.ok id, m)
      else (.error (.signatureMismatch p.name r.arity p.params.length), m) := by
  unfold lowerPrototype
  rw [hfind]
  simp only [hget, Option.map_some, Option.getD_some]

theorem CodeModule.get?_of_find? {m : CodeModule} {name : String} {id : RoutineId}
    (h : m.find? name = some id) : ∃ r, m.get? id = some r ∧ r.name = name :=
  (find?_eq_some_iff.mp h).2.1

/-- A declaration adds a routine, finds one with as many parameters, or is refused. -/
theorem lowerPrototype_cases (m : CodeModule) (p : Prototype) :
    m.find? p.name = none ∧
        lowerPrototype m p = (.ok ⟨m.slots.size⟩, (m.declare p.name p.params).2) ∨
      (∃ id, m.find? p.name = some id ∧ m.arity? id = some p.params.length ∧
        lowerPrototype m p = (.ok id, m)) ∨
      ∃ e, lowerPrototype m p = (.error e, m) ∧ e.IsOfSource := by
  cases hfind : m.find? p.name with
  | none => exact .inl ⟨rfl, lowerPrototype_of_none hfind⟩
  | some id =>
    obtain ⟨r, hget, -⟩ := get?_of_find? hfind
    rw [lowerPrototype_of_some hfind hget]
    by_cases harity : r.arity = p.params.length
    · refine .inr (.inl ⟨id, rfl, ?_, if_pos harity⟩)
      rw [arity?, hget, Option.map_some, harity]
    · exact .inr (.inr ⟨_, if_neg harity, by simp [LowerError.IsOfSource]⟩)

/-- A call refers to the routine that is found by name, if it passes as many arguments as that
    takes. -/
theorem Scope.lookupCallee_eq_ok_iff {s : Scope} {name : String} {found : Nat} {id : RoutineId} :
    s.lookupCallee name found = .ok id ↔
      s.code.find? name = some id ∧ s.code.arity? id = some found := by
  unfold lookupCallee arity?
  cases hfind : s.code.find? name with
  | none => simp
  | some other =>
    obtain ⟨r, hget, -⟩ := get?_of_find? hfind
    simp only [hget, Option.map_some, Option.getD_some]
    constructor
    · intro h
      split at h
      · next harity =>
        obtain rfl := Except.ok.inj h
        rw [hget, Option.map_some, harity]
        exact ⟨rfl, rfl⟩
      · simp at h
    · rintro ⟨hid, harity⟩
      obtain rfl := Option.some.inj hid
      rw [hget, Option.map_some, Option.some.injEq] at harity
      rw [if_pos harity]

/-! ## The routine that gets a body -/

/-- `Prepared m p id declared`: a definition with the prototype `p` gives its body to the routine
    at `id` of the module `declared`. -/
inductive Prepared (m : CodeModule) (p : Prototype) : RoutineId → CodeModule → Prop
  | fresh (hfind : m.find? p.name = none) :
      Prepared m p ⟨m.slots.size⟩ (m.declare p.name p.params).2
  | declared {id : RoutineId} {r : Routine} (hfind : m.find? p.name = some id)
      (hget : m.get? id = some r) (hbody : r.body = none) (harity : r.arity = p.params.length) :
      Prepared m p id m

namespace Prepared

variable {m declared : CodeModule} {p : Prototype} {id : RoutineId}

/-- The prepared routine has the name and as many parameters as the prototype, and no body. -/
theorem get? (h : Prepared m p id declared) :
    ∃ r, declared.get? id = some r ∧ r.name = p.name ∧ r.body = none ∧
      r.arity = p.params.length := by
  cases h with
  | fresh hfind => exact ⟨_, by rw [get?_declare, if_pos rfl], rfl, rfl, rfl⟩
  | declared hfind hget hbody harity =>
    obtain ⟨r', hr', hname⟩ := get?_of_find? hfind
    rw [hget] at hr'
    obtain rfl := Option.some.inj hr'
    exact ⟨_, hget, hname, hbody, harity⟩

theorem get?_of_ne (h : Prepared m p id declared) {other : RoutineId} (hne : other ≠ id) :
    declared.get? other = m.get? other := by
  cases h with
  | fresh hfind =>
    rw [get?_declare, if_neg]
    intro hindex
    exact hne (by rw [← hindex])
  | declared => rfl

theorem get?_of_some (h : Prepared m p id declared) {other : RoutineId} {r : Routine}
    (hr : m.get? other = some r) : declared.get? other = some r := by
  cases h with
  | fresh hfind =>
    have hlt := index_lt_of_get? hr
    rw [get?_declare, if_neg (by omega), hr]
  | declared => exact hr

theorem lowerPrototype_eq (h : Prepared m p id declared) :
    lowerPrototype m p = (.ok id, declared) := by
  cases h with
  | fresh hfind => exact lowerPrototype_of_none hfind
  | declared hfind hget hbody harity => rw [lowerPrototype_of_some hfind hget, if_pos harity]

theorem not_isDefined (h : Prepared m p id declared) : isDefined m p.name = false := by
  cases h with
  | fresh hfind => simp [isDefined, hfind]
  | declared hfind hget hbody harity =>
    simp [isDefined, hfind, hget, Routine.isDeclaration, hbody]

end Prepared

/-- A definition prepares a routine, or is refused before any code is made. -/
theorem prepared_or_refused (m : CodeModule) (f : Formula) :
    (∃ id declared, Prepared m f.proto id declared) ∨
      ∃ e, lowerFormula m f = (.error e, m) ∧ e.IsOfSource := by
  cases hfind : m.find? f.proto.name with
  | none => exact .inl ⟨_, _, .fresh hfind⟩
  | some id =>
    obtain ⟨r, hget, -⟩ := get?_of_find? hfind
    cases hbody : r.body with
    | some body =>
      have hdefined : isDefined m f.proto.name = true := by
        simp [isDefined, hfind, hget, Routine.isDeclaration, hbody]
      refine .inr ⟨.redefinition f.proto.name, ?_, by simp [LowerError.IsOfSource]⟩
      simp [lowerFormula, hdefined]
    | none =>
      by_cases harity : r.arity = f.proto.params.length
      · exact .inl ⟨_, _, .declared hfind hget hbody harity⟩
      · have hdefined : isDefined m f.proto.name = false := by
          simp [isDefined, hfind, hget, Routine.isDeclaration, hbody]
        refine .inr ⟨.signatureMismatch f.proto.name r.arity f.proto.params.length, ?_,
          by simp [LowerError.IsOfSource]⟩
        simp [lowerFormula, hdefined, lowerPrototype_of_some hfind hget, harity]

/-! ## Definitions -/

section Definition

variable {m declared m' : CodeModule} {f : Formula} {id : RoutineId}

/-- What a definition does once its routine is prepared. -/
theorem lowerFormula_of_prepared (h : Prepared m f.proto id declared) :
    lowerFormula m f =
      match lowerExpr ⟨declared, f.proto.params⟩ f.body (.start f.proto.params) with
      | .error e =>
        (.error e, if (m.find? f.proto.name).isNone then (declared.erase id).2 else declared)
      | .ok (ret, b) =>
        let defined := (declared.define id (b.finish ret)).2
        match defined.verify id with
        | .ok () => (.ok id, defined)
        | .error e =>
          (.error (.verification f.proto.name e),
            if (m.find? f.proto.name).isNone then (defined.erase id).2
            else defined.clearBody id (declared.define id (b.finish ret)).1) := by
  have hdefined : ¬ isDefined m f.proto.name = true := by
    simp [h.not_isDefined]
  refine (if_neg hdefined).trans ?_
  rewrite [h.lowerPrototype_eq]
  rfl

/-- Taking a new routine out again leaves the routines from before. -/
theorem sameRoutines_erase (h : Prepared m f.proto id declared) (hnew : m.find? f.proto.name = none)
    {changed : CodeModule} (hname : changed.name = m.name)
    (hchanged : ∀ other, other ≠ id → changed.get? other = declared.get? other) :
    SameRoutines m (changed.erase id).2 := by
  refine ⟨hname, ?_⟩
  intro other
  rw [get?_erase]
  split_ifs with hother
  · cases h with
    | fresh => rw [hother, get?_size]
    | declared hfind => simp [hnew] at hfind
  · rw [hchanged other hother, h.get?_of_ne hother]

/-- Taking a body away again leaves the routine as it was declared. -/
theorem sameRoutines_clearBody {r : Routine} (hget : m.get? id = some r) (hbody : r.body = none)
    (finished : Finished) :
    SameRoutines m ((m.define id finished).2.clearBody id (m.define id finished).1) := by
  have hfound := get?_define hget finished
  have hparams : (m.define id finished).1 = r.params := by
    simp [define, hget]
  refine ⟨by simp, ?_⟩
  intro other
  rw [get?_clearBody ((hfound id).trans (if_pos rfl)), hfound, hparams]
  by_cases hother : other = id
  · simp only [hother, ↓reduceIte]
    rw [hget, ← hbody]
  · simp only [hother, ↓reduceIte]

/-- A definition succeeds exactly when code can be made for its body and passes the check. -/
theorem lowerFormula_eq_ok_iff :
    lowerFormula m f = (.ok id, m') ↔
      ∃ declared ret b, Prepared m f.proto id declared ∧
        lowerExpr ⟨declared, f.proto.params⟩ f.body (.start f.proto.params) = .ok (ret, b) ∧
        m' = (declared.define id (b.finish ret)).2 ∧ m'.verify id = .ok () := by
  constructor
  · intro h
    rcases prepared_or_refused m f with ⟨id', declared, hp⟩ | ⟨e, he, -⟩
    · rw [lowerFormula_of_prepared hp] at h
      split at h
      · simp at h
      · next ret b hexpr =>
        simp only at h
        split at h
        · next hverify =>
          obtain ⟨hid, rfl⟩ := Prod.mk.inj h
          obtain rfl := Except.ok.inj hid
          exact ⟨declared, ret, b, hp, hexpr, rfl, hverify⟩
        · simp at h
    · rw [he] at h
      simp at h
  · rintro ⟨declared, ret, b, hp, hexpr, rfl, hverify⟩
    rw [lowerFormula_of_prepared hp, hexpr]
    simp only [hverify]

/-- A definition that fails changes no routine. It fails the check only if the code of its body
    does. -/
theorem lowerFormula_eq_error {e : LowerError} (h : lowerFormula m f = (.error e, m')) :
    SameRoutines m m' ∧ ∀ name reason, e = .verification name reason →
      ∃ id declared ret b, Prepared m f.proto id declared ∧
        lowerExpr ⟨declared, f.proto.params⟩ f.body (.start f.proto.params) = .ok (ret, b) ∧
        (declared.define id (b.finish ret)).2.verify id = .error reason := by
  rcases prepared_or_refused m f with ⟨id, declared, hp⟩ | ⟨e', he, hne⟩
  · obtain ⟨r, hget, -⟩ := hp.get?
    rw [lowerFormula_of_prepared hp] at h
    split at h
    · next hexpr =>
      obtain ⟨he, rfl⟩ := Prod.mk.inj h
      obtain rfl := Except.error.inj he
      refine ⟨?_, fun name reason hreason => absurd hreason (lowerExpr_error _ hexpr name reason)⟩
      cases hp with
      | fresh hfind =>
        simp only [hfind, Option.isNone_none, ↓reduceIte]
        exact sameRoutines_erase (.fresh hfind) hfind rfl fun _ _ => rfl
      | declared hfind => simpa [hfind] using SameRoutines.refl m
    · next ret b hexpr =>
      simp only at h
      split at h
      · simp at h
      · next reason hverify =>
        obtain ⟨he, rfl⟩ := Prod.mk.inj h
        obtain rfl := Except.error.inj he
        refine ⟨?_, fun name reason' hreason => ?_⟩
        · cases hp with
          | fresh hfind =>
            simp only [hfind, Option.isNone_none, ↓reduceIte]
            refine sameRoutines_erase (.fresh hfind) hfind (name_define _ _ _) ?_
            intro other hother
            rw [get?_define hget, if_neg hother]
          | declared hfind hget' hbody harity =>
            simp only [hfind, Option.isNone_some, Bool.false_eq_true, ↓reduceIte]
            exact sameRoutines_clearBody hget' hbody _
        · obtain ⟨-, rfl⟩ := LowerError.verification.inj hreason
          exact ⟨id, declared, ret, b, hp, hexpr, hverify⟩
  · rw [he] at h
    obtain ⟨he', rfl⟩ := Prod.mk.inj h
    obtain rfl := Except.error.inj he'
    exact ⟨.refl m, fun name reason hreason => absurd hreason (hne name reason)⟩

end Definition

end Formulary
