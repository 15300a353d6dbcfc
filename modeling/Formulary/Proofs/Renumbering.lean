import Formulary.Proofs.Requests

/-!
# The same routines at other places

Two modules can hold the same routines, in the same order but at different places. Their bodies
then call the same routines by different places. Whatever can be done to one of the modules can be
done to the other one, and leads to modules that again hold the same routines.

* `Routine.renumber`: a routine that calls the same routines at other places.
* `Renumbered`: the second module holds the routines of the first one in the same order.
* `Emits.renumber`: the code of an expression is the same but for the places.
* `Renumbered.lowerConstruct`: what succeeds in the first module succeeds in the second one.
-/

namespace Formulary

open CodeModule

/-! ## Other places -/

/-- The operation with the called routine at another place. -/
def Operation.renumber (ρ : RoutineId → RoutineId) : Operation → Operation
  | binary op lhs rhs => binary op lhs rhs
  | ofTruth v => ofTruth v
  | call callee args => call (ρ callee) args

/-- The instruction with the called routine at another place. -/
def Instruction.renumber (ρ : RoutineId → RoutineId) (i : Instruction) : Instruction :=
  ⟨i.name, i.operation.renumber ρ⟩

/-- The body with all called routines at other places. -/
def Body.renumber (ρ : RoutineId → RoutineId) (body : Body) : Body :=
  ⟨body.instructions.map (·.renumber ρ), body.ret⟩

/-- The routine with all called routines at other places. -/
def Routine.renumber (ρ : RoutineId → RoutineId) (r : Routine) : Routine :=
  ⟨r.name, r.params, r.body.map (·.renumber ρ)⟩

/-- The builder with all called routines at other places. -/
def Builder.renumber (ρ : RoutineId → RoutineId) (b : Builder) : Builder :=
  ⟨b.params, b.instructions.map (·.renumber ρ), b.names⟩

section Places

variable {ρ ρ' : RoutineId → RoutineId}

@[simp] theorem Operation.resultType_renumber (operation : Operation) :
    (operation.renumber ρ).resultType = operation.resultType := by
  cases operation <;> rfl

@[simp] theorem Routine.isAnonymous_renumber (r : Routine) :
    (r.renumber ρ).isAnonymous = r.isAnonymous := rfl

@[simp] theorem Builder.renumber_start (params : List String) :
    (Builder.start params).renumber ρ = .start params := by
  simp [start, Builder.renumber]

theorem Builder.push_renumber (b : Builder) (name : String) (operation : Operation) :
    (b.renumber ρ).push name (operation.renumber ρ) =
      ((b.push name operation).1, (b.push name operation).2.renumber ρ) := by
  simp [push, Builder.renumber, Instruction.renumber]

theorem Builder.binary_renumber (b : Builder) (op : BinaryOp) (l r : Value) (name : String) :
    (b.renumber ρ).binary op l r name =
      ((b.binary op l r name).1, (b.binary op l r name).2.renumber ρ) := by
  unfold binary
  split
  · rfl
  · exact b.push_renumber name (.binary op l r)

theorem Builder.ofTruth_renumber (b : Builder) (v : Value) (name : String) :
    (b.renumber ρ).ofTruth v name =
      ((b.ofTruth v name).1, (b.ofTruth v name).2.renumber ρ) := by
  unfold ofTruth
  split
  · rfl
  · exact b.push_renumber name (.ofTruth v)

theorem emitOperator_renumber (op : Char) (l r : Value) (b : Builder) :
    emitOperator op l r (b.renumber ρ) =
      (emitOperator op l r b).map fun (v, b') => (v, b'.renumber ρ) := by
  unfold emitOperator
  split
  · rw [Builder.binary_renumber]
    rfl
  · rw [Builder.binary_renumber]
    rfl
  · rw [Builder.binary_renumber]
    rfl
  · simp only [Builder.binary_renumber, Builder.ofTruth_renumber]
    rfl
  · rfl

/-- Only the places of called routines matter. -/
theorem Body.renumber_congr {m : CodeModule} {arity : Nat} {body : Body} (h : body.Sound m arity)
    (hρ : ∀ id r, m.get? id = some r → ρ' id = ρ id) : body.renumber ρ' = body.renumber ρ := by
  unfold Body.renumber
  congr 1
  apply Array.map_congr_left
  intro i hi
  obtain ⟨k, hk⟩ := Array.mem_iff_getElem?.mp hi
  have hfits := h.fits k i hk
  unfold Instruction.renumber
  cases hop : i.operation with
  | binary op lhs rhs => rfl
  | ofTruth v => rfl
  | call callee args =>
    rw [hop] at hfits
    obtain ⟨target, htarget⟩ := hfits.get?_callee
    rw [Operation.renumber, Operation.renumber, hρ callee target htarget]

/-- In a sound module only the places of its routines matter. -/
theorem CodeModule.Sound.renumber_congr {m : CodeModule} (h : m.Sound) {id : RoutineId}
    {r : Routine} (hr : m.get? id = some r) (hρ : ∀ id r, m.get? id = some r → ρ' id = ρ id) :
    r.renumber ρ' = r.renumber ρ := by
  unfold Routine.renumber
  congr 1
  cases hbody : r.body with
  | none => rfl
  | some body =>
    have hsound := h.body_sound hr hbody
    rw [Option.map_some, Option.map_some, Body.renumber_congr hsound hρ]

end Places

/-! ## The same routines -/

/-- `Renumbered ρ m m'`: the module `m'` has the routines of `m` in the same order, the one at `id`
    at the place `ρ id`. -/
structure Renumbered (ρ : RoutineId → RoutineId) (m m' : CodeModule) : Prop where
  name : m'.name = m.name
  get? : ∀ id r, m.get? id = some r → m'.get? (ρ id) = some (r.renumber ρ)
  onto : ∀ id' r', m'.get? id' = some r' → ∃ id r, m.get? id = some r ∧ ρ id = id'
  mono : ∀ a b r q, m.get? a = some r → m.get? b = some q → a.index < b.index →
    (ρ a).index < (ρ b).index

namespace Renumbered

variable {ρ : RoutineId → RoutineId} {m m₁ m' : CodeModule}

theorem empty (name : String) : Renumbered id (.empty name) (.empty name) := by
  have hnone : ∀ id, (CodeModule.empty name).get? id = none := by
    intro id
    simp [CodeModule.get?, CodeModule.empty]
  refine ⟨rfl, ?_, ?_, ?_⟩
  · intro id r hr
    simp [hnone] at hr
  · intro id r hr
    simp [hnone] at hr
  · intro a b r q hr
    simp [hnone] at hr

theorem of_sameRoutines (h : Renumbered ρ m m') (hsame : SameRoutines m m₁) :
    Renumbered ρ m₁ m' := by
  refine ⟨h.name.trans hsame.name.symm, ?_, ?_, ?_⟩
  · intro id r hr
    rw [hsame.get?] at hr
    exact h.get? id r hr
  · intro id' r' hr'
    obtain ⟨id, r, hr, hid⟩ := h.onto id' r' hr'
    exact ⟨id, r, by rw [hsame.get?, hr], hid⟩
  · intro a b r q hr hq
    rw [hsame.get?] at hr hq
    exact h.mono a b r q hr hq

/-- A place of the second module is that of one routine of the first one. -/
theorem exists_get? (h : Renumbered ρ m m') {id' : RoutineId} {r' : Routine}
    (hr' : m'.get? id' = some r') :
    ∃ id r, m.get? id = some r ∧ ρ id = id' ∧ r' = r.renumber ρ := by
  obtain ⟨id, r, hr, hid⟩ := h.onto id' r' hr'
  refine ⟨id, r, hr, hid, ?_⟩
  have := h.get? id r hr
  rw [hid, hr'] at this
  exact Option.some.inj this

theorem lt_iff (h : Renumbered ρ m m') {a b : RoutineId} {r q : Routine} (hr : m.get? a = some r)
    (hq : m.get? b = some q) : (ρ a).index < (ρ b).index ↔ a.index < b.index := by
  refine ⟨?_, h.mono a b r q hr hq⟩
  intro hlt
  rcases Nat.lt_trichotomy a.index b.index with hab | hab | hab
  · exact hab
  · obtain ⟨i⟩ := a
    obtain ⟨j⟩ := b
    obtain rfl : i = j := hab
    omega
  · have := h.mono b a q r hq hr hab
    omega

theorem injective (h : Renumbered ρ m m') {a b : RoutineId} {r q : Routine}
    (hr : m.get? a = some r) (hq : m.get? b = some q) (heq : ρ a = ρ b) : a = b := by
  obtain ⟨i⟩ := a
  obtain ⟨j⟩ := b
  have hij := h.lt_iff hr hq
  have hji := h.lt_iff hq hr
  rw [heq] at hij hji
  simp only [Nat.lt_irrefl, false_iff, Nat.not_lt] at hij hji
  exact congrArg RoutineId.mk (Nat.le_antisymm hji hij)

theorem find?_of_some (h : Renumbered ρ m m') {name : String} {id : RoutineId}
    (hfind : m.find? name = some id) : m'.find? name = some (ρ id) := by
  obtain ⟨hne, ⟨r, hr, hname⟩, hfirst⟩ := find?_eq_some_iff.mp hfind
  refine find?_eq_some_iff.mpr ⟨hne, ⟨_, h.get? id r hr, hname⟩, ?_⟩
  intro earlier' q' hlt hq'
  obtain ⟨earlier, q, hq, rfl, rfl⟩ := h.exists_get? hq'
  exact hfirst earlier q ((h.lt_iff hq hr).mp hlt) hq

theorem find?_of_none (h : Renumbered ρ m m') {name : String} (hfind : m.find? name = none) :
    m'.find? name = none := by
  rw [find?_eq_none_iff] at hfind ⊢
  rcases hfind with hempty | hall
  · exact .inl hempty
  · right
    intro id' r' hr'
    obtain ⟨id, r, hr, -, rfl⟩ := h.exists_get? hr'
    exact hall id r hr

theorem arity? (h : Renumbered ρ m m') {id : RoutineId} {n : Nat} (hn : m.arity? id = some n) :
    m'.arity? (ρ id) = some n := by
  obtain ⟨r, hr, rfl⟩ := Option.map_eq_some_iff.mp hn
  rw [CodeModule.arity?, h.get? id r hr]
  rfl

theorem lookupCallee (h : Renumbered ρ m m') {params : List String} {name : String} {found : Nat}
    {id : RoutineId} (hid : Scope.lookupCallee ⟨m, params⟩ name found = .ok id) :
    Scope.lookupCallee ⟨m', params⟩ name found = .ok (ρ id) := by
  obtain ⟨hfind, harity⟩ := Scope.lookupCallee_eq_ok_iff.mp hid
  exact Scope.lookupCallee_eq_ok_iff.mpr ⟨h.find?_of_some hfind, h.arity? harity⟩

end Renumbered

mutual

/-- The code of an expression is the same but for the places of called routines. -/
theorem Emits.renumber {ρ : RoutineId → RoutineId} {m m' : CodeModule} (h : Renumbered ρ m m')
    {params : List String} {e : Expr} {b b' : Builder} {v : Value} :
    Emits ⟨m, params⟩ e b v b' → Emits ⟨m', params⟩ e (b.renumber ρ) v (b'.renumber ρ)
  | .number x b => .number x _
  | .var b hi => .var _ hi
  | .binary hl hr hop => by
    refine .binary (hl.renumber h) (hr.renumber h) ?_
    rw [emitOperator_renumber, hop]
    rfl
  | @Emits.call _ _ _ target values _ b₁ htarget hargs => by
    have hcall := Emits.call (h.lookupCallee htarget) (hargs.renumber h)
    have hpush := b₁.push_renumber (ρ := ρ) "calltmp" (.call target values)
    unfold Builder.call at hcall ⊢
    rw [Operation.renumber] at hpush
    rw [hpush] at hcall
    exact hcall

theorem EmitsAll.renumber {ρ : RoutineId → RoutineId} {m m' : CodeModule}
    (h : Renumbered ρ m m') {params : List String} {es : List Expr} {b b' : Builder}
    {values : List Value} :
    EmitsAll ⟨m, params⟩ es b values b' →
      EmitsAll ⟨m', params⟩ es (b.renumber ρ) values (b'.renumber ρ)
  | .nil b => .nil _
  | .cons he hrest => .cons (he.renumber h) (hrest.renumber h)

end

namespace Renumbered

variable {ρ : RoutineId → RoutineId} {m m₁ m' declared : CodeModule} {p : Prototype}
  {id : RoutineId}

theorem lowerExpr (h : Renumbered ρ m m') {params : List String} {e : Expr} {ret : Value}
    {b : Builder} (hexpr : lowerExpr ⟨m, params⟩ e (.start params) = .ok (ret, b)) :
    Formulary.lowerExpr ⟨m', params⟩ e (.start params) = .ok (ret, b.renumber ρ) := by
  have hemits := (lowerExpr_eq_ok_iff.mp hexpr).renumber h
  rw [Builder.renumber_start] at hemits
  exact lowerExpr_eq_ok_iff.mpr hemits

/-- The place of the next new routine is its place in the second module. -/
def extend (ρ : RoutineId → RoutineId) (m m' : CodeModule) (id : RoutineId) : RoutineId :=
  if id.index = m.slots.size then ⟨m'.slots.size⟩ else ρ id

theorem extend_of_get? {r : Routine} (hr : m.get? id = some r) : extend ρ m m' id = ρ id := by
  have hlt := index_lt_of_get? hr
  rw [extend, if_neg (by omega)]

theorem declare (h : Renumbered ρ m m') (hm : m.Sound) (name : String) (params : List String) :
    Renumbered (extend ρ m m') (m.declare name params).2 (m'.declare name params).2 := by
  -- routines from before keep their places, since no body calls the new one
  have hold : ∀ id r, m.get? id = some r →
      m'.get? (extend ρ m m' id) = some (r.renumber (extend ρ m m')) := by
    intro id r hr
    rw [extend_of_get? hr, h.get? id r hr]
    rw [hm.renumber_congr hr fun _ _ => extend_of_get?]
  refine ⟨h.name, ?_, ?_, ?_⟩
  · intro id r hr
    rw [get?_declare] at hr ⊢
    split_ifs at hr with hid
    · obtain rfl := Option.some.inj hr
      rw [extend, if_pos hid, if_pos rfl]
      rfl
    · have hlt := index_lt_of_get? (hold id r hr)
      rw [if_neg (by omega), hold id r hr]
  · intro id' r' hr'
    rw [get?_declare] at hr'
    split_ifs at hr' with hid'
    · refine ⟨⟨m.slots.size⟩, ⟨name, params, none⟩, by rw [get?_declare, if_pos rfl], ?_⟩
      rw [extend, if_pos rfl, ← hid']
    · obtain ⟨id, r, hr, rfl⟩ := h.onto id' r' hr'
      have hlt := index_lt_of_get? hr
      exact ⟨id, r, by rw [get?_declare, if_neg (by omega), hr], extend_of_get? hr⟩
  · intro a b r q hr hq hab
    rw [get?_declare] at hr hq
    split_ifs at hq with hb
    · rw [if_neg (by omega)] at hr
      have hlt := index_lt_of_get? (hold a r hr)
      rw [extend.eq_def ρ m m' b, if_pos hb]
      exact hlt
    · have hlt := index_lt_of_get? hq
      rw [if_neg (by omega)] at hr
      rw [extend_of_get? hr, extend_of_get? hq]
      exact h.mono a b r q hr hq hab

theorem prepared (h : Renumbered ρ m m') (hm : m.Sound) (hp : Prepared m p id declared) :
    ∃ ρ' declared', Prepared m' p (ρ' id) declared' ∧ Renumbered ρ' declared declared' := by
  cases hp with
  | fresh hfind =>
    refine ⟨extend ρ m m', (m'.declare p.name p.params).2, ?_, h.declare hm p.name p.params⟩
    rw [extend, if_pos rfl]
    exact .fresh (h.find?_of_none hfind)
  | declared hfind hget hbody harity =>
    refine ⟨ρ, m', .declared (h.find?_of_some hfind) (h.get? _ _ hget) ?_ harity, h⟩
    rw [Routine.renumber, hbody, Option.map_none]

theorem define (h : Renumbered ρ m m') {r : Routine} (hget : m.get? id = some r) (b : Builder)
    (ret : Value) :
    Renumbered ρ (m.define id (b.finish ret)).2
      (m'.define (ρ id) ((b.renumber ρ).finish ret)).2 := by
  have hget' := h.get? id r hget
  refine ⟨?_, ?_, ?_, ?_⟩
  · rw [name_define, name_define, h.name]
  · intro other q hq
    obtain ⟨q', hq', -⟩ := get?_of_define hget hq
    rw [get?_define hget] at hq
    rw [get?_define hget']
    split_ifs at hq with hother
    · obtain rfl := Option.some.inj hq
      rw [hother, if_pos rfl]
      rfl
    · rw [if_neg fun heq => hother (h.injective hq' hget heq), h.get? other q hq]
  · intro id' r' hr'
    rw [get?_define hget'] at hr'
    split_ifs at hr' with hid'
    · exact ⟨id, _, (get?_define hget _ id).trans (if_pos rfl), hid'.symm⟩
    · obtain ⟨other, q, hq, rfl⟩ := h.onto id' r' hr'
      refine ⟨other, q, ?_, rfl⟩
      rw [get?_define hget, if_neg fun heq => hid' (by rw [heq]), hq]
  · intro a c q s hq hs
    obtain ⟨q', hq', -⟩ := get?_of_define hget hq
    obtain ⟨s', hs', -⟩ := get?_of_define hget hs
    exact h.mono a c q' s' hq' hs'

/-! ## The same requests -/

/-- A declaration that succeeds in the first module succeeds in the second one. -/
theorem lowerPrototype (h : Renumbered ρ m m') (hm : m.Sound)
    (hok : lowerPrototype m p = (.ok id, m₁)) :
    ∃ ρ' m₁', Formulary.lowerPrototype m' p = (.ok (ρ' id), m₁') ∧ Renumbered ρ' m₁ m₁' := by
  rcases lowerPrototype_cases m p with ⟨hfind, hnew⟩ | ⟨other, hfind, harity, hsame⟩ |
    ⟨e, hrefused, -⟩
  · rw [hnew] at hok
    obtain ⟨hid, rfl⟩ := Prod.mk.inj hok
    obtain rfl := Except.ok.inj hid
    refine ⟨extend ρ m m', _, ?_, h.declare hm p.name p.params⟩
    rw [lowerPrototype_of_none (h.find?_of_none hfind), extend, if_pos rfl]
  · rw [hsame] at hok
    obtain ⟨hid, rfl⟩ := Prod.mk.inj hok
    obtain rfl := Except.ok.inj hid
    obtain ⟨r, hget, hr⟩ := Option.map_eq_some_iff.mp harity
    refine ⟨ρ, m', ?_, h⟩
    rw [lowerPrototype_of_some (h.find?_of_some hfind) (h.get? other r hget)]
    exact if_pos hr
  · rw [hrefused] at hok
    simp at hok

/-- A definition that succeeds in the first module succeeds in the second one. -/
theorem lowerFormula (h : Renumbered ρ m m') (hm : m.Sound) {f : Formula}
    (hok : lowerFormula m f = (.ok id, m₁)) :
    ∃ ρ' m₁', Formulary.lowerFormula m' f = (.ok (ρ' id), m₁') ∧ Renumbered ρ' m₁ m₁' := by
  obtain ⟨declared, ret, b, hp, hexpr, rfl, -⟩ := lowerFormula_eq_ok_iff.mp hok
  obtain ⟨r, hget, -⟩ := hp.get?
  obtain ⟨ρ', declared', hp', h'⟩ := h.prepared hm hp
  have hexpr' := h'.lowerExpr hexpr
  refine ⟨ρ', _, ?_, h'.define hget b ret⟩
  exact lowerFormula_eq_ok_iff.mpr ⟨declared', ret, _, hp', hexpr', rfl, hp'.verify_define hexpr'⟩

theorem definition (h : Renumbered ρ m m') (hm : m.Sound) (f : Formula)
    {result : Option RoutineId} (hok : lowerConstruct m (.definition f) = (.ok result, m₁)) :
    ∃ ρ' m₁', lowerConstruct m' (.definition f) = (.ok (result.map ρ'), m₁') ∧
      Renumbered ρ' m₁ m₁' := by
  obtain ⟨hresult, rfl⟩ := Prod.mk.inj hok
  obtain ⟨id, hid, rfl⟩ := Except.map_eq_ok_iff.mp hresult
  obtain ⟨ρ', m₁', hok', h'⟩ := h.lowerFormula hm (Prod.ext hid rfl)
  refine ⟨ρ', m₁', ?_, h'⟩
  rw [Formulary.lowerConstruct, hok']
  rfl

/-- A construct that succeeds in the first module succeeds in the second one, and yields the same
    routine. -/
theorem lowerConstruct (h : Renumbered ρ m m') (hm : m.Sound) {c : Construct}
    {result : Option RoutineId} (hok : lowerConstruct m c = (.ok result, m₁)) :
    ∃ ρ' m₁', Formulary.lowerConstruct m' c = (.ok (result.map ρ'), m₁') ∧
      Renumbered ρ' m₁ m₁' := by
  cases c with
  | definition f => exact h.definition hm f hok
  | expression f => exact h.definition hm f hok
  | declaration p =>
    obtain ⟨hresult, rfl⟩ := Prod.mk.inj hok
    obtain ⟨id, hid, rfl⟩ := Except.map_eq_ok_iff.mp hresult
    obtain ⟨ρ', m₁', hok', h'⟩ := h.lowerPrototype hm (Prod.ext hid rfl)
    refine ⟨ρ', m₁', ?_, h'⟩
    rw [Formulary.lowerConstruct, hok']
    rfl
  | separator =>
    obtain ⟨hresult, rfl⟩ := Prod.mk.inj hok
    obtain rfl := Except.ok.inj hresult
    exact ⟨ρ, m', rfl, h⟩
  | endOfInput =>
    obtain ⟨hresult, rfl⟩ := Prod.mk.inj hok
    obtain rfl := Except.ok.inj hresult
    exact ⟨ρ, m', rfl, h⟩

end Renumbered

end Formulary
