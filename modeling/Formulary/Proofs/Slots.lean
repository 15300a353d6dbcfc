import Formulary.Proofs.Routines

/-!
# Modules under any use

The operations of a module are used here in any order, on places that hold a routine, that have
been erased, or that the module never had. All that is asked for is that a routine is declared
under a name that no other one has. Each operation names one slot: the new one for a declaration,
and the given place otherwise. What an operation can do is said once, in
`Edit.declare_or_put`, and the facts about names and places are derived from that.

Results:
* `CodeModule.put_get?`: a slot that gets what it holds is left as it was.
* `CodeModule.clearBody_define`: a definition is taken back by the names it yields.
* `Edit.declare_or_put`: what an operation can do to the slots.
* `Edit.slots_apply_of_ne`, `Edit.get?_apply`: what it leaves in each slot.
* `CodeModule.Unambiguous`: no two routines share a name; `Unambiguous.find?_eq_some_iff`.
* `CodeModule.Ended`: every body returns a value, whatever operations made it.
* `issued_pairwise`: places are given out in ascending order.
* `edits_keep_slots`: the invariant of every sequence of operations.
-/

namespace Formulary

open CodeModule

/-! ## Slots -/

namespace CodeModule

variable {m : CodeModule} {id : RoutineId} {r : Routine}

theorem put_get? (m : CodeModule) (id : RoutineId) : m.put id (m.get? id) = m := by
  have hslots : m.slots.setIfInBounds id.index (m.get? id) = m.slots := by
    apply Array.ext_getElem?
    intro i
    rw [Array.getElem?_setIfInBounds]
    split_ifs with hi hlt
    · subst hi
      rw [get?, Array.getElem?_eq_getElem hlt, Option.join_some]
    · rw [Array.getElem?_eq_none (by omega)]
    · rfl
  show CodeModule.mk m.name _ = m
  rw [hslots]

theorem put_put (m : CodeModule) (id : RoutineId) (r r' : Option Routine) :
    (m.put id r).put id r' = m.put id r' := by
  show CodeModule.mk m.name _ = CodeModule.mk m.name _
  rw [put, Array.setIfInBounds_setIfInBounds]

theorem define_of_none (h : m.get? id = none) (finished : Finished) :
    m.define id finished = ([], m) := by
  rw [define, h]

theorem clearBody_of_none (h : m.get? id = none) (params : List String) :
    m.clearBody id params = m := by
  rw [clearBody, h]

theorem erase_of_none (h : m.get? id = none) : m.erase id = (none, m) := by
  have hput := m.put_get? id
  rw [h] at hput
  rw [erase, h, hput]

/-- A definition of a routine without a body is taken back by the parameter names it yields. -/
theorem clearBody_define (h : m.get? id = some r) (hbody : r.body = none) (finished : Finished) :
    (m.define id finished).2.clearBody id (m.define id finished).1 = m := by
  have hdefined := get?_define h finished id
  rw [if_pos rfl] at hdefined
  obtain ⟨name, params, body⟩ := r
  obtain rfl : body = none := hbody
  rw [clearBody, hdefined, define, h]
  show (m.put id _).put id (some ⟨name, params, none⟩) = m
  rw [put_put, ← h, put_get?]

end CodeModule

/-! ## One operation -/

/-- A use of an operation of a module, on any place. -/
inductive Edit
  | declare (name : String) (params : List String)
  | define (id : RoutineId) (finished : Finished)
  | clearBody (id : RoutineId) (params : List String)
  | erase (id : RoutineId)

namespace Edit

/-- The module behind an operation. -/
def apply (m : CodeModule) : Edit → CodeModule
  | declare name params => (m.declare name params).2
  | define id finished => (m.define id finished).2
  | clearBody id params => m.clearBody id params
  | erase id => (m.erase id).2

/-- The place that a declaration yields. -/
def issued? (m : CodeModule) : Edit → Option RoutineId
  | declare name params => some (m.declare name params).1
  | _ => none

/-- The place whose slot an operation names: the place that it yields or is given. -/
def place (m : CodeModule) : Edit → RoutineId
  | declare name params => (m.declare name params).1
  | define id _ => id
  | clearBody id _ => id
  | erase id => id

/-- What an operation leaves at the place it names. -/
def outcome (m : CodeModule) : Edit → Option Routine
  | declare name params => some ⟨name, params, none⟩
  | define id finished =>
    (m.get? id).map fun r => ⟨r.name, finished.params, some finished.body⟩
  | clearBody id params => (m.get? id).map fun r => ⟨r.name, params, none⟩
  | erase _ => none

/-- A name is declared only if it is empty or no routine has it. -/
def Permitted (m : CodeModule) : Edit → Prop
  | declare name _ => name = "" ∨ ∀ p ∈ m.live, p.2.name ≠ name
  | _ => True

instance (m : CodeModule) (edit : Edit) : Decidable (edit.Permitted m) :=
  match edit with
  | declare name _ => inferInstanceAs (Decidable (name = "" ∨ ∀ p ∈ m.live, p.2.name ≠ name))
  | define _ _ => .isTrue trivial
  | clearBody _ _ => .isTrue trivial
  | erase _ => .isTrue trivial

variable {m : CodeModule}

/-- An operation other than a declaration puts its outcome in the slot that it names, and on a place
    that holds nothing the outcome is nothing. -/
theorem declare_or_put (edit : Edit) :
    (∃ name params, edit = declare name params) ∨
      edit.issued? m = none ∧ edit.apply m = m.put (edit.place m) (edit.outcome m) ∧
        (m.get? (edit.place m) = none → edit.outcome m = none) := by
  have hput : ∀ {id : RoutineId}, m.get? id = none → m = m.put id none := fun h => by
    rw [← h, put_get?]
  cases edit with
  | declare name params => exact .inl ⟨name, params, rfl⟩
  | define id finished =>
    refine .inr ⟨rfl, ?_, Option.map_eq_none_iff.mpr⟩
    show (m.define id finished).2 = m.put id ((m.get? id).map _)
    cases hget : m.get? id with
    | none => rw [define_of_none hget, Option.map_none, ← hput hget]
    | some r => rw [CodeModule.define, hget, Option.map_some]
  | clearBody id params =>
    refine .inr ⟨rfl, ?_, Option.map_eq_none_iff.mpr⟩
    show m.clearBody id params = m.put id ((m.get? id).map _)
    cases hget : m.get? id with
    | none => rw [clearBody_of_none hget, Option.map_none, ← hput hget]
    | some r => rw [CodeModule.clearBody, hget, Option.map_some]
  | erase id => exact .inr ⟨rfl, rfl, fun _ => rfl⟩

theorem size_apply (edit : Edit) :
    (edit.apply m).slots.size = m.slots.size + (edit.issued? m).toList.length := by
  rcases edit.declare_or_put (m := m) with ⟨name, params, rfl⟩ | ⟨hissued, hput, -⟩
  · exact Array.size_push _
  · rw [hissued, hput]
    exact Array.size_setIfInBounds

/-- An operation changes a slot only if it names it. -/
theorem slots_apply_of_ne (edit : Edit) {i : Nat} (hi : i ≠ (edit.place m).index) :
    (edit.apply m).slots[i]? = m.slots[i]? := by
  rcases edit.declare_or_put (m := m) with ⟨name, params, rfl⟩ | ⟨-, hput, -⟩
  · have hsize : i ≠ m.slots.size := hi
    show (m.slots.push _)[i]? = m.slots[i]?
    rw [Array.getElem?_push, if_neg hsize]
  · rw [hput]
    exact Array.getElem?_setIfInBounds_ne (Ne.symm hi)

theorem get?_apply_place (edit : Edit) :
    (edit.apply m).get? (edit.place m) = edit.outcome m := by
  rcases edit.declare_or_put (m := m) with ⟨name, params, rfl⟩ | ⟨-, hput, hnone⟩
  · show (m.declare name params).2.get? ⟨m.slots.size⟩ = some ⟨name, params, none⟩
    rw [get?_declare, if_pos rfl]
  · rw [hput, get?_put]
    split_ifs with hslot
    · rfl
    · -- there is no such slot, so nothing was found there before
      have hget : m.get? (edit.place m) = none := by
        cases hget : m.get? (edit.place m) with
        | none => rfl
        | some r => exact absurd ⟨rfl, index_lt_of_get? hget⟩ hslot
      rw [hget, hnone hget]

/-- What is found behind an operation: its outcome at the place it names, and elsewhere what was
    found before. -/
theorem get?_apply (edit : Edit) (id : RoutineId) :
    (edit.apply m).get? id = if id = edit.place m then edit.outcome m else m.get? id := by
  split_ifs with hid
  · rw [hid, get?_apply_place]
  · have hindex : id.index ≠ (edit.place m).index := fun h => hid (congrArg RoutineId.mk h)
    rw [get?, slots_apply_of_ne edit hindex, get?]

/-- A slot that is empty stays empty: a declaration takes a new one. -/
theorem get?_apply_of_none (edit : Edit) {id : RoutineId} (hlt : id.index < m.slots.size)
    (h : m.get? id = none) : (edit.apply m).get? id = none := by
  rw [get?_apply]
  split_ifs with hid
  · rcases edit.declare_or_put (m := m) with ⟨name, params, rfl⟩ | ⟨-, -, hnone⟩
    · have hindex : id.index = m.slots.size := congrArg RoutineId.index hid
      omega
    · exact hnone (hid ▸ h)
  · exact h

/-- A routine behind a permitted operation has the name of the one that was there before, or it is
    the one that was declared, under a name that is empty or new. -/
theorem origin {edit : Edit} (hedit : edit.Permitted m) {id : RoutineId} {r : Routine}
    (hr : (edit.apply m).get? id = some r) :
    (∃ q, m.get? id = some q ∧ q.name = r.name) ∨
      id = edit.place m ∧ (r.name = "" ∨ ∀ other q, m.get? other = some q → q.name ≠ r.name) := by
  rw [get?_apply] at hr
  split_ifs at hr with hid
  · subst hid
    cases edit with
    | declare name params =>
      obtain rfl := Option.some.inj hr
      refine .inr ⟨rfl, hedit.imp_right fun hnew other q hq => ?_⟩
      exact hnew (other, q) ((mem_live_iff _ _ _).mpr hq)
    | define id finished =>
      obtain ⟨q, hq, rfl⟩ := Option.map_eq_some_iff.mp hr
      exact .inl ⟨q, hq, rfl⟩
    | clearBody id params =>
      obtain ⟨q, hq, rfl⟩ := Option.map_eq_some_iff.mp hr
      exact .inl ⟨q, hq, rfl⟩
    | erase id => exact absurd hr (by simp [outcome])
  · exact .inl ⟨r, hr, rfl⟩

end Edit

/-! ## Names -/

/-- No two routines share a name, those without one apart. -/
def CodeModule.Unambiguous (m : CodeModule) : Prop :=
  ∀ id id' r r', m.get? id = some r → m.get? id' = some r' → r.name = r'.name → r.name ≠ "" →
    id = id'

namespace CodeModule.Unambiguous

variable {m : CodeModule}

theorem empty (name : String) : (CodeModule.empty name).Unambiguous := by
  intro id id' r r' hr
  simp [get?, CodeModule.empty] at hr

/-- The first routine of a name is the only one. -/
theorem find?_eq_some_iff (h : m.Unambiguous) {name : String} {id : RoutineId} :
    m.find? name = some id ↔ name ≠ "" ∧ ∃ r, m.get? id = some r ∧ r.name = name := by
  rw [CodeModule.find?_eq_some_iff]
  constructor
  · rintro ⟨hne, hr, -⟩
    exact ⟨hne, hr⟩
  · rintro ⟨hne, r, hr, rfl⟩
    refine ⟨hne, ⟨r, hr, rfl⟩, fun earlier q hlt hq hname => ?_⟩
    obtain rfl := h id earlier r q hr hq hname.symm hne
    omega

/-- A permitted operation gives no name to a second routine. -/
theorem apply (h : m.Unambiguous) {edit : Edit} (hedit : edit.Permitted m) :
    (edit.apply m).Unambiguous := by
  intro id id' r r' hr hr' hname hne
  rcases Edit.origin hedit hr with ⟨q, hq, hqname⟩ | ⟨rfl, hnew⟩
  · rcases Edit.origin hedit hr' with ⟨q', hq', hqname'⟩ | ⟨-, hnew'⟩
    · exact h id id' q q' hq hq' (by rw [hqname, hname, hqname']) (hqname ▸ hne)
    · -- the declared routine would have the name of an earlier one
      rcases hnew' with hempty | hnew'
      · exact absurd (hname.trans hempty) hne
      · exact absurd (hqname.trans hname) (hnew' id q hq)
  · rcases Edit.origin hedit hr' with ⟨q', hq', hqname'⟩ | ⟨rfl, -⟩
    · rcases hnew with hempty | hnew
      · exact absurd hempty hne
      · exact absurd (hqname'.trans hname.symm) (hnew id' q' hq')
    · rfl

end CodeModule.Unambiguous

/-! ## Bodies -/

/-- Every body returns a value. -/
def CodeModule.Ended (m : CodeModule) : Prop :=
  ∀ id r body, m.get? id = some r → r.body = some body → body.ret.isSome = true

namespace CodeModule.Ended

variable {m : CodeModule}

theorem empty (name : String) : (CodeModule.empty name).Ended := by
  intro id r body hr
  simp [get?, CodeModule.empty] at hr

/-- Bodies come from definitions, and what is defined returns a value. -/
theorem apply (h : m.Ended) (edit : Edit) : (edit.apply m).Ended := by
  intro id r body hr hbody
  rw [Edit.get?_apply] at hr
  split_ifs at hr with hid
  · cases edit with
    | declare name params =>
      obtain rfl := Option.some.inj hr
      exact absurd hbody (by simp)
    | define place finished =>
      obtain ⟨q, -, rfl⟩ := Option.map_eq_some_iff.mp hr
      obtain rfl := Option.some.inj hbody
      exact finished.ends
    | clearBody place params =>
      obtain ⟨q, -, rfl⟩ := Option.map_eq_some_iff.mp hr
      exact absurd hbody (by simp)
    | erase place => exact absurd hr (by simp [Edit.outcome])
  · exact h id r body hr hbody

end CodeModule.Ended

/-! ## All operations -/

/-- The module behind operations in order. -/
def applyAll (m : CodeModule) (edits : List Edit) : CodeModule := edits.foldl Edit.apply m

/-- Each of the operations is permitted in the module that it is used on. -/
def PermittedAll (m : CodeModule) : List Edit → Prop
  | [] => True
  | edit :: rest => edit.Permitted m ∧ PermittedAll (edit.apply m) rest

instance decidablePermittedAll : (m : CodeModule) → (edits : List Edit) →
    Decidable (PermittedAll m edits)
  | _, [] => .isTrue trivial
  | m, edit :: rest =>
    have := decidablePermittedAll (edit.apply m) rest
    inferInstanceAs (Decidable (edit.Permitted m ∧ PermittedAll (edit.apply m) rest))

/-- The places that the declarations among the operations yield, in order. -/
def issued (m : CodeModule) : List Edit → List RoutineId
  | [] => []
  | edit :: rest => (edit.issued? m).toList ++ issued (edit.apply m) rest

section Runs

variable {m : CodeModule}

theorem CodeModule.Unambiguous.applyAll (h : m.Unambiguous) {edits : List Edit}
    (hedits : PermittedAll m edits) : (applyAll m edits).Unambiguous := by
  induction edits generalizing m with
  | nil => exact h
  | cons edit rest ih => exact ih (h.apply hedits.1) hedits.2

theorem CodeModule.Ended.applyAll (h : m.Ended) (edits : List Edit) :
    (applyAll m edits).Ended := by
  induction edits generalizing m with
  | nil => exact h
  | cons edit rest ih => exact ih (h.apply edit)

/-- A place that was given out and holds nothing is never used again. -/
theorem get?_applyAll_of_none {id : RoutineId} (hlt : id.index < m.slots.size)
    (h : m.get? id = none) (edits : List Edit) : (applyAll m edits).get? id = none := by
  induction edits generalizing m with
  | nil => exact h
  | cons edit rest ih =>
    have hstep := edit.size_apply (m := m)
    exact ih (by omega) (edit.get?_apply_of_none hlt h)

theorem le_of_mem_issued {edits : List Edit} {id : RoutineId} (h : id ∈ issued m edits) :
    m.slots.size ≤ id.index := by
  induction edits generalizing m with
  | nil => simp [issued] at h
  | cons edit rest ih =>
    rw [issued, List.mem_append] at h
    rcases h with h | h
    · cases edit with
      | declare name params =>
        obtain rfl : id = ⟨m.slots.size⟩ := List.mem_singleton.mp h
        exact Nat.le_refl _
      | define _ _ => simp [Edit.issued?] at h
      | clearBody _ _ => simp [Edit.issued?] at h
      | erase _ => simp [Edit.issued?] at h
    · have hstep := edit.size_apply (m := m)
      have hrest := ih h
      omega

theorem issued_pairwise (m : CodeModule) (edits : List Edit) :
    (issued m edits).Pairwise (·.index < ·.index) := by
  induction edits generalizing m with
  | nil => exact .nil
  | cons edit rest ih =>
    rw [issued]
    cases edit with
    | declare name params =>
      refine List.pairwise_cons.mpr ⟨?_, ih _⟩
      intro later hlater
      have hbehind := le_of_mem_issued hlater
      have hsize : ((Edit.declare name params).apply m).slots.size = m.slots.size + 1 :=
        Edit.size_apply _
      show m.slots.size < later.index
      omega
    | define _ _ => exact ih _
    | clearBody _ _ => exact ih _
    | erase _ => exact ih _

end Runs

/-- Whatever operations a module has been through, on whatever places, as long as a name was
    declared only while no routine had it:

    * a routine is found by a name exactly if the name is not empty and is that of the routine, and
      no other routine has the name;
    * every declaration has yielded a place behind those of all earlier ones, and a routine that was
      erased is not there again;
    * any next operation leaves its outcome in the slot that it names and all other slots as they
      are, and on a place that holds nothing it does nothing;
    * a definition of a routine without a body is taken back by the parameter names it yields. -/
theorem edits_keep_slots (name : String) (edits : List Edit)
    (hedits : PermittedAll (.empty name) edits) :
    let m := applyAll (.empty name) edits
    (∀ n id, m.find? n = some id ↔ n ≠ "" ∧ ∃ r, (id, r) ∈ m.live ∧ r.name = n) ∧
      (∀ id id' r r', (id, r) ∈ m.live → (id', r') ∈ m.live → r.name = r'.name → r.name ≠ "" →
        id = id') ∧
      (issued (.empty name) edits).Pairwise (·.index < ·.index) ∧
      (∀ before id after, edits = before ++ .erase id :: after →
        (∃ r, (id, r) ∈ (applyAll (.empty name) before).live) → ∀ r, (id, r) ∉ m.live) ∧
      (∀ edit : Edit, (edit.apply m).get? (edit.place m) = edit.outcome m ∧
        ∀ i, i ≠ (edit.place m).index → (edit.apply m).slots[i]? = m.slots[i]?) ∧
      (∀ id, (∀ r, (id, r) ∉ m.live) → ∀ finished params,
        m.define id finished = ([], m) ∧ m.clearBody id params = m ∧ m.erase id = (none, m)) ∧
      ∀ id r, (id, r) ∈ m.live → r.body = none → ∀ finished,
        (m.define id finished).2.clearBody id (m.define id finished).1 = m := by
  intro m
  have hnames : m.Unambiguous := (Unambiguous.empty name).applyAll hedits
  simp only [mem_live_iff]
  refine ⟨fun _ _ => hnames.find?_eq_some_iff, hnames, issued_pairwise _ edits, ?_, ?_, ?_, ?_⟩
  · rintro before id after rfl ⟨r, hr⟩ r'
    -- from the erasing on the slot is there and empty
    have hsplit : m = applyAll ((Edit.erase id).apply (applyAll (.empty name) before)) after :=
      List.foldl_append
    have hsize := (Edit.erase id).size_apply (m := applyAll (.empty name) before)
    have hlt := index_lt_of_get? hr
    have hnone : ((Edit.erase id).apply (applyAll (.empty name) before)).get? id = none :=
      Edit.get?_apply_place (.erase id)
    rw [hsplit, get?_applyAll_of_none (by omega) hnone]
    exact Option.some_ne_none r' ∘ Eq.symm
  · exact fun edit => ⟨edit.get?_apply_place, fun i hi => edit.slots_apply_of_ne hi⟩
  · intro id hdead finished params
    have hnone : m.get? id = none := Option.eq_none_iff_forall_ne_some.mpr hdead
    exact ⟨define_of_none hnone finished, clearBody_of_none hnone params, erase_of_none hnone⟩
  · intro id r hr hbody finished
    exact clearBody_define hr hbody finished

/-- A routine is defined and erased, a place that the module never had is erased, and the name is
    declared again. It belongs to the new place, and the old one, though it is defined once more,
    holds nothing. -/
theorem edits_keep_slots_name_reused :
    let edits : List Edit := [.declare "f" ["a"], .declare "" [],
      .define ⟨0⟩ ⟨["b"], ⟨#[], some (.param 3)⟩, rfl⟩, .erase ⟨0⟩, .erase ⟨9⟩,
      .declare "f" ["x", "x"], .define ⟨0⟩ ⟨[], ⟨#[], some (.truth true)⟩, rfl⟩]
    let m := applyAll (.empty "kaleido") edits
    PermittedAll (.empty "kaleido") edits ∧ m.find? "f" = some ⟨2⟩ ∧ ∀ r, (⟨0⟩, r) ∉ m.live := by
  intro edits m
  have hedits : PermittedAll (.empty "kaleido") edits := by decide
  obtain ⟨hfind, -, -, herased, -⟩ := edits_keep_slots "kaleido" edits hedits
  refine ⟨hedits, (hfind "f" ⟨2⟩).mpr ⟨by decide, ⟨"f", ["x", "x"], none⟩, by decide, rfl⟩, ?_⟩
  exact herased (edits.take 3) ⟨0⟩ (edits.drop 4) rfl
    ⟨⟨"f", ["b"], some ⟨#[], some (.param 3)⟩⟩, by decide⟩

end Formulary
